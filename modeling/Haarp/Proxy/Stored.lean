import Haarp.Cache.PartialSize
import Haarp.Http.ContentLength
import Haarp.Proxy.Answers
import Mathlib.Algebra.Group.Int.Defs

/-!
# The header of a hit

`ReadHeader` makes a header of its own for what is stored, and writes the length, the range and the size
of the file into it. A browser reads the length with `AnalyseHeader`; another cache reads it with
`getOnlyContentLength`, which looks for a number in all of the text, and the size with
`UpdateFileSizeinPartial`, which takes lines apart.

`hit_announces`: all of them read the numbers that are written.
-/

namespace Haarp

open HTTPHandler (spacedField spacedFields fieldValue)
open ConnectionToHTTP (fieldKind lengthKind fieldKind_front lastLength chunkedRead ReadsHeader)

/-! ## The source -/

/-- The types of the extensions that have their own. -/
def contentTypes : List (Str × Str) :=
  [("SWF".toList, "application/x-shockwave-flash".toList), ("HTML".toList, "text/html".toList),
    ("HTM".toList, "text/html".toList), ("ASP".toList, "text/html".toList),
    ("PHP".toList, "text/html".toList), ("BMP".toList, "image/bmp".toList),
    ("IEF".toList, "image/ief".toList), ("JPEG".toList, "image/jpeg".toList),
    ("JPG".toList, "image/jpeg".toList), ("JPE".toList, "image/jpeg".toList),
    ("TIFF".toList, "image/tiff".toList), ("TIF".toList, "image/tiff".toList),
    ("WOFF".toList, "application/font-woff".toList), ("RAS".toList, "image/x-cmu-raster".toList),
    ("PNM".toList, "image/x-portable-anymap".toList), ("PBM".toList, "image/x-portable-bitmap".toList),
    ("PGM".toList, "image/x-portable-graymap".toList), ("PPM".toList, "image/x-portable-pixmap".toList),
    ("RGB".toList, "image/x-rgb".toList), ("JS".toList, "application/x-javascript".toList),
    ("CSS".toList, "text/css".toList), ("XBM".toList, "image/x-xbitmap".toList),
    ("XPM".toList, "image/x-xpixmap".toList), ("XWD".toList, "image/x-xwindowdump".toList),
    ("AU".toList, "audio/basic".toList), ("XML".toList, "text/xml".toList),
    ("XLS".toList, "text/xml".toList), ("FLV".toList, "application/octet-stream".toList),
    ("MP4".toList, "video/mp4".toList), ("WEBM".toList, "video/webm".toList)]

/-- The type of a file. -/
def contentType (extension domain : Str) : Str :=
  if extension = "MP4A".toList ∧ domain = youtube then "audio/mp4".toList
  else ((contentTypes.find? fun t => t.1 = extension).map Prod.snd).getD "application/octet-stream".toList

/-- The fields of a part of a file; a colon stands between a name and its value. -/
def Connection.rangeFields (c : Connection) : List (Str × Str) :=
  if c.isPartial then
    [("Accept-Ranges".toList, " bytes".toList),
      ("Content-Range".toList, " bytes ".toList ++ longText c.range_min ++ "-".toList ++
        longText c.range_max ++ '/' :: longText c.size_orig_file)]
  else []

/-- The other fields that are no numbers. -/
def Connection.nameFields (c : Connection) : List (Str × Str) :=
  [("X-Cache".toList, " HIT from Haarp".toList), ("Haarp".toList, " HIT from ".toList ++ c.r.domain)] ++
  (if c.r.domain = youtube then
    [("Accept-Ranges".toList, "bytes".toList), ("Alternate-Protocol".toList, "80:quic".toList)]
  else []) ++
  if c.origin_header = [] then []
  else
    [("Access-Control-Allow-Credentials".toList, "true".toList),
      ("Access-Control-Allow-Origin".toList, c.origin_header),
      ("Timing-Allow-Origin".toList, c.origin_header)]

/-- The fields of the header of a hit. -/
def Connection.hitFields (c : Connection) : List (Str × Str) :=
  ("Content-Type".toList, ' ' :: contentType (getFileExtension c.r.file) c.r.domain) ::
    ("Content-Length".toList, ' ' :: longText c.filesizeneto) :: (c.rangeFields ++ c.nameFields)

/-- The status of a hit. -/
def Connection.hitStatus (c : Connection) : Str :=
  if c.isPartial then "HTTP/1.0 206 Partial".toList else "HTTP/1.0 200 OK".toList

/-- A line of a header. -/
def fieldLine (field : Str × Str) : Str := field.1 ++ ':' :: field.2

/-- The header of a hit, as `SendHeader` ends it. -/
def Connection.hitHeader (c : Connection) (ProxyConnection ConnectionClose : Bool) : Str :=
  written (c.hitStatus :: c.hitFields.map fieldLine ++
    [ConnectionToHTTP.browserLine ProxyConnection ConnectionClose]) ++ crlf

/-- The text of the header for a reader: with the blank line at its end, or without it, as `ReadHeader`
hands it over. -/
def Connection.HitText (c : Connection) (ProxyConnection ConnectionClose : Bool) (text : Str) : Prop :=
  text = c.hitHeader ProxyConnection ConnectionClose ∨
    text = handedOver (c.hitHeader ProxyConnection ConnectionClose)

/-! ## The fields -/

section Fields

variable {name value line : Str}

theorem spacedField_front (hname : ':' ∉ name) :
    UpperCase name ++ [':'] <+: UpperCase (spacedField (fieldLine (name, value))) := by
  obtain ⟨hvalue, htake⟩ := HTTPHandler.fieldValue_field hname value
  have hfront : name ++ [':'] <+: spacedField (fieldLine (name, value)) := by
    rw [spacedField, fieldLine, hvalue, htake]
    split
    · exact ⟨value, by simp⟩
    · exact ⟨' ' :: value.dropWhile (· ∈ [' ']), by simp⟩
  have hupper := hfront.map upper
  rwa [List.map_append] at hupper

/-- The names of the other fields of a hit. -/
def hitNames : List Str :=
  ["Content-Type".toList, "Accept-Ranges".toList, "Content-Range".toList, "X-Cache".toList,
    "Haarp".toList, "Alternate-Protocol".toList, "Access-Control-Allow-Credentials".toList,
    "Access-Control-Allow-Origin".toList, "Timing-Allow-Origin".toList]

/-- A field that tells nothing of the length or the transfer. -/
structure Quiet (line : Str) : Prop where
  length : lengthKind line = none
  chunked : fieldKind line ≠ .chunked
  refused : fieldKind line ≠ .refused

theorem quiet_field (h : name ∈ hitNames) (value : Str) :
    Quiet (spacedField (fieldLine (name, value))) := by
  have hnames : ∀ name ∈ hitNames, ':' ∉ name ∧
      ¬ UpperCase name ++ [':'] <+: ConnectionToHTTP.lengthName ++ [':', ' '] ∧
      ¬ ConnectionToHTTP.lengthName ++ [':', ' '] <+: UpperCase name ++ [':'] ∧
      ¬ UpperCase name ++ [':'] <+: ConnectionToHTTP.transferEncoding ∧
      ¬ ConnectionToHTTP.transferEncoding <+: UpperCase name ++ [':'] := by decide +kernel
  obtain ⟨hcolon, hlength, hlength', htransfer, htransfer'⟩ := hnames name h
  have hname : UpperCase name ++ [':'] <+: UpperCase (spacedField (fieldLine (name, value))) :=
    spacedField_front hcolon
  have hnoLength := Client.not_prefix hname hlength hlength'
  have hnoTransfer := Client.not_prefix hname htransfer htransfer'
  have hfront := fieldKind_front (spacedField (fieldLine (name, value)))
  cases hkind : fieldKind (spacedField (fieldLine (name, value))) with
  | length n =>
    rw [hkind] at hfront
    exact absurd hfront hnoLength
  | chunked | refused =>
    rw [hkind] at hfront
    exact absurd hfront hnoTransfer
  | keepAlive | image | other =>
    exact ⟨by rw [lengthKind, hkind], by rw [hkind]; decide, by rw [hkind]; decide⟩

/-- The length that is written. -/
theorem length_field {n : Nat} (h18 : n < 10 ^ 18) :
    spacedFields [fieldLine ("Content-Length".toList, ' ' :: longText n)] =
        [fieldLine ("Content-Length".toList, ' ' :: longText n)] ∧
      fieldKind (fieldLine ("Content-Length".toList, ' ' :: longText n)) = .length n := by
  have hdigits := longText_isDigit (Int.natCast_nonneg n)
  obtain ⟨d, digits, htext⟩ := List.exists_cons_of_ne_nil (longText_ne_nil n)
  have hd : d.isDigit = true := hdigits d (htext ▸ List.mem_cons_self)
  have hvalue : fieldValue (fieldLine ("Content-Length".toList, ' ' :: longText n)) = longText n := by
    have hblank : d ≠ ' ' := fun h => absurd (h ▸ hd) (by decide)
    have hcolon : ':' ∉ "Content-Length".toList := by decide
    rw [fieldLine, (HTTPHandler.fieldValue_field hcolon _).1, List.dropWhile_cons_of_pos (by simp),
      htext, List.dropWhile_cons_of_neg (by simpa using hblank)]
  refine ⟨?_, ?_⟩
  · have hspaced : spacedField (fieldLine ("Content-Length".toList, ' ' :: longText n)) =
        fieldLine ("Content-Length".toList, ' ' :: longText n) := by
      rw [spacedField, hvalue, if_neg (longText_ne_nil n)]
      rfl
    have hfilter : [fieldLine ("Content-Length".toList, ' ' :: longText n)].filter
        (fun line => fieldValue line ≠ []) = [fieldLine ("Content-Length".toList, ' ' :: longText n)] :=
      List.filter_eq_self.mpr fun line hline => by
        rw [List.mem_singleton.mp hline, hvalue]
        exact decide_eq_true (longText_ne_nil n)
    rw [spacedFields, hfilter, List.map_singleton, hspaced]
  · have htoken :
        ConnectionToHTTP.LengthToken (fieldLine ("Content-Length".toList, ' ' :: longText n)) n :=
      ⟨"Content-Length: ".toList, longText n, rfl, by decide, hdigits, longText_ne_nil n,
        (Nat.length_toDigits_le_iff (by decide) (by decide)).mpr h18,
        Nat.ofDigitChars_ten_toDigits.symm⟩
    obtain ⟨hlength, hleads, hdrop, hle, hn⟩ := ConnectionToHTTP.lengthToken_iff.mp htoken
    have hupper : ((UpperCase (fieldLine ("Content-Length".toList, ' ' :: longText n))).drop 16) =
        UpperCase ((fieldLine ("Content-Length".toList, ' ' :: longText n)).drop 16) := by
      rw [UpperCase, UpperCase, List.map_drop]
    unfold fieldKind
    dsimp only
    rw [if_pos hlength, if_pos hleads, hupper,
      if_neg fun h => (ConnectionToHTTP.findFirstNotOf_digits _).mp h hdrop,
      if_neg (Nat.not_lt.mpr hle), ← hn]

end Fields

/-! ## The lines -/

section Lines

variable (c : Connection)

theorem rangeFields_names : ∀ field ∈ c.rangeFields, field.1 ∈ hitNames := by
  intro field hfield
  unfold Connection.rangeFields at hfield
  split at hfield
  · simp only [List.mem_cons, List.not_mem_nil, or_false] at hfield
    rcases hfield with rfl | rfl <;> simp [hitNames]
  · cases hfield

theorem nameFields_names : ∀ field ∈ c.nameFields, field.1 ∈ hitNames := by
  have hall : c.nameFields.map Prod.fst ⊆ hitNames := by
    unfold Connection.nameFields
    by_cases hdomain : c.r.domain = youtube <;> by_cases horigin : c.origin_header = []
    · rw [if_pos hdomain, if_pos horigin]
      simp [hitNames]
    · rw [if_pos hdomain, if_neg horigin]
      simp [hitNames]
    · rw [if_neg hdomain, if_pos horigin]
      simp [hitNames]
    · rw [if_neg hdomain, if_neg horigin]
      simp [hitNames]
  exact fun field hfield => hall (List.mem_map_of_mem hfield)

/-- The types that are written. -/
def writtenTypes : List Str :=
  "audio/mp4".toList :: "application/octet-stream".toList :: contentTypes.map Prod.snd

theorem contentType_mem (extension domain : Str) : contentType extension domain ∈ writtenTypes := by
  unfold contentType
  split
  · exact List.mem_cons_self
  · cases hfind : contentTypes.find? fun t => t.1 = extension with
    | none => exact List.mem_cons_of_mem _ List.mem_cons_self
    | some t =>
      have hmem := List.mem_of_find?_eq_some hfind
      exact List.mem_cons_of_mem _ (List.mem_cons_of_mem _ (List.mem_map_of_mem hmem))

theorem tidy_field {name value : Str} (hname : SingleLine name) (hvalue : Tidy value) :
    Tidy (fieldLine (name, value)) := by
  have hline := Client.tidy_behind (hname.append (.cons (by decide) .nil : SingleLine [':'])) hvalue
  rwa [List.append_assoc] at hline

theorem tidy_longText {n : Int} (h₀ : 0 ≤ n) : Tidy (longText n) := by
  have hdigits := longText_isDigit h₀
  have hplain : ∀ c : Char, c.isDigit = false → c ∉ longText n := fun c hc hin =>
    not_mem_longText h₀ hc c hin (List.mem_singleton_self c)
  refine ⟨⟨hplain _ (by decide), hplain _ (by decide)⟩, ?_, longText_ne_nil n⟩
  rw [List.rdropWhile_eq_self_iff]
  intro hne hblank
  have hdigit := hdigits _ (List.getLast_mem hne)
  rcases (by simpa using hblank : (longText n).getLast hne = '\t' ∨ (longText n).getLast hne = ' ')
    with h | h
  · exact absurd (h ▸ hdigit) (by decide)
  · exact absurd (h ▸ hdigit) (by decide)

/-- What a hit is told of: numbers that are not negative, and texts within a line. -/
structure Announced : Prop where
  length : 0 ≤ c.filesizeneto ∧ c.filesizeneto < 10 ^ 18
  min : 0 ≤ c.range_min
  max : 0 ≤ c.range_max
  size : 0 ≤ c.size_orig_file ∧ c.size_orig_file ≤ llongMax
  domain : Tidy c.r.domain
  origin : c.origin_header = [] ∨ Tidy c.origin_header

variable {c}

theorem Announced.tidy (h : Announced c) : ∀ field ∈ c.hitFields, Tidy (fieldLine field) := by
  have htypes : ∀ t ∈ writtenTypes, Tidy t := by
    have hall : ∀ t ∈ writtenTypes, SingleLine t ∧ t.rdropWhile (· ∈ ['\t', ' ']) = t ∧ t ≠ [] := by
      decide +kernel
    exact fun t ht => ⟨(hall t ht).1, (hall t ht).2.1, (hall t ht).2.2⟩
  have hrange : ∀ field ∈ c.rangeFields, Tidy (fieldLine field) := by
    intro field hfield
    unfold Connection.rangeFields at hfield
    split at hfield
    · simp only [List.mem_cons, List.not_mem_nil, or_false] at hfield
      rcases hfield with rfl | rfl
      · exact ⟨by decide, by decide, by decide⟩
      · have hfront : SingleLine (" bytes ".toList ++ longText c.range_min ++ "-".toList ++
            longText c.range_max ++ ['/']) :=
          ((((by decide : SingleLine " bytes ".toList).append (tidy_longText h.min).plain).append
            (by decide)).append (tidy_longText h.max).plain).append (by decide)
        have hvalue := Client.tidy_behind hfront (tidy_longText h.size.1)
        rw [List.append_assoc _ ['/']] at hvalue
        exact tidy_field (by decide) hvalue
    · cases hfield
  have hnames : ∀ field ∈ c.nameFields, Tidy (fieldLine field) := by
    intro field hfield
    simp only [Connection.nameFields, List.mem_append, List.mem_cons, List.not_mem_nil,
      or_false] at hfield
    rcases hfield with ((rfl | rfl) | hfield) | hfield
    · exact ⟨by decide, by decide, by decide⟩
    · exact tidy_field (by decide) (Client.tidy_behind (by decide) h.domain)
    · split at hfield
      · simp only [List.mem_cons, List.not_mem_nil, or_false] at hfield
        rcases hfield with rfl | rfl <;> exact ⟨by decide, by decide, by decide⟩
      · cases hfield
    · split at hfield
      · cases hfield
      · next hsome =>
        have horigin := h.origin.resolve_left hsome
        simp only [List.mem_cons, List.not_mem_nil, or_false] at hfield
        rcases hfield with rfl | rfl | rfl
        · exact ⟨by decide, by decide, by decide⟩
        · exact tidy_field (by decide) horigin
        · exact tidy_field (by decide) horigin
  have hblank : SingleLine [' '] := by decide
  refine List.forall_mem_cons.mpr ⟨?_, List.forall_mem_cons.mpr ⟨?_, fun field hfield => ?_⟩⟩
  · exact tidy_field (by decide) (Client.tidy_behind hblank (htypes _ (contentType_mem _ _)))
  · exact tidy_field (by decide) (Client.tidy_behind hblank (tidy_longText h.length.1))
  · rcases List.mem_append.mp hfield with hfield | hfield
    · exact hrange field hfield
    · exact hnames field hfield

end Lines

/-! ## What is read -/

section Readers

variable {c : Connection} {ProxyConnection ConnectionClose : Bool}

/-- The fields that tell nothing of the length. -/
theorem quiet_spaced {fields : List (Str × Str)} (h : ∀ field ∈ fields, field.1 ∈ hitNames) :
    ∀ line ∈ spacedFields (fields.map fieldLine), Quiet line := by
  intro line hline
  obtain ⟨l, hl, rfl⟩ := List.mem_map.mp hline
  obtain ⟨⟨name, value⟩, hfield, rfl⟩ := List.mem_map.mp (List.mem_of_mem_filter hl)
  exact quiet_field (h _ hfield) value

theorem quiet_browserLine : ∀ line ∈
    spacedFields [ConnectionToHTTP.browserLine ProxyConnection ConnectionClose], Quiet line := by
  intro line hline
  obtain ⟨l, hl, rfl⟩ := List.mem_map.mp hline
  rw [List.mem_singleton.mp (List.mem_of_mem_filter hl),
    (ConnectionToHTTP.spacedField_browserLine ProxyConnection ConnectionClose).2]
  have hmute := ConnectionToHTTP.mute_browserLine ProxyConnection ConnectionClose
  exact ⟨hmute.length, hmute.chunked, hmute.refused⟩

/-- The fields of a hit are those in front of the length, the length, and those behind it. -/
theorem Announced.spaced (h : Announced c) (ProxyConnection ConnectionClose : Bool) :
    ∃ before after, ∃ n : Nat, spacedFields (c.hitFields.map fieldLine ++
        [ConnectionToHTTP.browserLine ProxyConnection ConnectionClose]) =
          before ++ fieldLine ("Content-Length".toList, ' ' :: longText c.filesizeneto) :: after ∧
      (∀ line ∈ before ++ after, Quiet line) ∧ (n : Int) = c.filesizeneto ∧
      fieldKind (fieldLine ("Content-Length".toList, ' ' :: longText c.filesizeneto)) = .length n := by
  obtain ⟨n, hn⟩ := Int.eq_ofNat_of_zero_le h.length.1
  have h18 : n < 10 ^ 18 := by
    have := h.length.2
    omega
  obtain ⟨hlength, hkind⟩ := length_field h18
  rw [← hn] at hlength hkind
  have hlines : c.hitFields.map fieldLine ++
      [ConnectionToHTTP.browserLine ProxyConnection ConnectionClose] =
      [("Content-Type".toList,
        ' ' :: contentType (getFileExtension c.r.file) c.r.domain)].map fieldLine ++
        ([fieldLine ("Content-Length".toList, ' ' :: longText c.filesizeneto)] ++
          ((c.rangeFields ++ c.nameFields).map fieldLine ++
            [ConnectionToHTTP.browserLine ProxyConnection ConnectionClose])) := rfl
  refine ⟨spacedFields (List.map fieldLine
      [("Content-Type".toList, ' ' :: contentType (getFileExtension c.r.file) c.r.domain)]),
    spacedFields ((c.rangeFields ++ c.nameFields).map fieldLine) ++
      spacedFields [ConnectionToHTTP.browserLine ProxyConnection ConnectionClose], n, ?_, ?_,
      hn.symm, hkind⟩
  · rw [hlines, Client.spacedFields_append, Client.spacedFields_append, hlength,
      Client.spacedFields_append]
    rfl
  · intro line hline
    rw [List.mem_append, List.mem_append] at hline
    rcases hline with hline | hline | hline
    · refine quiet_spaced (fun field hfield => ?_) line hline
      rw [List.mem_singleton.mp hfield]
      exact List.mem_cons_self
    · refine quiet_spaced (fun field hfield => ?_) line hline
      exact (List.mem_append.mp hfield).elim (rangeFields_names c field) (nameFields_names c field)
    · exact quiet_browserLine line hline

theorem Announced.hitTidy (h : Announced c) (ProxyConnection ConnectionClose : Bool) :
    ∀ line ∈ c.hitStatus :: c.hitFields.map fieldLine ++
      [ConnectionToHTTP.browserLine ProxyConnection ConnectionClose], Tidy line := by
  intro line hline
  rw [List.cons_append, List.mem_cons, List.mem_append, List.mem_singleton] at hline
  rcases hline with rfl | hline | rfl
  · unfold Connection.hitStatus
    split <;> exact ⟨by decide, by decide, by decide⟩
  · obtain ⟨field, hfield, rfl⟩ := List.mem_map.mp hline
    exact h.tidy field hfield
  · exact ConnectionToHTTP.tidy_browserLine _ _

/-- What `AnalyseHeader` reads of the header that is sent. -/
theorem Announced.reads (h : Announced c) {ProxyConnection ConnectionClose : Bool} {text : Str}
    (htext : c.HitText ProxyConnection ConnectionClose text) :
    ReadsHeader text c.hitStatus
        (c.hitFields.map fieldLine ++ [ConnectionToHTTP.browserLine ProxyConnection ConnectionClose]) ∧
      lastLength (c.hitFields.map fieldLine ++
        [ConnectionToHTTP.browserLine ProxyConnection ConnectionClose]) = c.filesizeneto ∧
      chunkedRead (c.hitFields.map fieldLine ++
        [ConnectionToHTTP.browserLine ProxyConnection ConnectionClose]) = false := by
  obtain ⟨before, after, n, hspaced, hquiet, hn, hkind⟩ := h.spaced ProxyConnection ConnectionClose
  have htidy := h.hitTidy ProxyConnection ConnectionClose
  refine ⟨⟨?_, ?_, ?_, ?_⟩, ?_, ?_⟩
  · rcases htext with rfl | rfl
    · simp [Connection.hitHeader, crlf]
    · rw [Connection.hitHeader, handedOver_written]
      simp [written, crlf]
  · have hplain := fun line hline => (htidy line hline).plain
    rcases htext with rfl | rfl
    · rw [Connection.hitHeader, headerLines_written hplain, Client.lineTokens_tidy htidy]
      rfl
    · rw [Connection.hitHeader, handedOver_written, headerLines_handed hplain,
        Client.lineTokens_tidy htidy]
      rfl
  · unfold Connection.hitStatus
    split <;> exact ⟨by decide, '2', by decide, rfl⟩
  · rw [hspaced]
    intro line hline
    rcases List.mem_append.mp hline with hline | hline
    · exact (hquiet line (List.mem_append_left _ hline)).refused
    · rcases List.mem_cons.mp hline with rfl | hline
      · rw [hkind]
        exact FieldKind.noConfusion
      · exact (hquiet line (List.mem_append_right _ hline)).refused
  · have hnone : ∀ lines : List Str, (∀ line ∈ lines, Quiet line) → lines.filterMap lengthKind = [] :=
      fun lines hlines => List.filterMap_eq_nil_iff.mpr fun line hline => (hlines line hline).length
    have hsome : lengthKind (fieldLine ("Content-Length".toList, ' ' :: longText c.filesizeneto)) =
        some (n : Int) := by rw [lengthKind, hkind]
    rw [lastLength, hspaced, List.filterMap_append, List.filterMap_cons_some hsome,
      hnone before fun line hline => hquiet line (List.mem_append_left _ hline),
      hnone after fun line hline => hquiet line (List.mem_append_right _ hline)]
    exact hn
  · rw [chunkedRead, hspaced, List.any_eq_false]
    intro line hline
    rcases List.mem_append.mp hline with hline | hline
    · simpa using (hquiet line (List.mem_append_left _ hline)).chunked
    · rcases List.mem_cons.mp hline with rfl | hline
      · exact fun hchunked => FieldKind.noConfusion (hkind.symm.trans (of_decide_eq_true hchunked))
      · simpa using (hquiet line (List.mem_append_right _ hline)).chunked

/-- The lines that `stringexplode` finds are those that are written. -/
theorem stringexplode_written {lines : List Str} (h : ∀ line ∈ lines, Tidy line) {str : Str}
    (hstr : str = [] ∨ str = crlf) :
    stringexplode (written lines ++ str) ['\r', '\n'] = lines := by
  induction lines with
  | nil => rcases hstr with rfl | rfl <;> rfl
  | cons line lines ih =>
    have hline := h line List.mem_cons_self
    have hsplit : written (line :: lines) ++ str = line ++ '\r' :: '\n' :: (written lines ++ str) := by
      simp [written, crlf]
    have hno : ∀ d ∈ line, d ∉ ['\r', '\n'] := by
      intro d hd hin
      simp only [List.mem_cons, List.not_mem_nil, or_false] at hin
      rcases hin with rfl | rfl
      · exact hline.plain.2 hd
      · exact hline.plain.1 hd
    rw [hsplit, stringexplode_append hno hline.nonempty (by simp), stringexplode_cons (by simp),
      ih fun l hl => h l (List.mem_cons_of_mem line hl)]

/-- The lines of the header. -/
theorem Announced.explode (h : Announced c) {ProxyConnection ConnectionClose : Bool} {text : Str}
    (htext : c.HitText ProxyConnection ConnectionClose text) :
    stringexplode text ['\r', '\n'] = c.hitStatus :: c.hitFields.map fieldLine ++
      [ConnectionToHTTP.browserLine ProxyConnection ConnectionClose] := by
  have htidy := h.hitTidy ProxyConnection ConnectionClose
  rcases htext with rfl | rfl
  · exact stringexplode_written htidy (.inr rfl)
  · have hwritten := stringexplode_written htidy (.inl rfl)
    rw [List.append_nil] at hwritten
    rw [Connection.hitHeader, handedOver_written]
    exact hwritten

theorem hitFields_names : ∀ field ∈ c.hitFields, field.1 ∈ "Content-Length".toList :: hitNames := by
  refine List.forall_mem_cons.mpr ⟨List.mem_cons_of_mem _ List.mem_cons_self,
    List.forall_mem_cons.mpr ⟨List.mem_cons_self, fun field hfield => List.mem_cons_of_mem _ ?_⟩⟩
  exact (List.mem_append.mp hfield).elim (rangeFields_names c field) (nameFields_names c field)

/-- The header is one of a file that may be stored. -/
theorem Announced.isForCache (h : Announced c) {ProxyConnection ConnectionClose : Bool} {text : Str}
    (htext : c.HitText ProxyConnection ConnectionClose text) : isForCache text = true := by
  have hnames : ∀ name ∈ "Content-Length".toList :: hitNames,
      ¬ name ++ [':'] <+: ['H', 'T', 'T', 'P'] ∧ ¬ ['H', 'T', 'T', 'P'] <+: name ++ [':'] := by
    decide +kernel
  rw [Haarp.isForCache, h.explode htext, List.all_eq_true]
  intro line hline
  rw [List.cons_append, List.mem_cons, List.mem_append, List.mem_singleton] at hline
  rcases hline with rfl | hline | rfl
  · unfold Connection.hitStatus
    split <;> decide
  · obtain ⟨⟨name, value⟩, hfield, rfl⟩ := List.mem_map.mp hline
    obtain ⟨hname, hname'⟩ := hnames name (hitFields_names _ hfield)
    have hfront : name ++ [':'] <+: fieldLine (name, value) := ⟨value, by simp [fieldLine]⟩
    have hno : ¬ ['H', 'T', 'T', 'P'] <+: fieldLine (name, value) := fun hhttp =>
      (List.prefix_or_prefix_of_prefix hfront hhttp).elim hname hname'
    exact decide_eq_true fun h => hno (find_eq_zero.mp h.1)
  · cases ProxyConnection <;> cases ConnectionClose <;> decide

/-- The number behind the label. -/
theorem matchNumber_length {n : Int} (h₀ : 0 ≤ n) :
    matchNumber contentLength (fieldLine ("Content-Length".toList, ' ' :: longText n)) =
      some (longText n) := by
  have hlead : UpperCase contentLength <+:
      UpperCase (fieldLine ("Content-Length".toList, ' ' :: longText n)) :=
    ⟨UpperCase (' ' :: longText n), rfl⟩
  have hdigits := takeWhile_isDigit (longText_isDigit h₀)
  have hrest : (fieldLine ("Content-Length".toList, ' ' :: longText n)).drop contentLength.length =
      ' ' :: longText n := rfl
  obtain ⟨c, line, hline⟩ :
      ∃ c line, fieldLine ("Content-Length".toList, ' ' :: longText n) = c :: line :=
    ⟨'C', _, rfl⟩
  rw [hline] at hlead hrest ⊢
  have hblank : (' ' :: longText n).head? = some ' ' := rfl
  rw [matchNumber, hrest, if_pos hblank, List.tail_cons, hdigits, if_pos ⟨hlead, longText_ne_nil n⟩]

/-- What another cache reads as the length. -/
theorem Announced.contentLength (h : Announced c) {ProxyConnection ConnectionClose : Bool} {text : Str}
    (htext : c.HitText ProxyConnection ConnectionClose text) :
    getOnlyContentLength text = c.filesizeneto := by
  have hstatus : matchNumber Haarp.contentLength (c.hitStatus.takeWhile (· ≠ '\x00')) = none := by
    unfold Connection.hitStatus
    split <;> decide
  have htypes : ∀ t ∈ writtenTypes, matchNumber Haarp.contentLength
      ((fieldLine ("Content-Type".toList, ' ' :: t)).takeWhile (· ≠ '\x00')) = none := by decide +kernel
  have htype := htypes _ (contentType_mem (getFileExtension c.r.file) c.r.domain)
  have hplain :
      (fieldLine ("Content-Length".toList, ' ' :: longText c.filesizeneto)).takeWhile (· ≠ '\x00') =
      fieldLine ("Content-Length".toList, ' ' :: longText c.filesizeneto) := by
    have hname : ∀ d ∈ "Content-Length: ".toList, d ≠ '\x00' := by simp
    refine List.takeWhile_eq_self_iff.mpr fun d hd => decide_eq_true ?_
    rcases List.mem_append.mp
      (show d ∈ "Content-Length: ".toList ++ longText c.filesizeneto from hd) with hd | hd
    · exact hname d hd
    · exact fun hnul => absurd (hnul ▸ longText_isDigit h.length.1 d hd) (by decide)
  have hvalue : getValuesHeader text Haarp.contentLength = some (longText c.filesizeneto) := by
    rw [getValuesHeader, h.explode htext, List.cons_append,
      List.findSome?_cons, hstatus, Connection.hitFields, List.map_cons, List.cons_append,
      List.findSome?_cons, htype, List.map_cons, List.cons_append, List.findSome?_cons, hplain,
      matchNumber_length h.length.1]
  have hmax : c.filesizeneto ≤ llongMax := by
    have := h.length.2
    unfold llongMax
    omega
  rw [getOnlyContentLength, if_neg (not_not.mpr (h.isForCache htext)), hvalue]
  exact atoll_longText h.length.1 hmax

theorem partialSize_skip {line : Str} (h : ¬ contentRange <+: line) (value lines : List Str) :
    partialSize value (line :: lines) = partialSize value lines := by
  rw [partialSize, if_neg fun hfind => h (find_eq_zero.mp hfind)]

/-- What another cache takes for the size of the file. -/
theorem Announced.size_read (h : Announced c) (hpart : c.isPartial = true)
    {ProxyConnection ConnectionClose : Bool} {text : Str}
    (htext : c.HitText ProxyConnection ConnectionClose text) (db : Db) (d : Connection) :
    d.updateFileSizeinPartial db text =
      some ({ d with size_orig_file := c.size_orig_file }.set db
        (.setSize d.r.key c.size_orig_file)).2 := by
  have hskip : ∀ name value : Str, ¬ contentRange <+: name ++ [':'] → ¬ name ++ [':'] <+: contentRange →
      ¬ contentRange <+: fieldLine (name, value) := fun name value hname hname' hrange =>
    (List.prefix_or_prefix_of_prefix hrange ⟨value, by simp [fieldLine]⟩).elim hname hname'
  let front : Str :=
    "Content-Range: bytes ".toList ++ longText c.range_min ++ "-".toList ++ longText c.range_max
  have hline : fieldLine ("Content-Range".toList, " bytes ".toList ++ longText c.range_min ++
      "-".toList ++
      longText c.range_max ++ '/' :: longText c.size_orig_file) =
        front ++ '/' :: longText c.size_orig_file := by
    simp [fieldLine, front]
  have hslash : ∀ d ∈ front, d ∉ ['/'] := by
    intro d hd
    simp only [front, List.mem_append] at hd
    rcases hd with ((hd | hd) | hd) | hd
    · exact (by simp : ∀ d ∈ "Content-Range: bytes ".toList, d ∉ ['/']) d hd
    · exact not_mem_longText h.min (by decide) d hd
    · exact (by simp : ∀ d ∈ "-".toList, d ∉ ['/']) d hd
    · exact not_mem_longText h.max (by decide) d hd
  have hpieces : stringexplode (front ++ '/' :: longText c.size_orig_file) ['/'] =
      [front, longText c.size_orig_file] := by
    have hne : front ≠ [] := by simp [front]
    rw [stringexplode_append hslash hne List.mem_cons_self,
      stringexplode_of_not_mem (not_mem_longText h.size.1 (by decide)) (longText_ne_nil _)]
  have hfound : find contentRange (front ++ '/' :: longText c.size_orig_file) = some 0 :=
    find_eq_zero.mpr ⟨' ' :: (longText c.range_min ++ "-".toList ++ longText c.range_max ++
      '/' :: longText c.size_orig_file), by simp [front, contentRange]⟩
  unfold Connection.updateFileSizeinPartial
  rw [h.explode htext, List.cons_append]
  dsimp only
  rw [Connection.hitFields, Connection.rangeFields, if_pos hpart]
  simp only [List.cons_append, List.nil_append, List.map_cons]
  rw [partialSize_skip (hskip _ _ (by decide) (by decide)),
    partialSize_skip (hskip _ _ (by decide) (by decide)),
    partialSize_skip (hskip _ _ (by decide) (by decide)), hline, partialSize, if_pos hfound, hpieces]
  dsimp only [List.nil_append]
  rw [atoll_longText h.size.1 h.size.2]

/-- **The header of a hit** tells every reader the same: a browser, or a proxy, its length and its status,
and another cache the same length, and the size of the file for a part of it. -/
theorem hit_announces (c : Connection) (h : Announced c) (ProxyConnection ConnectionClose : Bool)
    (text : Str) (htext : c.HitText ProxyConnection ConnectionClose text) :
    (∀ members : ConnectionToHTTP, ∃ c', members.clearVars.analyseHeader text = (0, c') ∧
      c'.HTMLResponse = (if c.isPartial then 206 else 200) ∧ c'.ContentLength = c.filesizeneto ∧
      c'.IsChunked = false) ∧
    getOnlyContentLength text = c.filesizeneto ∧
    (c.isPartial = true → ∀ (db : Db) (d : Connection),
      d.updateFileSizeinPartial db text =
        some ({ d with size_orig_file := c.size_orig_file }.set db
          (.setSize d.r.key c.size_orig_file)).2) := by
  obtain ⟨hreads, hlength, hchunked⟩ := h.reads htext
  refine ⟨fun members => ⟨_, hreads.analyseHeader _, ?_, hlength, (Bool.false_or _).trans hchunked⟩,
    h.contentLength htext, fun hpart => h.size_read hpart htext⟩
  dsimp only [Connection.hitStatus]
  split <;> rfl

/-- A part of a video. -/
def partHit : Connection :=
  { Connection.new with
    r := ⟨true, youtube, "a-1-2.mp4".toList, 0, 0, 0, false⟩, hit := true, isPartial := true
    origin_header := "http://a.b".toList, range_min := 100, range_max := 299, filesizeneto := 200
    size_orig_file := 5000 }

theorem hit_announces_partHit :
    (∃ c', ConnectionToHTTP.analyseHeader (handedOver (partHit.hitHeader false true))
        (ConnectionToHTTP.clearVars ⟨⟨404, 9, true, true⟩, true, []⟩) = (0, c') ∧
      c'.HTMLResponse = 206 ∧ c'.ContentLength = 200 ∧ c'.IsChunked = false) ∧
    getOnlyContentLength (partHit.hitHeader false true) = 200 ∧
    Connection.new.updateFileSizeinPartial (fun _ _ => true)
        (handedOver (partHit.hitHeader false true)) =
      some ({ Connection.new with size_orig_file := 5000 }.set (fun _ _ => true)
        (.setSize Connection.new.r.key 5000)).2 := by
  have hannounced : Announced partHit :=
    ⟨by decide, by decide, by decide, by decide, ⟨by decide, by decide, by decide⟩,
      .inr ⟨by decide, by decide, by decide⟩⟩
  obtain ⟨hanalysed, -, hsize⟩ := hit_announces partHit hannounced false true _ (.inr rfl)
  obtain ⟨-, hlength, -⟩ := hit_announces partHit hannounced false true _ (.inl rfl)
  exact ⟨hanalysed _, hlength, hsize rfl _ _⟩

end Readers

end Haarp
