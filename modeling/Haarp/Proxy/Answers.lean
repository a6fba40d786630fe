import Haarp.Proxy.Hops

/-!
# Answers

`PrepareHeaderForBrowser` writes the header of a server for a browser, and `SendHeader` a line
`Connection` behind it. The browser may be another proxy, which reads that header with `AnalyseHeader`.

`FieldKind` is what a field of a server tells, of which kind it is. `answers_arrive`: an answer without
an error arrives behind any number of proxies with its status, its length and all fields but those for
one connection, and each proxy that stores it has a line `Haarp`. It has a length, or the connection is
closed. The proxies are ones whose `ReadHeader` does not change the header: it adds 3000 to the length
of a file of Netflix, and takes another kind for a video of youtube.
-/

namespace Haarp

open HTTPHandler (spacedField spacedFields fieldValue)

namespace ConnectionToHTTP

/-! ## The source -/

/-- A line that is not for the browser; a length is only left out when it is not valid. -/
def leftOut (ContentLength : Int) (line : Str) : Bool :=
  let it := UpperCase line
  "KEEP-ALIVE".toList.isPrefixOf it || "CONNECTION".toList.isPrefixOf it ||
    "PROXY-CONNECTION".toList.isPrefixOf it ||
    ("CONTENT-LENGTH".toList.isPrefixOf it && decide (ContentLength = -1)) ||
    "TRANSFER-ENCODING".toList.isPrefixOf it

/-- `PrepareHeaderForBrowser` of `ConnectionToHTTP` -/
def prepareHeaderForBrowser (c : ConnectionToHTTP) : Str :=
  ((c.tokens.filter fun line => !leftOut c.ContentLength line).map (· ++ crlf)).flatten

/-- The line of an answer that is stored. -/
def missLine (domain : Str) : Str := "Haarp: MISS from ".toList ++ domain

/-- `PrepareHeaderForBrowser` of `ConnectionToHTTP2`, when the answer is the one of the server; `domain`
is there when `r` matches. -/
def prepareHeaderForBrowser2 (domain : Option Str) (c : ConnectionToHTTP) : Str :=
  match domain with
  | none => c.prepareHeaderForBrowser
  | some domain => c.prepareHeaderForBrowser ++ missLine domain ++ crlf

/-- The line with which `SendHeader` ends a header for a browser. -/
def browserLine (ProxyConnection ConnectionClose : Bool) : Str :=
  (if ProxyConnection then "Proxy-".toList else []) ++ Client.connectionLine ConnectionClose

end ConnectionToHTTP

/-- How a proxy answers: what its connection to the server had read before, the domain under which the
answer is stored, if it is, whether the browser is dropped for any other reason, and which of the two
fields it has sent. -/
structure Answering where
  members : ConnectionToHTTP
  domain : Option Str
  DropBrowser : Bool
  ProxyConnection : Bool
  deriving DecidableEq, Repr

namespace Answering

/-- From `AnalyseHeader` to `SendHeader` in `CommunicationHTTP`, whatever `AnalyseHeader` returns: the
header that is sent, unless the answer is chunked and has a length. `text` is what `ReadHeader` hands
over; what it changes there for some domains of Netflix and youtube is done before. -/
def answer (a : Answering) (text : Str) : Option Str :=
  let c := (a.members.clearVars.analyseHeader text).2
  if c.ContentLength ≠ -1 ∧ c.IsChunked then none
  else
    let DropBrowser := a.DropBrowser || decide (c.ContentLength = -1) || c.IsChunked
    some (c.prepareHeaderForBrowser2 a.domain ++
      ConnectionToHTTP.browserLine a.ProxyConnection DropBrowser ++ crlf ++ crlf)

/-- The text of an answer behind a number of proxies, if each of them passes it on. -/
def travel : List Answering → Str → Option Str
  | [], text => some text
  | a :: answering, text => (a.answer text).bind fun sent => travel answering (handedOver sent)

end Answering

/-! ## What a field tells -/

/-- The kinds of fields. -/
inductive FieldKind
  | length (n : Nat)
  | keepAlive
  | image
  | chunked
  | refused
  | other
  deriving DecidableEq, Repr

namespace ConnectionToHTTP

def fieldKind (token : Str) : FieldKind :=
  if token.length > 16 then
    let RequestU := UpperCase token
    if lengthName ++ [':', ' '] <+: RequestU then
      if (findFirstNotOf ['0', '1', '2', '3', '4', '5', '6', '7', '8', '9'] (RequestU.drop 16)).isSome
      then .other
      else if (token.drop 16).length > 18 then .other
      else .length (Nat.ofDigitChars 10 (token.drop 16) 0)
    else if (find keepAlive (RequestU.takeWhile (· ≠ '\x00'))).isSome then .keepAlive
    else if imageType <+: RequestU then .image
    else if transferEncoding ++ chunked <+: RequestU then .chunked
    else if transferEncoding <+: RequestU then .refused
    else .other
  else .other

/-- What the members are behind a field. -/
def told (kind : FieldKind) (c : ConnectionToHTTP) : ConnectionToHTTP :=
  match kind with
  | .length n => { c with ContentLength := n }
  | .keepAlive => { c with IsKeepAlive := true }
  | .image => { c with IsImage := true }
  | .chunked => { c with IsChunked := true }
  | .refused => c
  | .other => c

/-- A field is of one kind, whatever was read before. -/
theorem analyseHeaderLine_kind (token : Str) (c : ConnectionToHTTP) :
    analyseHeaderLine token c =
      (if fieldKind token = .refused then -232 else 0, told (fieldKind token) c) := by
  unfold analyseHeaderLine fieldKind
  dsimp only
  split_ifs <;> first | rfl | contradiction

/-- The length that a field gives. -/
def lengthKind (token : Str) : Option Int :=
  match fieldKind token with
  | .length n => some n
  | _ => none

/-- The members behind fields of which no one is refused. -/
def toldAll (fields : List Str) (c : ConnectionToHTTP) : ConnectionToHTTP :=
  { c with
    ContentLength := (fields.filterMap lengthKind).getLast?.getD c.ContentLength
    IsKeepAlive := c.IsKeepAlive || fields.any fun f => fieldKind f = .keepAlive
    IsImage := c.IsImage || fields.any fun f => fieldKind f = .image
    IsChunked := c.IsChunked || fields.any fun f => fieldKind f = .chunked }

theorem toldAll_cons (field : Str) (fields : List Str) (c : ConnectionToHTTP) :
    toldAll (field :: fields) c = toldAll fields (told (fieldKind field) c) := by
  unfold toldAll
  have hlength : ((field :: fields).filterMap lengthKind).getLast?.getD c.ContentLength =
      (fields.filterMap lengthKind).getLast?.getD (told (fieldKind field) c).ContentLength := by
    cases hkind : fieldKind field with
    | length n =>
      have htells : lengthKind field = some (n : Int) := by rw [lengthKind, hkind]
      rw [List.filterMap_cons_some htells, List.getLast?_cons]
      rfl
    | keepAlive | image | chunked | refused | other =>
      have htells : lengthKind field = none := by rw [lengthKind, hkind]
      rw [List.filterMap_cons_none htells]
      rfl
  rw [hlength]
  cases hkind : fieldKind field <;> simp [told, hkind]

/-- The fields are accepted exactly when no one is refused. -/
theorem acceptFields_kind {fields : List Str} (h : ∀ field ∈ fields, fieldKind field ≠ .refused)
    (c : ConnectionToHTTP) : handler.acceptFields fields c = some (toldAll fields c) := by
  induction fields generalizing c with
  | nil => simp [HTTPHandler.acceptFields, toldAll]
  | cons field fields ih =>
    have hfield := h field List.mem_cons_self
    have hline : handler.analyseHeaderLine field c = (0, told (fieldKind field) c) := by
      have hkind := analyseHeaderLine_kind field c
      rwa [if_neg hfield] at hkind
    rw [HTTPHandler.acceptFields, hline, if_neg (Int.lt_irrefl 0),
      ih fun f hf => h f (List.mem_cons_of_mem field hf), toldAll_cons]

theorem refused_of_acceptFields {fields : List Str} {c c' : ConnectionToHTTP}
    (h : handler.acceptFields fields c = some c') : ∀ field ∈ fields, fieldKind field ≠ .refused := by
  induction fields generalizing c with
  | nil => simp
  | cons field fields ih =>
    rw [HTTPHandler.acceptFields] at h
    split at h
    · cases h
    · next haccepted =>
      refine List.forall_mem_cons.mpr ⟨fun hrefused => haccepted ?_, ih h⟩
      have hkind := analyseHeaderLine_kind field c
      rw [if_pos hrefused] at hkind
      exact (congrArg Prod.fst hkind).trans_lt (by decide : (-232 : Int) < 0)

/-- The status of a first line. -/
def responseOf (line : Str) : Int :=
  (analyseFirstHeaderLine line ⟨⟨0, 0, false, false⟩, false, []⟩).2.HTMLResponse

theorem analyseFirstHeaderLine_status {line : Str} (h : StatusLine line) (c : ConnectionToHTTP) :
    analyseFirstHeaderLine line c = (0, { c with HTMLResponse := responseOf line }) := by
  have hgood : ∀ c, ¬ (analyseFirstHeaderLine line c).1 < 0 := fun c hneg =>
    (analyseFirstHeaderLine_iff line c).mp hneg h
  have hall := hgood c
  have hblank := hgood ⟨⟨0, 0, false, false⟩, false, []⟩
  unfold responseOf
  unfold analyseFirstHeaderLine at hall hblank ⊢
  dsimp only at hall hblank ⊢
  by_cases hspace : find [' '] line = some 0
  · rw [if_pos hspace] at hall
    exact absurd (by decide : (-230 : Int) < 0) hall
  · rw [if_neg hspace] at hall hblank ⊢
    rw [if_neg hspace]
    split at hall
    · exact absurd (by decide : (-230 : Int) < 0) hall
    · next hdigits => rw [if_neg hdigits, if_neg hdigits]

/-! ## What is read -/

/-- A header without an error, by its lines. -/
structure ReadsHeader (text status : Str) (fields : List Str) : Prop where
  ended : '\n' ∈ text
  lines : headerLines text = status :: fields
  status : StatusLine status
  accepted : ∀ field ∈ spacedFields fields, fieldKind field ≠ .refused

variable {text status : Str} {fields : List Str}

theorem analyseHeader_eq (hends : '\n' ∈ text) (c : ConnectionToHTTP) :
    c.analyseHeader text =
      ((handler.tokenLines true (lfLines [] (text.filter (· ≠ '\r'))) [] c).1,
        { (handler.tokenLines true (lfLines [] (text.filter (· ≠ '\r'))) [] c).2.2 with
          tokens := (handler.tokenLines true (lfLines [] (text.filter (· ≠ '\r'))) [] c).2.1 }) := by
  rw [ConnectionToHTTP.analyseHeader]
  dsimp only
  rw [if_pos (by simpa using hends), analyseLines_eq]

/-- **What is read of a header**, whatever was read before. -/
theorem ReadsHeader.analyseHeader (h : ReadsHeader text status fields) (c : ConnectionToHTTP) :
    c.analyseHeader text = (0, { toldAll (spacedFields fields) c with
      HTMLResponse := responseOf status, tokens := status :: fields.map spacedField }) := by
  have haccepts : handler.Accepts (headerLines text) c
      (toldAll (spacedFields fields) { c with HTMLResponse := responseOf status }) := by
    have hfirst : handler.analyseFirstHeaderLine status c =
        (0, { c with HTMLResponse := responseOf status }) := analyseFirstHeaderLine_status h.status c
    rw [h.lines, HTTPHandler.Accepts, hfirst]
    exact ⟨le_rfl, acceptFields_kind h.accepted _⟩
  rw [analyseHeader_eq h.ended, (handler.tokenLines_true _ c).1 _ haccepts, ← headerLines, h.lines]
  rfl

/-- A header without an error. -/
theorem reads_of_sound (h : SoundHeader text) (hlines : headerLines text = status :: fields) :
    ReadsHeader text status fields := by
  have hstatus : StatusLine status := h.2.1 status (by rw [hlines]; rfl)
  obtain ⟨c', haccepts⟩ :
      ∃ c', handler.Accepts (headerLines text) ⟨⟨0, 0, false, false⟩, false, []⟩ c' := by
    by_contra hnone
    refine (analyseHeader_iff text ⟨⟨0, 0, false, false⟩, false, []⟩).mp ?_ h
    rw [analyseHeader_eq h.1]
    exact (handler.tokenLines_true _ _).2 (not_exists.mp hnone)
  rw [hlines] at haccepts
  exact ⟨h.1, hlines, hstatus, refused_of_acceptFields haccepts.2⟩

/-- The length that the fields of a header give. -/
def lastLength (fields : List Str) : Int :=
  ((spacedFields fields).filterMap lengthKind).getLast?.getD (-1)

/-- Whether the body is chunked. -/
def chunkedRead (fields : List Str) : Bool :=
  (spacedFields fields).any fun f => fieldKind f = .chunked

/-- The fields that are passed on. -/
def kept (ContentLength : Int) (fields : List Str) : List Str :=
  (fields.map spacedField).filter fun line => !leftOut ContentLength line

/-! ## What is left out -/

section LeftOut

variable {line name cand : Str} {len : Int}

/-- Of a line that begins with a name, the shorter names are those of the name. -/
theorem isPrefixOf_front {u : Str} (h : name <+: u) (hcand : ¬ name <+: cand) :
    cand.isPrefixOf u = cand.isPrefixOf name := by
  rw [Bool.eq_iff_iff, List.isPrefixOf_iff_prefix, List.isPrefixOf_iff_prefix]
  exact ⟨fun h' => (List.prefix_or_prefix_of_prefix h' h).resolve_right hcand, fun h' => h'.trans h⟩

theorem leftOut_front (h : name <+: UpperCase line) (hupper : UpperCase name = name)
    (hname : ∀ cand ∈ ["KEEP-ALIVE", "CONNECTION", "PROXY-CONNECTION", "CONTENT-LENGTH",
      "TRANSFER-ENCODING"], ¬ name <+: cand.toList) : leftOut len line = leftOut len name := by
  simp only [List.forall_mem_cons] at hname
  obtain ⟨hkeep, hconnection, hproxy, hlength, htransfer, -⟩ := hname
  rw [leftOut, leftOut, isPrefixOf_front h hkeep, isPrefixOf_front h hconnection,
    isPrefixOf_front h hproxy, isPrefixOf_front h hlength, isPrefixOf_front h htransfer, hupper]

/-- What is left out when there is a length is always left out. -/
theorem leftOut_always (h : leftOut (-1) line = false) : leftOut len line = false := by
  simp only [leftOut, decide_true, Bool.and_true, Bool.or_eq_false_iff] at h ⊢
  obtain ⟨⟨⟨⟨hkeep, hconnection⟩, hproxy⟩, hlength⟩, htransfer⟩ := h
  exact ⟨⟨⟨⟨hkeep, hconnection⟩, hproxy⟩, by rw [hlength, Bool.false_and]⟩, htransfer⟩

/-- How a field of a kind begins. -/
theorem fieldKind_front (token : Str) :
    match fieldKind token with
    | .length _ => lengthName ++ [':', ' '] <+: UpperCase token
    | .image => imageType <+: UpperCase token
    | .chunked => transferEncoding <+: UpperCase token
    | .refused => transferEncoding <+: UpperCase token
    | .keepAlive => True
    | .other => True := by
  unfold fieldKind
  dsimp only
  split_ifs with hlong hlength hdigits hmany hkeep himage hchunked hrefused
  · trivial
  · trivial
  · exact hlength
  · trivial
  · exact himage
  · exact (List.prefix_append _ _).trans hchunked
  · exact hrefused
  · trivial
  · trivial

theorem leftOut_length {n : Nat} (h : fieldKind line = .length n) :
    leftOut len line = decide (len = -1) := by
  have hfront := fieldKind_front line
  rw [h] at hfront
  rw [leftOut_front hfront (by decide) (by decide)]
  exact Bool.or_false _

theorem leftOut_image (h : fieldKind line = .image) : leftOut len line = false := by
  have hfront := fieldKind_front line
  rw [h] at hfront
  rw [leftOut_front hfront (by decide) (by decide)]
  rfl

theorem leftOut_transfer (h : fieldKind line = .chunked ∨ fieldKind line = .refused) :
    leftOut len line = true := by
  have hfront := fieldKind_front line
  have htransfer : transferEncoding <+: UpperCase line := by
    rcases h with h | h
    · rwa [h] at hfront
    · rwa [h] at hfront
  rw [leftOut_front htransfer (by decide) (by decide)]
  rfl

end LeftOut

/-! ## The lines of the proxy -/

theorem missLine_front (domain : Str) : "HAARP: MISS FROM ".toList <+: UpperCase (missLine domain) :=
  ⟨UpperCase domain, rfl⟩

theorem leftOut_missLine (len : Int) (domain : Str) : leftOut len (missLine domain) = false := by
  rw [leftOut_front (missLine_front domain) (by decide) (by decide)]
  rfl

/-- A field that tells nothing of the answer. -/
structure Mute (line : Str) : Prop where
  length : lengthKind line = none
  image : fieldKind line ≠ .image
  chunked : fieldKind line ≠ .chunked
  refused : fieldKind line ≠ .refused

theorem mute_of_kind {line : Str} (h : fieldKind line = .keepAlive ∨ fieldKind line = .other) :
    Mute line := by
  rcases h with h | h
  · exact ⟨by rw [lengthKind, h], by rw [h]; decide, by rw [h]; decide, by rw [h]; decide⟩
  · exact ⟨by rw [lengthKind, h], by rw [h]; decide, by rw [h]; decide, by rw [h]; decide⟩

theorem mute_missLine (domain : Str) : Mute (missLine domain) := by
  have hnot : ∀ name : Str, name.head? ≠ some 'H' → name ≠ [] →
      ¬ name <+: UpperCase (missLine domain) := by
    intro name hhead hne hname
    obtain ⟨c, name, rfl⟩ := List.exists_cons_of_ne_nil hne
    exact hhead (congrArg some (List.cons_prefix_cons.mp hname).1)
  have hfront := fieldKind_front (missLine domain)
  cases hkind : fieldKind (missLine domain) with
  | length n =>
    rw [hkind] at hfront
    exact absurd hfront (hnot _ (by decide) (by decide))
  | image | chunked | refused =>
    rw [hkind] at hfront
    exact absurd hfront (hnot _ (by decide) (by decide))
  | keepAlive => exact mute_of_kind (.inl hkind)
  | other => exact mute_of_kind (.inr hkind)

theorem mute_browserLine (ProxyConnection ConnectionClose : Bool) :
    Mute (browserLine ProxyConnection ConnectionClose) := by
  refine mute_of_kind ?_
  cases ProxyConnection <;> cases ConnectionClose <;> decide +kernel

theorem leftOut_browserLine (len : Int) (ProxyConnection ConnectionClose : Bool) :
    leftOut len (browserLine ProxyConnection ConnectionClose) = true := by
  cases ProxyConnection <;> cases ConnectionClose <;> rfl

theorem tidy_browserLine (ProxyConnection ConnectionClose : Bool) :
    Tidy (browserLine ProxyConnection ConnectionClose) := by
  cases ProxyConnection <;> cases ConnectionClose <;> exact ⟨by decide, by decide, by decide⟩

theorem spacedField_browserLine (ProxyConnection ConnectionClose : Bool) :
    fieldValue (browserLine ProxyConnection ConnectionClose) ≠ [] ∧
      spacedField (browserLine ProxyConnection ConnectionClose) =
        browserLine ProxyConnection ConnectionClose := by
  cases ProxyConnection <;> cases ConnectionClose <;> decide

theorem spacedField_missLine (domain : Str) :
    fieldValue (missLine domain) ≠ [] ∧ spacedField (missLine domain) = missLine domain := by
  have hvalue : fieldValue (missLine domain) = "MISS from ".toList ++ domain := rfl
  refine ⟨by rw [hvalue]; simp, ?_⟩
  rw [spacedField, hvalue, if_neg (by simp)]
  rfl

/-- The lines of the proxy for a browser. -/
def ownLines (domain : Option Str) (ProxyConnection ConnectionClose : Bool) : List Str :=
  domain.toList.map missLine ++ [browserLine ProxyConnection ConnectionClose]

section Own

variable {domain : Option Str} {ProxyConnection ConnectionClose : Bool} {line : Str}

theorem mem_ownLines (h : line ∈ ownLines domain ProxyConnection ConnectionClose) :
    (∃ d ∈ domain, line = missLine d) ∨ line = browserLine ProxyConnection ConnectionClose := by
  rcases List.mem_append.mp h with h | h
  · obtain ⟨d, hd, rfl⟩ := List.mem_map.mp h
    exact .inl ⟨d, Option.mem_toList.mp hd, rfl⟩
  · exact .inr (List.mem_singleton.mp h)

theorem mute_ownLines (h : line ∈ ownLines domain ProxyConnection ConnectionClose) : Mute line := by
  obtain ⟨d, -, rfl⟩ | rfl := mem_ownLines h
  · exact mute_missLine d
  · exact mute_browserLine _ _

theorem spaced_ownLines (h : line ∈ ownLines domain ProxyConnection ConnectionClose) :
    fieldValue line ≠ [] ∧ spacedField line = line := by
  obtain ⟨d, -, rfl⟩ | rfl := mem_ownLines h
  · exact spacedField_missLine d
  · exact spacedField_browserLine _ _

theorem tidy_ownLines (hdomain : ∀ d ∈ domain, Tidy d)
    (h : line ∈ ownLines domain ProxyConnection ConnectionClose) : Tidy line := by
  obtain ⟨d, hd, rfl⟩ | rfl := mem_ownLines h
  · exact Client.tidy_behind (by decide) (hdomain d hd)
  · exact tidy_browserLine _ _

end Own

/-! ## One proxy -/

section Fields

variable {fields own : List Str} {len : Int}

theorem fieldValue_spacedField (line : Str) : fieldValue (spacedField line) = fieldValue line := by
  by_cases hvalue : fieldValue line = []
  · rw [spacedField, if_pos hvalue]
  · have hname : ':' ∉ line.takeWhile (· ≠ ':') := fun h => by
      simpa using List.mem_takeWhile_imp h
    rw [spacedField, if_neg hvalue, (HTTPHandler.fieldValue_field hname (' ' :: fieldValue line)).1,
      List.dropWhile_cons_of_pos (by simp)]
    exact List.dropWhile_idempotent _ _

/-- What is passed on is as `AnalyseHeader` makes it. -/
theorem spacedFields_kept (len : Int) (fields : List Str) :
    spacedFields (kept len fields) = (spacedFields fields).filter fun line => !leftOut len line := by
  have hvalues : spacedFields fields =
      (fields.map spacedField).filter fun line => fieldValue line ≠ [] := by
    rw [spacedFields, List.filter_map]
    refine congrArg (List.map spacedField) (List.filter_congr fun line _ => ?_)
    rw [Function.comp_apply, fieldValue_spacedField]
  have hfixed : ((kept len fields).filter fun line => fieldValue line ≠ []).map spacedField =
      (kept len fields).filter fun line => fieldValue line ≠ [] := by
    refine (List.map_congr_left fun line hline => ?_).trans (List.map_id _)
    obtain ⟨l, -, rfl⟩ := List.mem_map.mp (List.mem_of_mem_filter (List.mem_of_mem_filter hline))
    exact spacedField_spacedField l
  rw [hvalues, spacedFields, hfixed, kept, List.filter_filter, List.filter_filter]
  exact List.filter_congr fun line _ => Bool.and_comm _ _

theorem kept_kept (len : Int) (fields : List Str) (domain : Option Str)
    (ProxyConnection ConnectionClose : Bool) :
    kept len (kept len fields ++ ownLines domain ProxyConnection ConnectionClose) =
      kept len fields ++ domain.toList.map missLine := by
  have hkept : (kept len fields).map spacedField = kept len fields := by
    refine (List.map_congr_left fun line hline => ?_).trans (List.map_id _)
    obtain ⟨l, -, rfl⟩ := List.mem_map.mp (List.mem_of_mem_filter hline)
    exact spacedField_spacedField l
  have hown : (ownLines domain ProxyConnection ConnectionClose).map spacedField =
      ownLines domain ProxyConnection ConnectionClose :=
    (List.map_congr_left fun line hline => (spaced_ownLines hline).2).trans (List.map_id _)
  have hmiss : (domain.toList.map missLine).filter (fun line => !leftOut len line) =
      domain.toList.map missLine := by
    refine List.filter_eq_self.mpr fun line hline => ?_
    obtain ⟨d, -, rfl⟩ := List.mem_map.mp hline
    rw [leftOut_missLine]
    rfl
  rw [kept, List.map_append, hkept, hown, List.filter_append, ownLines, List.filter_append, hmiss,
    List.filter_singleton, leftOut_browserLine, kept, List.filter_filter]
  simp

/-- What is left out gives no length. -/
theorem lengths_kept (fields : List Str) :
    (spacedFields (kept (lastLength fields) fields)).filterMap lengthKind =
      (spacedFields fields).filterMap lengthKind := by
  rw [spacedFields_kept, List.filterMap_filter]
  refine List.filterMap_congr fun line hline => ?_
  cases hleft : leftOut (lastLength fields) line with
  | false => rfl
  | true =>
    cases hkind : fieldKind line with
    | length n =>
      -- there is a length then, so that it is not left out
      exfalso
      rw [leftOut_length hkind, decide_eq_true_eq] at hleft
      have hmem : (n : Int) ∈ (spacedFields fields).filterMap lengthKind :=
        List.mem_filterMap.mpr ⟨line, hline, by rw [lengthKind, hkind]⟩
      obtain ⟨m, hm⟩ := Option.isSome_iff_exists.mp
        (List.getLast?_isSome.mpr (List.ne_nil_of_mem hmem))
      obtain ⟨last, -, hlast⟩ := List.mem_filterMap.mp (List.mem_of_getLast? hm)
      rw [lastLength, hm, Option.getD_some] at hleft
      subst hleft
      unfold lengthKind at hlast
      split at hlast
      · exact absurd (Option.some.inj hlast) (by omega)
      · cases hlast
    | keepAlive | image | chunked | refused | other => rw [lengthKind, hkind]; rfl

/-- The fields of the header that is sent. -/
def sentFields (fields : List Str) (domain : Option Str) (ProxyConnection ConnectionClose : Bool) :
    List Str :=
  kept (lastLength fields) fields ++ ownLines domain ProxyConnection ConnectionClose

variable {domain : Option Str} {ProxyConnection ConnectionClose : Bool}

theorem spacedFields_sent :
    spacedFields (sentFields fields domain ProxyConnection ConnectionClose) =
      spacedFields (kept (lastLength fields) fields) ++
        ownLines domain ProxyConnection ConnectionClose := by
  have hown : spacedFields (ownLines domain ProxyConnection ConnectionClose) =
      ownLines domain ProxyConnection ConnectionClose := by
    rw [spacedFields, List.filter_eq_self.mpr fun line hline => by
      simpa using (spaced_ownLines hline).1]
    exact (List.map_congr_left fun line hline => (spaced_ownLines hline).2).trans (List.map_id _)
  rw [sentFields, Client.spacedFields_append, hown]

/-- A field of the header that is sent is one of those that are read, or tells nothing. -/
theorem mem_sent {line : Str}
    (h : line ∈ spacedFields (sentFields fields domain ProxyConnection ConnectionClose)) :
    (line ∈ spacedFields fields ∧ leftOut (lastLength fields) line = false) ∨ Mute line := by
  rw [spacedFields_sent, List.mem_append, spacedFields_kept, List.mem_filter] at h
  rcases h with ⟨hin, hkept⟩ | h
  · exact .inl ⟨hin, by simpa using hkept⟩
  · exact .inr (mute_ownLines h)

/-- The length is the one that was read. -/
theorem lastLength_sent :
    lastLength (sentFields fields domain ProxyConnection ConnectionClose) = lastLength fields := by
  have hnone : (ownLines domain ProxyConnection ConnectionClose).filterMap lengthKind = [] :=
    List.filterMap_eq_nil_iff.mpr fun line hline => (mute_ownLines hline).length
  rw [lastLength, spacedFields_sent, List.filterMap_append, hnone, List.append_nil, lengths_kept]
  rfl

/-- The answer is not chunked any more. -/
theorem chunkedRead_sent :
    chunkedRead (sentFields fields domain ProxyConnection ConnectionClose) = false := by
  refine List.any_eq_false.mpr fun line hline => ?_
  obtain ⟨-, hkept⟩ | hmute := mem_sent hline
  · intro hchunked
    rw [leftOut_transfer (.inl (of_decide_eq_true hchunked))] at hkept
    exact absurd hkept (by decide)
  · simpa using hmute.chunked

theorem any_image_sent :
    ((spacedFields (sentFields fields domain ProxyConnection ConnectionClose)).any
      fun f => fieldKind f = .image) = (spacedFields fields).any fun f => fieldKind f = .image := by
  rw [Bool.eq_iff_iff, List.any_eq_true, List.any_eq_true]
  constructor
  · rintro ⟨line, hline, himage⟩
    obtain ⟨hin, -⟩ | hmute := mem_sent hline
    · exact ⟨line, hin, himage⟩
    · exact absurd (of_decide_eq_true himage) hmute.image
  · rintro ⟨line, hline, himage⟩
    refine ⟨line, ?_, himage⟩
    rw [spacedFields_sent, List.mem_append, spacedFields_kept, List.mem_filter]
    exact .inl ⟨hline, by rw [leftOut_image (of_decide_eq_true himage)]; rfl⟩

end Fields

end ConnectionToHTTP

namespace Answering

open ConnectionToHTTP

variable {a : Answering} {text status sent : Str} {fields : List Str}

/-- Whether the browser is dropped. -/
def drops (a : Answering) (ContentLength : Int) : Bool := a.DropBrowser || decide (ContentLength = -1)

/-- What the header is that a proxy sends, behind the status. -/
def sentBehind (a : Answering) (fields : List Str) : List Str :=
  sentFields fields a.domain a.ProxyConnection (a.drops (lastLength fields))

theorem answer_eq (h : ReadsHeader text status fields) (hstatus : leftOut (-1) status = false) :
    a.answer text =
      if lastLength fields ≠ -1 ∧ chunkedRead fields = true then none
      else some (written (status :: a.sentBehind fields) ++ crlf) := by
  have hlength : (toldAll (spacedFields fields) a.members.clearVars).ContentLength =
      lastLength fields := rfl
  have hchunked : (toldAll (spacedFields fields) a.members.clearVars).IsChunked = chunkedRead fields :=
    Bool.false_or _
  rw [answer, h.analyseHeader]
  dsimp only
  rw [hlength, hchunked]
  by_cases hrefused : lastLength fields ≠ -1 ∧ chunkedRead fields = true
  · rw [if_pos hrefused, if_pos hrefused]
  · rw [if_neg hrefused, if_neg hrefused]
    have hdrops : (a.DropBrowser || decide (lastLength fields = -1) || chunkedRead fields) =
        a.drops (lastLength fields) := by
      by_cases hnone : lastLength fields = -1
      · simp [drops, hnone]
      · have hplain : chunkedRead fields = false := by
          simpa using fun hchunked => hrefused ⟨hnone, hchunked⟩
        rw [hplain, Bool.or_false, drops]
    have htokens : (status :: fields.map spacedField).filter
        (fun line => !leftOut (lastLength fields) line) =
        status :: kept (lastLength fields) fields := by
      rw [List.filter_cons_of_pos (by rw [leftOut_always hstatus]; rfl), kept]
    rw [hdrops]
    refine congrArg some ?_
    unfold prepareHeaderForBrowser2 prepareHeaderForBrowser sentBehind sentFields ownLines written
    dsimp only
    rw [htokens]
    cases a.domain <;> simp

/-- **What the next one reads** of an answer that is passed on. -/
theorem answer_reads (h : ReadsHeader text status fields) (hstatus : leftOut (-1) status = false)
    (hdomain : ∀ d ∈ a.domain, Tidy d) (hsent : a.answer text = some sent) :
    ReadsHeader (handedOver sent) status (a.sentBehind fields) := by
  rw [answer_eq h hstatus] at hsent
  split at hsent
  · cases hsent
  cases hsent
  have htidy : ∀ line ∈ status :: a.sentBehind fields, Tidy line := by
    have hlines : ∀ line ∈ status :: fields, Tidy line := fun line hline =>
      tidy_of_headerLines (h.lines ▸ hline)
    refine List.forall_mem_cons.mpr ⟨hlines status List.mem_cons_self, fun line hline => ?_⟩
    rcases List.mem_append.mp hline with hline | hline
    · obtain ⟨l, hl, rfl⟩ := List.mem_map.mp (List.mem_of_mem_filter hline)
      exact (hlines l (List.mem_cons_of_mem status hl)).spaced
    · exact tidy_ownLines hdomain hline
  rw [handedOver_written]
  refine ⟨by simp [written, crlf], ?_, h.status, fun field hfield => ?_⟩
  · rw [headerLines_handed fun line hline => (htidy line hline).plain, Client.lineTokens_tidy htidy]
  · obtain ⟨hin, -⟩ | hmute := mem_sent hfield
    · exact h.accepted field hin
    · exact hmute.refused

/-- Behind a number of proxies. -/
theorem travel_reads (answering : List Answering) (hne : answering ≠ [])
    (h : ReadsHeader text status fields)
    (hstatus : leftOut (-1) status = false) (hdomain : ∀ a ∈ answering, ∀ d ∈ a.domain, Tidy d) :
    (travel answering text = none ↔ lastLength fields ≠ -1 ∧ chunkedRead fields = true) ∧
    ∀ sent, travel answering text = some sent → ∃ fields',
      ReadsHeader sent status fields' ∧
      fields' = kept (lastLength fields) fields ++ (answering.filterMap Answering.domain).map missLine ++
        [browserLine (answering.getLast hne).ProxyConnection
          ((answering.getLast hne).drops (lastLength fields))] ∧
      lastLength fields' = lastLength fields ∧ chunkedRead fields' = false ∧
      ((spacedFields fields').any fun f => fieldKind f = .image) =
        (spacedFields fields).any fun f => fieldKind f = .image := by
  induction answering generalizing text fields with
  | nil => exact absurd rfl hne
  | cons a answering ih =>
    obtain ⟨hfirst, hrest⟩ := List.forall_mem_cons.mp hdomain
    rw [travel]
    cases hsent : a.answer text with
    | none =>
      refine ⟨⟨fun _ => ?_, fun _ => rfl⟩, fun sent h => by cases h⟩
      rw [answer_eq h hstatus] at hsent
      by_contra hpassed
      rw [if_neg hpassed] at hsent
      cases hsent
    | some sent =>
      have hread := answer_reads h hstatus hfirst hsent
      have hpassed : ¬ (lastLength fields ≠ -1 ∧ chunkedRead fields = true) := by
        intro hrefused
        rw [answer_eq h hstatus, if_pos hrefused] at hsent
        cases hsent
      rw [Option.bind_some]
      cases answering with
      | nil =>
        refine ⟨⟨fun h => (by cases h), fun h => absurd h hpassed⟩, fun sent' h => ?_⟩
        cases h
        refine ⟨_, hread, ?_, lastLength_sent, chunkedRead_sent, any_image_sent⟩
        rw [sentBehind, sentFields, ownLines]
        cases hdomain : a.domain <;> simp [hdomain]
      | cons next answering =>
        obtain ⟨hnone, hsome⟩ := ih (List.cons_ne_nil _ _) hread hrest
        refine ⟨⟨fun h => absurd (hnone.mp h).2 ?_, fun h => absurd h hpassed⟩, fun sent' h => ?_⟩
        · rw [sentBehind, chunkedRead_sent]
          exact Bool.false_ne_true
        · obtain ⟨fields', hread', hfields', hlength, hchunked, himage⟩ := hsome sent' h
          refine ⟨fields', hread', ?_, hlength.trans lastLength_sent, hchunked,
            himage.trans any_image_sent⟩
          rw [hfields', sentBehind, lastLength_sent, sentFields, kept_kept, List.getLast_cons_cons]
          cases hdomain : a.domain <;> simp [hdomain]

/-- **An answer behind any number of proxies**, in which `AnalyseHeader` finds no error: none of them
passes it if it is chunked and has a length. Any other one arrives with its status, its length, its kind
and its fields, without those that are left out; it is not chunked, each proxy that stores it is named,
and the connection is kept only if there is a length. -/
theorem answers_arrive (first : Answering) (rest : List Answering) (text status : Str)
    (fields : List Str) (c : ConnectionToHTTP)
    (hread : first.members.clearVars.analyseHeader text = (0, c))
    (hlines : headerLines text = status :: fields) (hstatus : leftOut (-1) status = false)
    (hdomain : ∀ a ∈ first :: rest, ∀ d ∈ a.domain, Tidy d) :
    (travel (first :: rest) text = none ↔ c.ContentLength ≠ -1 ∧ c.IsChunked = true) ∧
    ∀ sent, travel (first :: rest) text = some sent →
      headerLines sent = status :: (kept c.ContentLength fields ++
        ((first :: rest).filterMap Answering.domain).map missLine ++
        [browserLine ((first :: rest).getLast (List.cons_ne_nil _ _)).ProxyConnection
          (((first :: rest).getLast (List.cons_ne_nil _ _)).DropBrowser ||
            decide (c.ContentLength = -1))]) ∧
      ∀ members : ConnectionToHTTP, ∃ c', members.clearVars.analyseHeader sent = (0, c') ∧
        c'.HTMLResponse = c.HTMLResponse ∧ c'.ContentLength = c.ContentLength ∧
        c'.IsImage = c.IsImage ∧ c'.IsChunked = false := by
  have hsound : SoundHeader text := by
    have hiff := analyseHeader_iff text first.members.clearVars
    rw [hread] at hiff
    exact not_not.mp fun h => absurd (hiff.mpr h) (Int.lt_irrefl 0)
  have h := reads_of_sound hsound hlines
  have hmembers := congrArg Prod.snd (hread.symm.trans (h.analyseHeader first.members.clearVars))
  dsimp only at hmembers
  have hlength : c.ContentLength = lastLength fields := by
    rw [hmembers]
    rfl
  have hchunked : c.IsChunked = chunkedRead fields := by
    rw [hmembers]
    exact Bool.false_or _
  have himage : c.IsImage = (spacedFields fields).any fun f => fieldKind f = .image := by
    rw [hmembers]
    exact Bool.false_or _
  obtain ⟨hnone, hsome⟩ := travel_reads (first :: rest) (List.cons_ne_nil _ _) h hstatus hdomain
  rw [hlength, hchunked, himage]
  refine ⟨hnone, fun sent hsent => ?_⟩
  obtain ⟨fields', hread', hfields', hlength', hchunked', himage'⟩ := hsome sent hsent
  refine ⟨by rw [hread'.lines, hfields']; rfl,
    fun members => ⟨_, hread'.analyseHeader _, ?_, hlength', ?_, ?_⟩⟩
  · rw [hmembers]
  · exact (Bool.false_or _).trans himage'
  · exact (Bool.false_or _).trans hchunked'

/-- A picture from a store of one proxy, behind another one. -/
def picture : Str :=
  ("HTTP/1.1 200 OK\r\nContent-Type:image/png \r\nKeep-Alive: 3\r\nConnection: Keep-Alive\r\n" ++
    "content-length:  5\r\nContent-Length: x\r\nETag: a\r\n").toList

def storing : Answering := ⟨⟨⟨0, 0, false, false⟩, false, []⟩, some "flickr".toList, true, false⟩

def passing : Answering := ⟨⟨⟨404, 9, true, true⟩, true, []⟩, none, false, true⟩

theorem answers_arrive_picture :
    ∃ sent, travel [storing, passing] picture = some sent ∧
      headerLines sent = ["HTTP/1.1 200 OK".toList, "Content-Type: image/png".toList,
        "content-length: 5".toList, "Content-Length: x".toList, "ETag: a".toList,
        "Haarp: MISS from flickr".toList, "Proxy-Connection: keep-alive".toList] ∧
      ∃ c', passing.members.clearVars.analyseHeader sent = (0, c') ∧ c'.HTMLResponse = 200 ∧
        c'.ContentLength = 5 ∧ c'.IsImage = true ∧ c'.IsChunked = false := by
  have hread : storing.members.clearVars.analyseHeader picture =
      (0, ⟨⟨200, 5, true, false⟩, true, ["HTTP/1.1 200 OK".toList, "Content-Type: image/png".toList,
        "Keep-Alive: 3".toList, "Connection: Keep-Alive".toList, "content-length: 5".toList,
        "Content-Length: x".toList, "ETag: a".toList]⟩) := by decide +kernel
  have hlines : headerLines picture = "HTTP/1.1 200 OK".toList :: ["Content-Type:image/png".toList,
      "Keep-Alive: 3".toList, "Connection: Keep-Alive".toList, "content-length:  5".toList,
      "Content-Length: x".toList, "ETag: a".toList] := by decide +kernel
  have hdomain : ∀ a ∈ [storing, passing], ∀ d ∈ a.domain, Tidy d := by
    intro a ha d hd
    simp only [List.mem_cons, List.not_mem_nil, or_false] at ha
    rcases ha with rfl | rfl
    · cases hd
      exact ⟨by decide, by decide, by decide⟩
    · cases hd
  obtain ⟨hnone, hsome⟩ := answers_arrive storing [passing] picture _ _ _ hread hlines (by decide) hdomain
  cases hsent : travel [storing, passing] picture with
  | none => exact absurd (hnone.mp hsent).2 Bool.false_ne_true
  | some sent =>
    obtain ⟨hsentLines, hmembers⟩ := hsome sent hsent
    obtain ⟨c', hread', hresponse, hlength, himage, hchunked⟩ := hmembers passing.members
    exact ⟨sent, rfl, hsentLines.trans (by decide +kernel), c', hread', hresponse, hlength, himage,
      hchunked⟩

end Answering

end Haarp
