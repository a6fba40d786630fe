import Haarp.Cache.Lock
import Haarp.Utils.Search

/-!
# What is written into a response

The branches of `ConnectionToHTTP2::ReadBodyPart` for a response that is not cached: the pages of
youtube and netflix are rewritten on their way, piece by piece, so that the requests of the player
name the video. The length of a netflix page is announced with 3000 bytes more (`ReadHeader`), and
spaces fill it up; `string(diffLength, ' ')` throws for a negative length.

`trackVideo_length`: rewriting a piece of youtube makes it longer, unless it leaves it alone.
`Tracking.results_stop`: the spaces come too early when the replacements make up for the last pieces.
-/

namespace Haarp

open Base

def youtubeIDs : Str := "youtube_IDs".toList

def netflixID : Str := "NetflixID".toList

def netflixjsID : Str := "NetflixjsID".toList

/-- The fields of `ConnectionToHTTP2` that the branches use. -/
structure Tracking where
  domain : Str
  file : Str
  contentLengthServer : Int
  acumulateBodyLength : Int
  deriving DecidableEq

/-! ## Youtube -/

def videoplayback : Str := "videoplayback%3F".toList

def temporal : Str := "TEMPORAL_HAARP".toList

/-- `%2Frange%2F[0-9]+-[0-9]+%3F` -/
def rangePath : Regex Char :=
  .seq (.word "%2Frange%2F".toList)
    (.seq (.plus digit) (.seq (.word "-".toList) (.seq (.plus digit) (.word "%3F".toList))))

/-- What stands behind `front` in the new text. -/
def watched (front file : Str) : Str := front ++ "watchid%3D".toList ++ file ++ "%26".toList

/-- The text of a youtube page in which each player request names the `file`. -/
def trackVideo (file bodyT : Str) : Str :=
  let bodyTTemp := (searchReplace bodyT videoplayback temporal).2
  let bodyTTemp := (searchReplace bodyTTemp temporal (watched videoplayback file)).2
  let range_trash := regexMatch rangePath false bodyTTemp
  if range_trash ≠ [] then
    let bodyTTemp := (searchReplace bodyTTemp range_trash temporal).2
    (searchReplace bodyTTemp temporal (watched range_trash file)).2
  else bodyTTemp

/-! ## Netflix -/

/-- The script of the player in a netflix page, and the one that names the `file`. -/
def playerScript : Str := "wwwplayer-2.0000.267.011.js\"".toList

def playerScriptOf (file : Str) : Str :=
  "wwwplayer-2.0000.267.011.js?watchid=".toList ++ file ++ "\"".toList

/-- The function of the player that requests a video, and the one that names what is watched. -/
def requestFunction : Str := "function Oe(a,b,d,f)\x7bvar g=".toList

def requestFunctionTracked : Str :=
  "function Oe(a,b,d,f)\x7bvar urlcache=".toList ++
    ("document.location.href;if(/^http.\x7b3,4\x7dwww.netflix.com\\/watch".toList ++
    "\\/[0-9]+(\\?.*|$)/.test(urlcache) && /\\?o=/.test(b))\x7bvar watchid=".toList ++
    "(urlcache.split('?'))[0].split('watch/')[1];b+='&watchid='+watchid;\x7d ".toList ++
    "if(/^http.\x7b3,4\x7dwww.netflix.com\\/WiPlayer\\?.*movieid=[0-9]+/".toList ++
    ".test(urlcache) && /\\?o=/.test(b) && !/episodeId=/.test(urlcache))".toList ++
    "\x7bvar watchid=urlcache.split('movieid=')[1].split('&')[0];".toList ++
    "b+='&watchid='+watchid;\x7d var g=".toList)

namespace Tracking

/-- The end of a netflix branch: what is missing is filled up when it is not more than 3000 bytes. -/
def fill (BodyLength : Int) (bodyT : Str) (c : Tracking) : Option (Int × Str × Tracking) :=
  let acumulateBodyLength := c.acumulateBodyLength + BodyLength
  let diffLength := c.contentLengthServer - acumulateBodyLength
  if diffLength ≤ 3000 ∧ c.contentLengthServer > 0 then
    if diffLength < 0 then none
    else
      let spaces := List.replicate diffLength.toNat ' '
      some (BodyLength + spaces.length, bodyT ++ spaces,
        { c with acumulateBodyLength := acumulateBodyLength + spaces.length })
  else some (BodyLength, bodyT, { c with acumulateBodyLength })

/-- A netflix branch. -/
def rewrite (strobject strreplace bodyT : Str) (c : Tracking) : Option (Int × Str × Tracking) :=
  let (n, bodyTTemp) := searchReplace bodyT strobject strreplace
  c.fill (bodyT.length + n * (strreplace.length - strobject.length)) bodyTTemp

/-- `ReadBodyPart` for the piece `bodyT` of a response that is not cached; `none` where it throws.
What the branch of the domain netflix asks of the database changes neither the piece nor its
length. -/
def readBodyPart (bodyT : Str) (c : Tracking) : Option (Int × Str × Tracking) :=
  if (find youtubeIDs c.domain).isSome then some (bodyT.length, trackVideo c.file bodyT, c)
  else if (find netflixID c.domain).isSome then
    c.rewrite playerScript (playerScriptOf c.file) bodyT
  else if (find netflixjsID c.domain).isSome then
    c.rewrite requestFunction requestFunctionTracked bodyT
  else if c.domain = netflix then
    some (bodyT.length, bodyT, { c with acumulateBodyLength := c.acumulateBodyLength + bodyT.length })
  else some (bodyT.length, bodyT, c)

/-- What the calls return for the pieces of a response, up to one that throws. -/
def results : Tracking → List Str → List (Int × Str)
  | _, [] => []
  | c, bodyT :: pieces =>
    match c.readBodyPart bodyT with
    | none => []
    | some (BodyLength, bodyT, c) => (BodyLength, bodyT) :: c.results pieces

end Tracking

/-! ## What becomes of a piece of youtube -/

/-- There is nothing in a piece that is replaced. -/
def Untouched (bodyT : Str) : Prop :=
  find videoplayback bodyT = none ∧ find temporal bodyT = none ∧ regexMatch rangePath false bodyT = []

instance (bodyT : Str) : Decidable (Untouched bodyT) :=
  inferInstanceAs (Decidable (_ ∧ _ ∧ _))

theorem watched_length (front file : Str) :
    (watched front file).length = front.length + 13 + file.length := by
  have h₁ : "watchid%3D".toList.length = 10 := rfl
  have h₂ : "%26".toList.length = 3 := rfl
  rw [watched, List.length_append, List.length_append, List.length_append, h₁, h₂]
  omega

theorem watched_ne_nil (front file : Str) : watched front file ≠ [] :=
  List.ne_nil_of_length_pos (by rw [watched_length]; omega)

theorem videoplayback_ne_nil : videoplayback ≠ [] := by decide

theorem temporal_ne_nil : temporal ≠ [] := by decide

/-- A piece of youtube that is rewritten becomes longer. -/
theorem trackVideo_length (file bodyT : Str) :
    (trackVideo file bodyT).length = bodyT.length ↔ Untouched bodyT := by
  obtain ⟨n₁, t₁, heq₁, h₁⟩ := searchReplace_spec videoplayback_ne_nil temporal_ne_nil bodyT
  obtain ⟨n₂, t₂, heq₂, h₂⟩ :=
    searchReplace_spec temporal_ne_nil (watched_ne_nil videoplayback file) t₁
  have hlt : videoplayback.length < (watched videoplayback file).length := by
    rw [watched_length]
    omega
  have hlt' : temporal.length < (watched videoplayback file).length := by
    rw [watched_length]
    have hplayback : videoplayback.length = 16 := rfl
    have htemporal : temporal.length = 14 := rfl
    omega
  unfold trackVideo Untouched
  rw [heq₁, find_eq_none_iff, find_eq_none_iff]
  dsimp only
  rw [heq₂]
  dsimp only
  by_cases hrange : regexMatch rangePath false t₂ = []
  · rw [if_neg (not_not.mpr hrange), h₁.twice_length_eq_iff temporal_ne_nil h₂ hlt hlt']
    constructor
    · rintro ⟨hno, hno'⟩
      rw [h₁.twice_eq h₂ hno hno'] at hrange
      exact ⟨hno, hno', hrange⟩
    · rintro ⟨hno, hno', -⟩
      exact ⟨hno, hno'⟩
  · -- the second replacement makes the text longer again
    rw [if_pos hrange]
    obtain ⟨n₃, t₃, heq₃, h₃⟩ := searchReplace_spec hrange temporal_ne_nil t₂
    obtain ⟨n₄, t₄, heq₄, h₄⟩ :=
      searchReplace_spec temporal_ne_nil (watched_ne_nil (regexMatch rangePath false t₂) file) t₃
    have hlong : bodyT.length ≤ t₂.length := by
      rw [h₁.twice_length temporal_ne_nil h₂ hlt.le hlt'.le]
      omega
    have hle : temporal.length ≤ (watched (regexMatch rangePath false t₂) file).length := by
      have hpos := List.length_pos_iff.mpr hrange
      have htemporal : temporal.length = 14 := rfl
      rw [watched_length]
      omega
    have hlonger := h₃.lt_of_infix temporal_ne_nil h₄ (by rw [watched_length]; omega) hle
      (regexMatch_sound hrange).2
    rw [heq₃]
    dsimp only
    rw [heq₄]
    dsimp only
    constructor
    · intro heq
      omega
    · rintro ⟨hno, hno', hnone⟩
      rw [h₁.twice_eq h₂ hno hno'] at hrange
      exact absurd hnone hrange

/-! ## What becomes of a piece of netflix -/

/-- The text of a piece of a netflix page. -/
def netflixText (domain file bodyT : Str) : Str :=
  if (find netflixID domain).isSome then
    (searchReplace bodyT playerScript (playerScriptOf file)).2
  else (searchReplace bodyT requestFunction requestFunctionTracked).2

theorem length_between {n m : Nat} {front back : Str} (hfront : front.length = n)
    (hback : back.length = m) (file : Str) :
    (front ++ file ++ back).length = n + m + file.length := by
  rw [List.length_append, List.length_append, hfront, hback]
  omega

theorem lt_length_append {n m : Nat} {short front : Str} (hshort : short.length = n)
    (hfront : front.length = m) (hlt : n < m) (back : Str) : short.length < (front ++ back).length := by
  rw [List.length_append, hshort, hfront]
  omega

theorem playerScript_length : playerScript.length = 28 := by decide +kernel

theorem playerScriptOf_length (file : Str) : (playerScriptOf file).length = 37 + file.length := by
  have hfront : "wwwplayer-2.0000.267.011.js?watchid=".toList.length = 36 := by decide +kernel
  exact length_between hfront rfl file

theorem playerScript_ne_nil : playerScript ≠ [] :=
  List.ne_nil_of_length_pos (by rw [playerScript_length]; omega)

theorem playerScriptOf_ne_nil (file : Str) : playerScriptOf file ≠ [] :=
  List.ne_nil_of_length_pos (by rw [playerScriptOf_length]; omega)

theorem requestFunction_length : requestFunction.length = 27 := by decide +kernel

theorem requestFunction_lt : requestFunction.length < requestFunctionTracked.length := by
  have hfront : "function Oe(a,b,d,f)\x7bvar urlcache=".toList.length = 34 := by decide +kernel
  exact lt_length_append requestFunction_length hfront (by decide) _

theorem requestFunction_ne_nil : requestFunction ≠ [] :=
  List.ne_nil_of_length_pos (by rw [requestFunction_length]; omega)

theorem requestFunctionTracked_ne_nil : requestFunctionTracked ≠ [] :=
  List.ne_nil_of_length_pos (Nat.lt_of_le_of_lt (Nat.zero_le _) requestFunction_lt)

namespace Tracking

variable {c : Tracking} {bodyT strobject strreplace : Str}

/-- The value that a netflix branch computes is the length of its text. -/
theorem rewrite_spec (hobject : strobject ≠ []) (hreplace : strreplace ≠ []) (bodyT : Str)
    (c : Tracking) :
    c.rewrite strobject strreplace bodyT =
      c.fill (searchReplace bodyT strobject strreplace).2.length
        (searchReplace bodyT strobject strreplace).2 := by
  obtain ⟨n, out, heq, h⟩ := searchReplace_spec hobject hreplace bodyT
  have hlen : (out.length : Int) + n * strobject.length = bodyT.length + n * strreplace.length := by
    exact_mod_cast h.length
  have hvalue : (bodyT.length : Int) + n * (strreplace.length - strobject.length) = out.length := by
    rw [Int.mul_sub]
    omega
  simp only [rewrite, heq, hvalue]

theorem readBodyPart_netflix (hyoutube : find youtubeIDs c.domain = none)
    (hnetflix : (find netflixID c.domain).isSome ∨ (find netflixjsID c.domain).isSome)
    (bodyT : Str) :
    c.readBodyPart bodyT =
      c.fill (netflixText c.domain c.file bodyT).length (netflixText c.domain c.file bodyT) := by
  unfold readBodyPart netflixText
  rw [hyoutube, if_neg (by simp)]
  split
  · rw [rewrite_spec playerScript_ne_nil (playerScriptOf_ne_nil c.file)]
  · next hnot =>
    rw [if_pos (hnetflix.resolve_left hnot),
      rewrite_spec requestFunction_ne_nil requestFunctionTracked_ne_nil]

/-- What a call with the value `n` and the text `b` can be for a netflix page. -/
theorem fill_cases {n : Int} {b b' : Str} {n' : Int} {c' : Tracking}
    (h : c.fill n b = some (n', b', c')) :
    ∃ k, b' = b ++ List.replicate k ' ' ∧ n' = n + k ∧
      c' = { c with acumulateBodyLength := c.acumulateBodyLength + n + k } := by
  unfold fill at h
  dsimp only at h
  split at h
  · split at h
    · cases h
    · cases h
      exact ⟨_, rfl, by rw [List.length_replicate], by rw [List.length_replicate]⟩
  · cases h
    exact ⟨0, by simp, by simp, by simp⟩

theorem readBodyPart_youtube (hyoutube : (find youtubeIDs c.domain).isSome) (bodyT : Str) :
    c.readBodyPart bodyT = some ((bodyT.length : Int), trackVideo c.file bodyT, c) := by
  rw [readBodyPart, if_pos hyoutube]

theorem results_youtube (hyoutube : (find youtubeIDs c.domain).isSome) (pieces : List Str) :
    c.results pieces = pieces.map fun d => ((d.length : Int), trackVideo c.file d) := by
  induction pieces with
  | nil => rfl
  | cons d pieces ih => rw [results, readBodyPart_youtube hyoutube, List.map_cons, ← ih]

/-- Outside youtube a call returns the length of its text, and leaves the domain. -/
theorem readBodyPart_length (hyoutube : find youtubeIDs c.domain = none) {n : Int} {b : Str}
    {c' : Tracking} (h : c.readBodyPart bodyT = some (n, b, c')) :
    n = b.length ∧ c'.domain = c.domain := by
  by_cases hnetflix : (find netflixID c.domain).isSome ∨ (find netflixjsID c.domain).isSome
  · rw [readBodyPart_netflix hyoutube hnetflix] at h
    obtain ⟨k, rfl, rfl, rfl⟩ := fill_cases h
    exact ⟨by simp, rfl⟩
  · rw [not_or] at hnetflix
    rw [readBodyPart, hyoutube, if_neg (by simp), if_neg hnetflix.1, if_neg hnetflix.2] at h
    split at h
    · cases h
      exact ⟨rfl, rfl⟩
    · cases h
      exact ⟨rfl, rfl⟩

theorem results_length (hyoutube : find youtubeIDs c.domain = none) (pieces : List Str) :
    ∀ r ∈ c.results pieces, r.1 = r.2.length := by
  induction pieces generalizing c with
  | nil =>
    intro r hr
    cases hr
  | cons d pieces ih =>
    intro r hr
    rw [results] at hr
    split at hr
    · cases hr
    · next n b c' hread =>
      obtain ⟨hn, hdomain⟩ := readBodyPart_length hyoutube hread
      rcases List.mem_cons.mp hr with rfl | hr
      · exact hn
      · exact ih (hdomain ▸ hyoutube) r hr

/-- **The calls return the lengths of their texts**, except where a youtube page is rewritten. -/
theorem results_lengths (c : Tracking) (pieces : List Str) :
    (∀ r ∈ c.results pieces, 0 ≤ r.1 → r.1 = r.2.length) ↔
      find youtubeIDs c.domain = none ∨ ∀ d ∈ pieces, Untouched d := by
  by_cases hyoutube : find youtubeIDs c.domain = none
  · refine ⟨fun _ => .inl hyoutube, fun _ r hr _ => ?_⟩
    exact results_length hyoutube pieces r hr
  · rw [results_youtube (Option.isSome_iff_ne_none.mpr hyoutube)]
    constructor
    · intro h
      refine .inr fun d hd => (trackVideo_length c.file d).mp ?_
      have heq := h _ (List.mem_map_of_mem hd) (Int.natCast_nonneg _)
      exact (Int.ofNat.inj heq).symm
    · intro h r hr _
      obtain ⟨d, hd, rfl⟩ := List.mem_map.mp hr
      exact congrArg Int.ofNat ((trackVideo_length c.file d).mpr (h.resolve_left hyoutube d hd)).symm

/-- A player request in a youtube page: 16 bytes are announced, and 30 are sent. -/
theorem results_longer :
    ¬ ∀ r ∈ Tracking.results ⟨youtubeIDs, ['v'], 0, 0⟩ [videoplayback],
      0 ≤ r.1 → r.1 = r.2.length := by
  decide +kernel

/-! ## When a netflix page is filled up -/

section Fill

variable {n : Int} (hserver : c.contentLengthServer = n + 3000) (hpos : 0 < c.contentLengthServer)

include hserver

theorem fill_early {b : Str} (hlt : c.acumulateBodyLength + b.length < n) :
    c.fill b.length b =
      some ((b.length : Int), b, { c with acumulateBodyLength := c.acumulateBodyLength + b.length }) := by
  unfold fill
  dsimp only
  rw [if_neg (by omega)]

include hpos

theorem fill_last {b : Str} (hle : n ≤ c.acumulateBodyLength + b.length)
    (hmax : c.acumulateBodyLength + b.length ≤ n + 3000) :
    ∃ n', c.fill b.length b =
      some (n', b ++ List.replicate (n + 3000 - (c.acumulateBodyLength + b.length)).toNat ' ',
        { c with acumulateBodyLength := n + 3000 }) := by
  have hacc : c.acumulateBodyLength + b.length +
      ((n + 3000 - (c.acumulateBodyLength + b.length)).toNat : Int) = n + 3000 := by omega
  unfold fill
  dsimp only
  rw [if_pos ⟨by omega, hpos⟩, if_neg (by omega), hserver, List.length_replicate, hacc]
  exact ⟨_, rfl⟩

theorem fill_beyond {b : Str} (hgt : n + 3000 < c.acumulateBodyLength + b.length) :
    c.fill b.length b = none := by
  unfold fill
  dsimp only
  rw [if_pos ⟨by omega, hpos⟩, if_pos (by omega)]

end Fill

/-- The text of the pieces of a netflix page. -/
def netflixTexts (c : Tracking) (pieces : List Str) : Str :=
  (pieces.map (netflixText c.domain c.file)).flatten

theorem netflixTexts_cons (c : Tracking) (d : Str) (pieces : List Str) :
    c.netflixTexts (d :: pieces) = netflixText c.domain c.file d ++ c.netflixTexts pieces := rfl

theorem netflixText_le (domain file d : Str) : d.length ≤ (netflixText domain file d).length := by
  unfold netflixText
  split
  · obtain ⟨n, out, heq, h⟩ :=
      searchReplace_spec playerScript_ne_nil (playerScriptOf_ne_nil file) d
    rw [heq]
    exact h.length_le (by rw [playerScript_length, playerScriptOf_length]; omega)
  · obtain ⟨n, out, heq, h⟩ :=
      searchReplace_spec requestFunction_ne_nil requestFunctionTracked_ne_nil d
    rw [heq]
    exact h.length_le requestFunction_lt.le

section Pages

variable (hyoutube : find youtubeIDs c.domain = none)
  (hnetflix : (find netflixID c.domain).isSome ∨ (find netflixjsID c.domain).isSome)
  {n : Int} (hserver : c.contentLengthServer = n + 3000) (hpos : 0 < c.contentLengthServer)

include hyoutube hnetflix hserver hpos

/-- The texts come to the length of the original body only with the last piece: the spaces follow. -/
theorem results_filled {pieces : List Str} (hne : pieces ≠ [])
    (hlate : ∀ pre, pre <+: pieces → pre ≠ pieces →
      c.acumulateBodyLength + (c.netflixTexts pre).length < n)
    (hend : n ≤ c.acumulateBodyLength + (c.netflixTexts pieces).length)
    (hmax : c.acumulateBodyLength + (c.netflixTexts pieces).length ≤ n + 3000) :
    (c.results pieces).length = pieces.length ∧
      ((c.results pieces).map (·.2)).flatten = c.netflixTexts pieces ++
        List.replicate (n + 3000 - (c.acumulateBodyLength + (c.netflixTexts pieces).length)).toNat ' ' := by
  induction pieces generalizing c with
  | nil => exact absurd rfl hne
  | cons d pieces ih =>
    by_cases hlast : pieces = []
    · subst hlast
      simp only [netflixTexts, List.map_cons, List.map_nil, List.flatten_cons, List.flatten_nil,
        List.append_nil] at hend hmax ⊢
      obtain ⟨n', heq⟩ := fill_last hserver hpos hend hmax
      simp only [results, readBodyPart_netflix hyoutube hnetflix, heq, List.length_cons,
        List.length_nil, List.map_cons, List.map_nil, List.flatten_cons, List.flatten_nil,
        List.append_nil, true_and]
    · have hearly : c.acumulateBodyLength + (netflixText c.domain c.file d).length < n := by
        have h := hlate [d] ⟨pieces, rfl⟩ (by simpa using Ne.symm hlast)
        simpa [netflixTexts] using h
      have hadd : ∀ pre, c.acumulateBodyLength + (c.netflixTexts (d :: pre)).length =
          c.acumulateBodyLength + (netflixText c.domain c.file d).length +
            (c.netflixTexts pre).length := by
        intro pre
        rw [netflixTexts_cons, List.length_append]
        omega
      rw [hadd] at hend hmax
      have hlate' : ∀ pre, pre <+: pieces → pre ≠ pieces →
          c.acumulateBodyLength + (netflixText c.domain c.file d).length +
            (c.netflixTexts pre).length < n := by
        intro pre hpre hproper
        rw [← hadd]
        exact hlate (d :: pre) ((List.prefix_cons_inj d).mpr hpre) fun h => hproper (List.cons.inj h).2
      obtain ⟨hlen, htext⟩ := @ih
        { c with acumulateBodyLength := c.acumulateBodyLength + (netflixText c.domain c.file d).length }
        hyoutube hnetflix hserver hpos hlast hlate' hend hmax
      simp only [results, readBodyPart_netflix hyoutube hnetflix, fill_early hserver hearly]
      refine ⟨congrArg (· + 1) hlen, ?_⟩
      rw [List.map_cons, List.flatten_cons, htext, hadd, netflixTexts_cons, List.append_assoc]
      rfl

/-- The texts come to that length before the last piece: the spaces follow at once, and the next
call has none left. -/
theorem results_stop {pieces : List Str} (hne : ∀ d ∈ pieces, d ≠ [])
    (hbefore : c.acumulateBodyLength < n) {pre : List Str} (hpre : pre <+: pieces)
    (hproper : pre ≠ pieces) (hreach : n ≤ c.acumulateBodyLength + (c.netflixTexts pre).length) :
    (c.results pieces).length < pieces.length := by
  induction pieces generalizing c pre with
  | nil => exact absurd (List.prefix_nil.mp hpre) hproper
  | cons d pieces ih =>
    cases pre with
    | nil =>
      simp [netflixTexts] at hreach
      omega
    | cons d' pre =>
      obtain ⟨rfl, hpre'⟩ := List.cons_prefix_cons.mp hpre
      have hproper' : pre ≠ pieces := fun h => hproper (h ▸ rfl)
      rw [netflixTexts_cons, List.length_append] at hreach
      by_cases hearly : c.acumulateBodyLength + (netflixText c.domain c.file d').length < n
      · simp only [results, readBodyPart_netflix hyoutube hnetflix, fill_early hserver hearly]
        refine Nat.succ_lt_succ ?_
        refine @ih { c with
            acumulateBodyLength := c.acumulateBodyLength + (netflixText c.domain c.file d').length }
          hyoutube hnetflix hserver hpos (fun e he => hne e (List.mem_cons_of_mem d' he)) hearly
          pre hpre' hproper' ?_
        show n ≤ c.acumulateBodyLength + (netflixText c.domain c.file d').length +
          (c.netflixTexts pre).length
        omega
      · obtain ⟨e, pieces, rfl⟩ : ∃ e tail, pieces = e :: tail := by
          cases pieces with
          | nil => exact absurd (List.prefix_nil.mp hpre') hproper'
          | cons e tail => exact ⟨e, tail, rfl⟩
        by_cases hmax : c.acumulateBodyLength + (netflixText c.domain c.file d').length ≤ n + 3000
        · obtain ⟨n', heq⟩ := fill_last hserver hpos (Int.not_lt.mp hearly) hmax
          have hpiece : 0 < (netflixText c.domain c.file e).length := by
            have hpos := List.length_pos_iff.mpr (hne e (List.mem_cons_of_mem d' List.mem_cons_self))
            exact Nat.lt_of_lt_of_le hpos (netflixText_le _ _ e)
          have hbeyond : n + 3000 < (n + 3000) + ((netflixText c.domain c.file e).length : Int) := by
            omega
          have hnone := @fill_beyond { c with acumulateBodyLength := n + 3000 } n hserver hpos _ hbeyond
          have hnext := @readBodyPart_netflix { c with acumulateBodyLength := n + 3000 } hyoutube
            hnetflix e
          rw [hnone] at hnext
          simp only [results, readBodyPart_netflix hyoutube hnetflix, heq, hnext, List.length_cons,
            List.length_nil]
          omega
        · simp only [results, readBodyPart_netflix hyoutube hnetflix,
            fill_beyond hserver hpos (Int.not_le.mp hmax), List.length_nil, List.length_cons]
          omega

end Pages

theorem flatten_le (c : Tracking) (pieces : List Str) :
    pieces.flatten.length ≤ (c.netflixTexts pieces).length := by
  induction pieces with
  | nil => exact Nat.zero_le _
  | cons d pieces ih =>
    rw [netflixTexts_cons, List.flatten_cons, List.length_append, List.length_append]
    exact Nat.add_le_add (netflixText_le _ _ d) ih

/-- Every call returns, and the texts are those of the pieces and spaces behind them, of the length
that was announced for a body of `n` bytes. -/
def Filled (c : Tracking) (n : Nat) (pieces : List Str) : Prop :=
  (c.results pieces).length = pieces.length ∧
    (∃ k, ((c.results pieces).map (·.2)).flatten = c.netflixTexts pieces ++ List.replicate k ' ') ∧
    ((c.results pieces).map (·.2)).flatten.length = n + 3000

theorem netflix_domain (hdomain : c.domain = netflixID ∨ c.domain = netflixjsID) :
    find youtubeIDs c.domain = none ∧
      ((find netflixID c.domain).isSome ∨ (find netflixjsID c.domain).isSome) := by
  rcases hdomain with h | h
  · rw [h]
    decide
  · rw [h]
    decide

/-- **A netflix page is filled up to its length**, if and only if its texts come to the length of the
original body with the last piece, and not before. -/
theorem filled_iff (hdomain : c.domain = netflixID ∨ c.domain = netflixjsID) {n : Nat} (hn : 3000 < n)
    (hserver : c.contentLengthServer = n + 3000) (hacc : c.acumulateBodyLength = 0)
    {pieces : List Str} (hne : ∀ d ∈ pieces, d ≠ []) (hbody : pieces.flatten.length = n)
    (hadded : (c.netflixTexts pieces).length ≤ n + 3000) :
    c.Filled n pieces ↔
      ∀ pre, pre <+: pieces → pre ≠ pieces → (c.netflixTexts pre).length < n := by
  obtain ⟨hyoutube, hnetflix⟩ := netflix_domain hdomain
  have hpos : 0 < c.contentLengthServer := by omega
  have hlong := c.flatten_le pieces
  constructor
  · rintro ⟨hlen, -, -⟩ pre hpre hproper
    by_contra hreach
    have hstop := results_stop hyoutube hnetflix hserver hpos hne (by omega) hpre hproper (by omega)
    omega
  · intro hlate
    have hnil : pieces ≠ [] := by
      rintro rfl
      rw [List.flatten_nil, List.length_nil] at hbody
      omega
    obtain ⟨hlen, htext⟩ := results_filled hyoutube hnetflix hserver hpos hnil
      (fun pre hpre hproper => by have := hlate pre hpre hproper; omega) (by omega) (by omega)
    refine ⟨hlen, ⟨_, htext⟩, ?_⟩
    rw [htext, List.length_append, List.length_replicate]
    omega

/-- A netflix page of two pieces, with the script in the first one. -/
theorem filled_two : Filled ⟨netflixID, ['v'], 6528, 0⟩ 3528
    [playerScript ++ List.replicate 3000 'a', List.replicate 500 'b'] := by
  refine (filled_iff (.inl rfl) (by decide) rfl rfl ?_ (by decide +kernel) (by decide +kernel)).mpr ?_
  · intro d hd
    rcases List.mem_cons.mp hd with rfl | hd
    · exact List.append_ne_nil_of_right_ne_nil _ (by decide)
    · rw [List.mem_singleton.mp hd]
      decide
  · intro pre hpre hproper
    rcases List.prefix_cons_iff.mp hpre with rfl | ⟨rest, rfl, hrest⟩
    · decide
    rcases List.prefix_cons_iff.mp hrest with rfl | ⟨last, rfl, hlast⟩
    · decide +kernel
    · obtain rfl := List.prefix_nil.mp hlast
      exact absurd rfl hproper

/-- The replacement in the first piece makes up for the last byte: the spaces come before it, and the
call for it throws. -/
theorem filled_early :
    ([playerScript ++ List.replicate 3000 'a', ['a']].flatten.length = 3029 ∧
      (netflixTexts ⟨netflixID, ['v'], 6029, 0⟩
        [playerScript ++ List.replicate 3000 'a', ['a']]).length ≤ 6029) ∧
    ¬ Filled ⟨netflixID, ['v'], 6029, 0⟩ 3029 [playerScript ++ List.replicate 3000 'a', ['a']] := by
  refine ⟨⟨by decide +kernel, by decide +kernel⟩, fun h => ?_⟩
  have hlen : (Tracking.results ⟨netflixID, ['v'], 6029, 0⟩
      [playerScript ++ List.replicate 3000 'a', ['a']]).length = 1 := by decide +kernel
  exact absurd (hlen.symm.trans h.1) (by decide)

end Tracking

end Haarp
