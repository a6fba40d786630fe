import Haarp.Base.Lexical
import Haarp.Cache.Place
import Haarp.Cache.Track

/-!
# The plugin of youtube

`hgetmatch2` of `youtube.com.cpp`: which requests it serves, and under which name. The name of a video
is put together from parameters of the request, and nothing is asked of these but a length.

`confined_iff`: the path of a video lies below the directory of youtube when these parameters do not
climb out of it, from two levels below (`Within`).
-/

namespace Haarp

open Base

/-! ## Which requests are served -/

/-- `[0-9]*[1-9]+[0-9]*` -/
def positive : Regex Char :=
  .seq (.star digit) (.seq (.plus (.char fun c => '1' ≤ c ∧ c ≤ '9')) (.star digit))

/-- `(&.*)?`; with `REG_NEWLINE` the point is no newline. -/
def furtherParams : Regex Char := .opt (.seq (.word ['&']) (.star (.char (· ≠ '\n'))))

/-- `[\\?&]`, where the backslash is one of the characters. -/
def queryStart : Regex Char := oneOf ['\\', '?', '&']

/-- The tests of `hgetmatch2` for a request with parameters behind a question mark. -/
def servesQuery (url : Str) : Bool :=
  regexMatch (.seq queryStart (.seq (.word "begin=".toList) positive)) false url = [] ∧
  regexMatch (.seq queryStart (.seq (.word "cms_redirect=yes".toList) furtherParams)) true url = [] ∧
  regexMatch (.seq queryStart (.seq (.word "redirect_counter=1".toList) furtherParams)) true url = [] ∧
  find "&ir=1".toList url = none ∧ find "&rr=12".toList url = none ∧
  find "source=yt_live".toList url = none ∧ find "&otf=1".toList url = none

/-- A name and its value, with a slash or an equals sign between. -/
def assigned (name : Str) (value : Regex Char) : Regex Char :=
  .seq (.word name) (.seq (oneOf ['=', '/']) value)

/-- `[\\?&/]` -/
def pathStart : Regex Char := oneOf ['\\', '?', '&', '/']

/-- The tests for a request with parameters in the path. -/
def servesPath (url : Str) : Bool :=
  regexMatch (assigned "begin".toList positive) false url = [] ∧
  regexMatch (assigned "cms_redirect".toList (.word "yes".toList)) false url = [] ∧
  regexMatch (assigned "redirect_counter".toList (.word ['1'])) false url = [] ∧
  regexMatch (.seq pathStart (assigned "ir".toList (.word ['1']))) false url = [] ∧
  regexMatch (.seq pathStart (assigned "rr".toList (.word ['1', '2']))) false url = [] ∧
  regexMatch (assigned "source".toList (.word "yt_live".toList)) false url = [] ∧
  regexMatch (.seq pathStart (assigned "otf".toList (.word ['1']))) false url = [] ∧
  regexMatch (assigned "cmd2".toList (.word ['0'])) false url = []

/-! ## The name of a video -/

/-- `getRanges`; `none` when there are no two numbers. -/
def getRanges (range : Str) : Option (Int × Int) :=
  match stringexplode range ['-'] with
  | a :: b :: _ => some (atoll a, atoll b)
  | _ => none

/-- `getiValue`, for an expression that ends with `$` or does not. -/
def getiValue (er : Regex Char) (atLineEnd : Bool) (url : Str) (index : Nat) : Str :=
  ((stringexplode (regexMatch er atLineEnd url) ['/'])[index]?).getD []

/-- The variables of `get_videoid`; `sclen` is never read. -/
structure Video where
  file : Str
  exist_range : Bool
  a : Int
  b : Int
  clen : Int
  itag : Str
  mime : Str
  exist_cm2 : Bool
  range : Bool
  watchID : Bool
  deriving DecidableEq

def Video.new : Video :=
  { file := [], exist_range := false, a := 0, b := 0, clen := 0, itag := [], mime := []
    exist_cm2 := false, range := false, watchID := false }

/-- The kinds of a video in its name. -/
def vid : Str := ['-', 'v', 'i', 'd']

def aud : Str := ['-', 'a', 'u', 'd']

def watchid : Str := ['w', 'a', 't', 'c', 'h', 'i', 'd']

def itagName : Str := ['i', 't', 'a', 'g']

def rangeName : Str := ['r', 'a', 'n', 'g', 'e']

def clenName : Str := ['c', 'l', 'e', 'n']

/-- The parameters that have the identifier of a video. -/
def idNames : List Str := [['i', 'd'], ['v', 'i', 'd', 'e', 'o', '_', 'i', 'd']]

/-- One parameter in the loop of `get_videoid`; an error is a `return`. -/
def videoParam (v : Video) (param : Str) : Except Video Video :=
  match stringexplode param ['='] with
  | name :: value :: _ =>
    if value.isEmpty then .error { v with file := [] }
    else if name ∈ idNames ∧ ¬ v.watchID then
      .ok { v with file := if value.length > 40 then [] else value }
    else if name = itagName ∧ value ≠ ['3', '4'] then .ok { v with itag := '-' :: value }
    else if name = rangeName then
      match getRanges value with
      | none => .error { v with range := true, file := [] }
      | some (a, b) => .ok { v with range := true, a, b, exist_range := true }
    else if name = ['c', 'm', '2'] ∧ value = ['0'] then .ok { v with exist_cm2 := true }
    else if name = clenName then .ok { v with clen := atoll value }
    else if name = watchid then .ok { v with file := value, watchID := true }
    else if name = ['m', 'i', 'm', 'e'] then
      if (find ['v', 'i', 'd', 'e', 'o'] value).isSome then .ok { v with mime := vid }
      else if (find ['a', 'u', 'd', 'i', 'o'] value).isSome then .ok { v with mime := aud }
      else .ok v
    else .ok v
  | _ => .ok v

/-- A request whose range goes to the end of the video is not served. -/
def Video.unlessWhole (v : Video) : Video :=
  if v.clen ≠ 0 ∧ v.clen ≥ v.a ∧ v.clen ≤ v.b then { v with file := [] } else v

/-- The end of `get_videoid`. -/
def Video.finish (v : Video) : Video :=
  if v.exist_cm2 ∧ ¬ v.range then { v with file := [] }
  else
    let v := if v.file ≠ [] then { v with file := v.file ++ v.itag ++ v.mime } else v
    v.unlessWhole

/-- `get_videoid`; without a parameter `resultado.size() - 1` is the greatest unsigned number and
`resultado.at(0)` throws. -/
def get_videoid (url : Str) : Option Video :=
  let resultado := stringexplode url ['?']
  if resultado.length > 1 then
    let params := stringexplode (resultado.getLast?.getD []) ['&']
    if params = [] then none
    else
      match params.foldlM videoParam Video.new with
      | .error v => some v
      | .ok v => some v.finish
  else some Video.new.finish

/-- The loop of `get_videoid2`: the value of the first `watchid` that has one value. -/
def watchParam : List Str → Option Str
  | [] => none
  | param :: url_param =>
    match stringexplode param ['='] with
    | [name, value] => if name = watchid then some value else watchParam url_param
    | _ => watchParam url_param

/-- A part of the path with a name and a value behind it. -/
def pathValue (name : Str) (value : Regex Char) : Regex Char :=
  .seq (.word ('/' :: name ++ ['/'])) value

/-- The 16 characters of `/id/` in the path. -/
def pathId (urlDir : Str) : Str :=
  getiValue (pathValue ['i', 'd'] (.seq (.pow wordChar 16) (.word ['/']))) false urlDir 1

/-- A number of the path. -/
def pathNumber (name urlDir : Str) : Str :=
  getiValue (pathValue name (.seq (.plus digit) (.word ['/']))) false urlDir 1

/-- `get_videoid2` -/
def get_videoid2 (url : Str) : Video :=
  match stringexplode url ['?'] with
  | [urlDir, params] =>
    let codeVide := (watchParam (stringexplode params ['&'])).getD (pathId urlDir)
    if codeVide = [] then Video.new
    else
      let ranges := getiValue
        (pathValue rangeName (.seq (.plus digit) (.seq (.word ['-']) (.plus digit)))) true urlDir 1
      match getRanges ranges with
      | none => Video.new
      | some (a, b) =>
        let clen_str := pathNumber clenName urlDir
        let itag := pathNumber itagName urlDir
        let kind := if (find "/mime/video".toList urlDir).isSome then vid else aud
        let v := { Video.new with
          file := codeVide ++ '-' :: itag ++ kind, exist_range := true, a, b, clen := atoll clen_str }
        v.unlessWhole
  | _ => Video.new

/-- The loop of `get_watchID`. -/
def vParam : List Str → Str
  | [] => []
  | param :: params =>
    match stringexplode param ['='] with
    | [name, value] =>
      if value.isEmpty then [] else if name = ['v'] then value else vParam params
    | _ => vParam params

/-- `get_watchID` -/
def get_watchID (url : Str) : Option Str :=
  let resultado := stringexplode (searchReplace url ['?'] ['&']).2 ['/']
  if resultado.length > 1 then
    let params := stringexplode (resultado.getLast?.getD []) ['&']
    if params = [] then none else some (vParam params)
  else some []

/-! ## The answer -/

/-- The answer without a file. -/
def unmatched : Resposta :=
  { isMatch := false, domain := [], file := [], range_min := 0, range_max := 0, total_file_size := 0
    exist_range := false }

/-- `.flv` -/
def flv : Str := ['.', 'f', 'l', 'v']

/-- The answer for a video, which is one of youtube if it has a name. -/
def Video.resposta (v : Video) : Resposta :=
  let r := { unmatched with
    range_min := v.a, range_max := v.b, total_file_size := v.clen, exist_range := v.exist_range }
  if v.file ≠ [] then { r with isMatch := true, domain := youtube, file := v.file ++ flv } else r

def queryPlayback : Str := "/videoplayback?".toList

def pathPlayback : Str := "/videoplayback/".toList

/-- `hgetmatch2`; `none` when it throws. -/
def hgetmatch2 (url : Str) : Option Resposta :=
  if (find queryPlayback url).isSome then
    if servesQuery url then (get_videoid url).map Video.resposta else some unmatched
  else if (find pathPlayback url).isSome then
    some (if servesPath url then (get_videoid2 url).resposta else unmatched)
  else if (find ".com/watch?".toList url).isSome then
    (get_watchID url).map fun id =>
      if id ≠ [] then { unmatched with domain := youtubeIDs, file := id } else unmatched
  else some unmatched

/-! ## What a request says of the name -/

/-- The parameters behind the last question mark. -/
def requestParams (url : Str) : List Str :=
  stringexplode ((stringexplode url ['?']).getLast?.getD []) ['&']

/-- What a parameter gives for one of the names. -/
def valueOf (names : List Str) (param : Str) : Option Str :=
  match stringexplode param ['='] with
  | name :: value :: _ => if name ∈ names then some value else none
  | _ => none

/-- The last value for one of the names. -/
def lastValue (names params : List Str) : Option Str := (params.filterMap (valueOf names)).getLast?

/-- The format in the name, which is left out for 34. -/
def itagText (params : List Str) : Str :=
  match ((params.filterMap (valueOf [itagName])).filter (· ≠ ['3', '4'])).getLast? with
  | some value => '-' :: value
  | none => []

/-- What of the parameters stands in the name and may have slashes: the identifier, for which
`watchid` comes first, and in a query the format. -/
def videoText (url : Str) : Str :=
  if (find queryPlayback url).isSome then
    (lastValue [watchid] (requestParams url)).getD ((lastValue idNames (requestParams url)).getD []) ++
      itagText (requestParams url)
  else (watchParam (requestParams url)).getD []

/-- The parameters of a request do not climb out of a place two levels up; the last component gets the
ending. -/
def StaysInside (url : Str) : Prop := Within 2 (components (videoText url)).dropLast

/-! ### The loop over the parameters -/

/-- The variables say what the parameters read so far have. -/
structure ParamsRead (params : List Str) (v : Video) : Prop where
  watchID : v.watchID = (lastValue [watchid] params).isSome
  file : v.file ≠ [] →
    v.file = (lastValue [watchid] params).getD ((lastValue idNames params).getD [])
  itag : v.itag = itagText params
  mime : '/' ∉ v.mime

theorem lastValue_append (names params : List Str) (param : Str) :
    lastValue names (params ++ [param]) = (valueOf names param).or (lastValue names params) := by
  unfold lastValue
  rw [List.filterMap_append, List.getLast?_append]
  cases h : valueOf names param <;> simp [h]

/-- A parameter without a value for the name changes nothing. -/
theorem lastValue_of_none {names params : List Str} {param : Str} (h : valueOf names param = none) :
    lastValue names (params ++ [param]) = lastValue names params := by
  rw [lastValue_append, h]
  rfl

theorem itagText_of_none {params : List Str} {param : Str}
    (h : valueOf [itagName] param = none ∨ valueOf [itagName] param = some ['3', '4']) :
    itagText (params ++ [param]) = itagText params := by
  unfold itagText
  rw [List.filterMap_append, List.filter_append]
  rcases h with h | h <;> simp [h]

theorem itagText_of_some {params : List Str} {param value : Str}
    (h : valueOf [itagName] param = some value) (hvalue : value ≠ ['3', '4']) :
    itagText (params ++ [param]) = '-' :: value := by
  unfold itagText
  rw [List.filterMap_append, List.filter_append]
  simp [h, hvalue]

section Loop

variable {params : List Str} {v v' : Video}

theorem ParamsRead.new : ParamsRead [] Video.new :=
  ⟨rfl, fun h => absurd rfl h, rfl, List.not_mem_nil⟩

/-- What a parameter does to the variables of the name. -/
inductive Video.Step (v : Video) (param : Str) (v' : Video) : Prop
  | identifier {value : Str} (first : v.watchID = false) (id : valueOf idNames param = some value)
      (noWatch : valueOf [watchid] param = none) (noItag : valueOf [itagName] param = none)
      (result : v' = { v with file := if value.length > 40 then [] else value })
  | format {value : Str} (itag : valueOf [itagName] param = some value) (kept : value ≠ ['3', '4'])
      (noWatch : valueOf [watchid] param = none) (noId : valueOf idNames param = none)
      (result : v' = { v with itag := '-' :: value })
  | watch {value : Str} (watch : valueOf [watchid] param = some value)
      (noItag : valueOf [itagName] param = none) (result : v' = { v with file := value, watchID := true })
  | other (noWatch : valueOf [watchid] param = none)
      (id : valueOf idNames param = none ∨ v.watchID = true)
      (itag : valueOf [itagName] param = none ∨ valueOf [itagName] param = some ['3', '4'])
      (same : v'.watchID = v.watchID ∧ v'.file = v.file ∧ v'.itag = v.itag)
      (mime : v'.mime ∈ [v.mime, vid, aud])

/-- A parameter that ends the loop leaves no name. -/
def Video.After (v : Video) (param : Str) : Except Video Video → Prop
  | .ok v' => v.Step param v'
  | .error v' => v'.file = []

/-- A parameter that is neither an identifier nor a format. -/
theorem step_other {v v' : Video} {param name value : Str}
    (hvalue : ∀ names, valueOf names param = if name ∈ names then some value else none)
    (hid : ¬ (name ∈ idNames ∧ ¬ v.watchID = true)) (hitag : ¬ (name = itagName ∧ value ≠ ['3', '4']))
    (hne : name ≠ watchid) (hsame : v'.watchID = v.watchID ∧ v'.file = v.file ∧ v'.itag = v.itag)
    (hmime : v'.mime ∈ [v.mime, vid, aud]) : v.Step param v' := by
  refine .other ?_ ?_ ?_ hsame hmime
  · rw [hvalue, if_neg (mt List.mem_singleton.mp hne)]
  · by_cases hmem : name ∈ idNames
    · exact Or.inr (by simpa [hmem] using hid)
    · exact Or.inl (by rw [hvalue, if_neg hmem])
  · by_cases hmem : name ∈ [itagName]
    · rw [hvalue, if_pos hmem]
      refine Or.inr (congrArg some ?_)
      by_contra hkept
      exact hitag ⟨List.mem_singleton.mp hmem, hkept⟩
    · exact Or.inl (by rw [hvalue, if_neg hmem])

theorem videoParam_after (v : Video) (param : Str) : v.After param (videoParam v param) := by
  unfold videoParam
  have hnothing : (∀ names, valueOf names param = none) → v.Step param v := fun hnone =>
    .other (hnone _) (Or.inl (hnone _)) (Or.inl (hnone _)) ⟨rfl, rfl, rfl⟩ List.mem_cons_self
  cases hparts : stringexplode param ['='] with
  | nil => exact hnothing fun names => by rw [valueOf, hparts]
  | cons name values =>
  cases values with
  | nil => exact hnothing fun names => by rw [valueOf, hparts]
  | cons value values =>
  dsimp only
  have hvalue : ∀ names, valueOf names param = if name ∈ names then some value else none := by
    intro names
    rw [valueOf, hparts]
  have hnone : ∀ {names}, name ∉ names → valueOf names param = none := by
    intro names hname
    rw [hvalue, if_neg hname]
  by_cases hempty : value.isEmpty = true
  · rw [if_pos hempty]
    rfl
  rw [if_neg hempty]
  by_cases hid : name ∈ idNames ∧ ¬ v.watchID = true
  · rw [if_pos hid]
    have hother : ∀ other, other ∉ idNames → name ∉ [other] := by
      intro other hother hmem
      exact hother (List.mem_singleton.mp hmem ▸ hid.1)
    exact .identifier (Bool.eq_false_iff.mpr hid.2) (by rw [hvalue, if_pos hid.1])
      (hnone (hother _ (by decide))) (hnone (hother _ (by decide))) rfl
  rw [if_neg hid]
  by_cases hitag : name = itagName ∧ value ≠ ['3', '4']
  · rw [if_pos hitag]
    obtain ⟨rfl, hkept⟩ := hitag
    exact .format (by rw [hvalue, if_pos List.mem_cons_self]) hkept (hnone (by decide))
      (hnone (by decide)) rfl
  rw [if_neg hitag]
  have hother : name ≠ watchid → ∀ v' : Video, v'.watchID = v.watchID ∧ v'.file = v.file ∧
      v'.itag = v.itag → v'.mime ∈ [v.mime, vid, aud] → v.Step param v' :=
    fun hne _ hsame hmime => step_other hvalue hid hitag hne hsame hmime
  by_cases hrange : name = rangeName
  · rw [if_pos hrange]
    cases getRanges value with
    | none => rfl
    | some ranges => exact hother (by rw [hrange]; decide) _ ⟨rfl, rfl, rfl⟩ List.mem_cons_self
  rw [if_neg hrange]
  by_cases hcm2 : name = ['c', 'm', '2'] ∧ value = ['0']
  · rw [if_pos hcm2]
    exact hother (by rw [hcm2.1]; decide) _ ⟨rfl, rfl, rfl⟩ List.mem_cons_self
  rw [if_neg hcm2]
  by_cases hclen : name = clenName
  · rw [if_pos hclen]
    exact hother (by rw [hclen]; decide) _ ⟨rfl, rfl, rfl⟩ List.mem_cons_self
  rw [if_neg hclen]
  by_cases hwatch : name = watchid
  · rw [if_pos hwatch]
    subst hwatch
    exact .watch (by rw [hvalue, if_pos List.mem_cons_self]) (hnone (by decide)) rfl
  rw [if_neg hwatch]
  split
  · split
    · exact hother hwatch _ ⟨rfl, rfl, rfl⟩ (List.mem_cons_of_mem _ List.mem_cons_self)
    · split
      · exact hother hwatch _ ⟨rfl, rfl, rfl⟩
          (List.mem_cons_of_mem _ (List.mem_cons_of_mem _ List.mem_cons_self))
      · exact hother hwatch _ ⟨rfl, rfl, rfl⟩ List.mem_cons_self
  · exact hother hwatch _ ⟨rfl, rfl, rfl⟩ List.mem_cons_self

/-- One step of the loop. -/
theorem ParamsRead.step (h : ParamsRead params v) {param : Str} (hstep : v.Step param v') :
    ParamsRead (params ++ [param]) v' := by
  cases hstep with
  | @identifier value first id noWatch noItag result =>
    subst result
    refine ⟨?_, ?_, ?_, h.mime⟩
    · rw [lastValue_of_none noWatch]
      exact h.watchID
    · intro hne
      have hlength : ¬ value.length > 40 := fun hlong => hne (if_pos hlong)
      have hnowatch : lastValue [watchid] params = none := by
        rw [← Option.not_isSome_iff_eq_none, ← h.watchID, first]
        decide
      rw [lastValue_of_none noWatch, hnowatch, lastValue_append, id]
      exact if_neg hlength
    · rw [itagText_of_none (Or.inl noItag)]
      exact h.itag
  | format itag kept noWatch noId result =>
    subst result
    refine ⟨?_, ?_, (itagText_of_some itag kept).symm, h.mime⟩
    · rw [lastValue_of_none noWatch]
      exact h.watchID
    · rw [lastValue_of_none noWatch, lastValue_of_none noId]
      exact h.file
  | watch watch noItag result =>
    subst result
    refine ⟨?_, ?_, ?_, h.mime⟩
    · rw [lastValue_append, watch]
      rfl
    · intro _
      rw [lastValue_append, watch]
      rfl
    · rw [itagText_of_none (Or.inl noItag)]
      exact h.itag
  | other noWatch id itag same mime =>
    obtain ⟨hwatchID, hfile, hitag⟩ := same
    refine ⟨?_, ?_, ?_, ?_⟩
    · rw [hwatchID, h.watchID, lastValue_of_none noWatch]
    · rw [hfile, lastValue_of_none noWatch]
      intro hne
      rw [h.file hne]
      rcases id with hnone | hwatch
      · rw [lastValue_of_none hnone]
      · rw [h.watchID] at hwatch
        obtain ⟨id, hid⟩ := Option.isSome_iff_exists.mp hwatch
        rw [hid]
        rfl
    · rw [hitag, h.itag, itagText_of_none itag]
    · simp only [List.mem_cons, List.not_mem_nil, or_false] at mime
      rcases mime with hmime | hmime | hmime
      · rw [hmime]
        exact h.mime
      · rw [hmime]
        decide
      · rw [hmime]
        decide

/-- The whole loop. -/
theorem ParamsRead.run {rest : List Str} (h : ParamsRead params v)
    (hrun : rest.foldlM videoParam v = .ok v') : ParamsRead (params ++ rest) v' := by
  induction rest generalizing params v with
  | nil =>
    cases hrun
    rwa [List.append_nil]
  | cons param rest ih =>
    have hafter := videoParam_after v param
    rw [List.foldlM_cons] at hrun
    cases hparam : videoParam v param with
    | error v₁ =>
      rw [hparam] at hrun
      cases hrun
    | ok v₁ =>
      rw [hparam] at hrun hafter
      have happend := ih (h.step hafter) hrun
      rwa [List.append_assoc, List.singleton_append] at happend

theorem foldlM_error {rest : List Str} (h : rest.foldlM videoParam v = .error v') : v'.file = [] := by
  induction rest generalizing v with
  | nil => cases h
  | cons param rest ih =>
    have hafter := videoParam_after v param
    rw [List.foldlM_cons] at h
    cases hparam : videoParam v param with
    | error v₁ =>
      rw [hparam] at h hafter
      cases h
      exact hafter
    | ok v₁ =>
      rw [hparam] at h
      exact ih h

end Loop

/-! ### The names -/

theorem unlessWhole_file {v : Video} (h : v.unlessWhole.file ≠ []) : v.unlessWhole.file = v.file := by
  unfold Video.unlessWhole at h ⊢
  split at h
  · exact absurd rfl h
  · rename_i hwhole
    rw [if_neg hwhole]

theorem finish_file {v : Video} (h : v.finish.file ≠ []) :
    v.file ≠ [] ∧ v.finish.file = v.file ++ v.itag ++ v.mime := by
  unfold Video.finish at h ⊢
  by_cases hcm2 : v.exist_cm2 = true ∧ ¬ v.range = true
  · rw [if_pos hcm2] at h
    exact absurd rfl h
  · rw [if_neg hcm2] at h ⊢
    have hfile := unlessWhole_file h
    by_cases hne : v.file = []
    · rw [if_neg (not_not.mpr hne)] at hfile h
      exact absurd (hfile.trans hne) h
    · rw [if_pos hne] at hfile ⊢
      exact ⟨hne, hfile⟩

/-- The name that `get_videoid` gives. -/
theorem get_videoid_file {url : Str} {v : Video} (h : get_videoid url = some v) (hfile : v.file ≠ []) :
    ∃ mime, '/' ∉ mime ∧ v.file = (lastValue [watchid] (requestParams url)).getD
      ((lastValue idNames (requestParams url)).getD []) ++ itagText (requestParams url) ++ mime := by
  unfold get_videoid at h
  dsimp only at h
  split at h
  · split at h
    · cases h
    · split at h
      · rename_i v' hrun
        cases h
        exact absurd (foldlM_error hrun) hfile
      · rename_i v' hrun
        cases h
        obtain ⟨hne, hname⟩ := finish_file hfile
        have hread := ParamsRead.new.run hrun
        rw [List.nil_append] at hread
        refine ⟨v'.mime, hread.mime, ?_⟩
        rw [hname, hread.file hne, hread.itag]
        rfl
  · cases h
    exact absurd (by decide) hfile

theorem getiValue_slash (er : Regex Char) (atLineEnd : Bool) (url : Str) (index : Nat) :
    '/' ∉ getiValue er atLineEnd url index := by
  unfold getiValue
  intro hmem
  cases hpiece : (stringexplode (regexMatch er atLineEnd url) ['/'])[index]? with
  | none =>
    rw [hpiece] at hmem
    cases hmem
  | some piece =>
    rw [hpiece] at hmem
    exact not_mem_of_mem_stringexplode (List.mem_of_getElem? hpiece) '/' hmem List.mem_cons_self

/-- The name that `get_videoid2` gives. -/
theorem get_videoid2_file {url : Str} (hfile : (get_videoid2 url).file ≠ []) :
    ∃ last, '/' ∉ last ∧
      (get_videoid2 url).file = (watchParam (requestParams url)).getD [] ++ last := by
  unfold get_videoid2 at hfile ⊢
  split at hfile
  · rename_i urlDir params hurl
    have hparams : requestParams url = stringexplode params ['&'] := by
      unfold requestParams
      rw [hurl]
      rfl
    rw [hparams]
    dsimp only at hfile ⊢
    split at hfile
    · exact absurd rfl hfile
    rename_i hcode
    rw [if_neg hcode]
    split at hfile
    · exact absurd rfl hfile
    rename_i a b hranges
    rw [unlessWhole_file hfile]
    dsimp only
    have hlast : ∀ front itag : Str, '/' ∉ front → '/' ∉ itag →
        '/' ∉ front ++ '-' :: itag ++ (if (find "/mime/video".toList urlDir).isSome then vid else aud) := by
      intro front itag hfront hitag hmem
      rcases List.mem_append.mp hmem with hmem | hmem
      · rcases List.mem_append.mp hmem with hmem | hmem
        · exact hfront hmem
        · exact hitag ((List.mem_cons.mp hmem).resolve_left (by decide))
      · split at hmem <;> exact absurd hmem (by decide)
    cases hwatch : watchParam (stringexplode params ['&']) with
    | some value =>
      refine ⟨_, hlast [] (pathNumber itagName urlDir) List.not_mem_nil (getiValue_slash _ _ _ _), ?_⟩
      rw [Option.getD_some, List.nil_append, List.append_assoc]
      rfl
    | none =>
      refine ⟨_, hlast (pathId urlDir) (pathNumber itagName urlDir) (getiValue_slash _ _ _ _)
        (getiValue_slash _ _ _ _), ?_⟩
      rw [Option.getD_none, Option.getD_none, List.nil_append]
  · exact absurd rfl hfile

/-- The file of a match. -/
theorem hgetmatch2_file {url : Str} {r : Resposta} (h : hgetmatch2 url = some r)
    (hmatch : r.isMatch = true) :
    r.domain = youtube ∧ ∃ last, '/' ∉ last ∧ r.file = videoText url ++ (last ++ flv) := by
  have hvideo : ∀ v : Video, r = v.resposta →
      v.file ≠ [] ∧ r.domain = youtube ∧ r.file = v.file ++ flv := by
    intro v hr
    subst hr
    unfold Video.resposta at hmatch ⊢
    dsimp only at hmatch ⊢
    split at hmatch
    · rename_i hfile
      rw [if_pos hfile]
      exact ⟨hfile, rfl, rfl⟩
    · cases hmatch
  unfold hgetmatch2 at h
  split at h
  · rename_i hquery
    split at h
    · obtain ⟨v, hv, hr⟩ := Option.map_eq_some_iff.mp h
      obtain ⟨hfile, hdomain, hname⟩ := hvideo v hr.symm
      obtain ⟨mime, hmime, hv⟩ := get_videoid_file hv hfile
      refine ⟨hdomain, mime, hmime, ?_⟩
      rw [hname, hv, videoText, if_pos hquery, List.append_assoc]
    · cases h
      cases hmatch
  · rename_i hquery
    split at h
    · split at h
      · obtain ⟨hfile, hdomain, hname⟩ := hvideo _ (Option.some.inj h).symm
        obtain ⟨last, hlast, hv⟩ := get_videoid2_file hfile
        refine ⟨hdomain, last, hlast, ?_⟩
        rw [hname, hv, videoText, if_neg hquery, List.append_assoc]
      · cases h
        cases hmatch
    · split at h
      · obtain ⟨id, -, hr⟩ := Option.map_eq_some_iff.mp h
        subst hr
        split at hmatch <;> cases hmatch
      · cases h
        cases hmatch

/-! ## Where the file lies -/

/-- Every path that `Cache` builds for the answer lies below the directory of its domain; the name is
that of the answer, or has `206-` in front, and then `.webm` behind. -/
def Confined (r : Resposta) : Prop :=
  ∀ name ∈ [r.file, partialName r.file, webmName (partialName r.file)], ∀ directory path,
    cachePath r.domain name directory = some path → Below path (directory ++ r.domain)

theorem rfind_flv (front : Str) : rfind flv (front ++ flv) = some front.length := by
  induction front with
  | nil => decide
  | cons c front ih =>
    rw [List.cons_append, rfind, ih]
    rfl

theorem webmName_flv (front : Str) : webmName (front ++ flv) = front ++ ['.', 'w', 'e', 'b', 'm'] := by
  have hfind := rfind_flv front
  unfold webmName
  unfold flv at hfind ⊢
  rw [hfind]
  simp

/-- The components behind the directory of youtube. -/
theorem components_subdir {subdir lineT : Str} (h : ConvertChar lineT = some subdir) (name : Str) :
    ∃ d e, components (subdir ++ '/' :: name) = d :: e :: components name ∧ Proper d ∧ Proper e := by
  obtain ⟨d, e, rest, rfl, hd, he, hrest, hlower, -⟩ := ConvertChar_spec h
  have hslash : ∀ c : Char, c.isDigit = true → '/' ≠ c := by
    rintro c hc rfl
    exact absurd hc (by decide)
  have hfirst : '/' ∉ [d] := by
    rw [List.mem_singleton]
    exact hslash d hd
  have hsecond : '/' ∉ e :: '_' :: rest := by
    intro hmem
    rcases List.mem_cons.mp hmem with heq | hmem
    · exact hslash e he heq
    rcases List.mem_cons.mp hmem with heq | hmem
    · exact absurd heq (by decide)
    · exact hslash '/' (hrest '/' hmem) rfl
  refine ⟨[d], e :: '_' :: rest, ?_, ⟨List.cons_ne_nil _ _, ?_, ?_⟩, proper_of_length ?_⟩
  · have houter := components_append [d] (e :: '_' :: rest ++ '/' :: name)
    have hinner := components_append (e :: '_' :: rest) name
    rw [components_of_not_mem hsecond] at hinner
    rw [components_of_not_mem hfirst, hinner] at houter
    exact houter
  · intro heq
    rw [(List.cons.inj heq).1] at hd
    exact absurd hd (by decide)
  · intro heq
    exact absurd (List.cons.inj heq).2.symm (List.cons_ne_nil _ _)
  · rw [List.length_cons, List.length_cons]
    omega

theorem cachePath_youtube {name subdir : Str} (h : ConvertChar name = some subdir) (directory : Str) :
    cachePath youtube name directory = some (directory ++ youtube ++ '/' :: (subdir ++ '/' :: name)) := by
  rw [cachePath, if_neg (by decide), h, Option.map_some, rowPath]
  simp

/-- A name that climbs at most two levels. -/
theorem below_of_components {name path directory last : Str} {cs : List Str}
    (hname : components name = cs ++ [last]) (hlast : Proper last) (h : Within 2 cs)
    (hpath : cachePath youtube name directory = some path) : Below path (directory ++ youtube) := by
  cases hsubdir : ConvertChar name with
  | none =>
    rw [cachePath, if_neg (by decide), hsubdir] at hpath
    cases hpath
  | some subdir =>
    rw [cachePath_youtube hsubdir] at hpath
    cases hpath
    obtain ⟨d, e, htail, hd, he⟩ := components_subdir hsubdir name
    rw [hname, ← List.cons_append, ← List.cons_append] at htail
    refine below_of_within htail ?_ hlast ?_
    · exact List.append_ne_nil_of_right_ne_nil _ (List.cons_ne_nil _ _)
    · rw [within_proper hd, within_proper he]
      exact h

/-- A name that climbs higher leaves the directory of youtube. -/
theorem exists_not_below {name subdir last : Str} {cs : List Str}
    (hname : components name = cs ++ [last]) (h : ¬ Within 2 cs)
    (hsubdir : ConvertChar name = some subdir) :
    ∃ directory path, cachePath youtube name directory = some path ∧
      ¬ Below path (directory ++ youtube) := by
  -- a directory whose name is too long to come again
  refine ⟨'/' :: List.replicate (subdir ++ '/' :: name).length 'a', _,
    cachePath_youtube hsubdir _, ?_⟩
  obtain ⟨d, e, htail, hd, he⟩ := components_subdir hsubdir name
  rw [hname, ← List.cons_append, ← List.cons_append] at htail
  refine @not_below_of_not_within (List.replicate (subdir ++ '/' :: name).length 'a' ++ youtube)
    _ _ _ htail ?_ ?_ ?_ ?_
  · intro hmem
    rcases List.mem_append.mp hmem with hmem | hmem
    · exact absurd (List.eq_of_mem_replicate hmem) (by decide)
    · exact absurd hmem (by decide)
  · apply proper_of_length
    rw [List.length_append]
    exact Nat.lt_add_left _ (show 2 < youtube.length by decide)
  · intro hmem
    have hle := length_le_of_mem_components hmem
    rw [List.length_append, List.length_replicate] at hle
    exact absurd hle (Nat.not_le_of_lt (Nat.lt_add_of_pos_right (show 0 < youtube.length by decide)))
  · rw [within_proper hd, within_proper he]
    exact h

/-- **A video stays in its directory** exactly when its parameters do not climb out of it. -/
theorem confined_iff {url : Str} {r : Resposta} (h : hgetmatch2 url = some r)
    (hmatch : r.isMatch = true) : Confined r ↔ StaysInside url := by
  obtain ⟨hdomain, last, hlast, hfile⟩ := hgetmatch2_file h hmatch
  have hending : ∀ ending : Str, '/' ∉ ending → 2 < ending.length →
      '/' ∉ last ++ ending ∧ 2 < (last ++ ending).length := by
    intro ending hslash hlength
    rw [List.mem_append, not_or, List.length_append]
    exact ⟨⟨hlast, hslash⟩, Nat.lt_add_left _ hlength⟩
  constructor
  · intro hconfined
    by_contra hnot
    obtain ⟨c, hcomponents⟩ :=
      components_append_of_not_mem (hending flv (by decide) (by decide)).1 (videoText url)
    obtain ⟨subdir, hsubdir⟩ := ConvertChar_flv (videoText url ++ last)
    change ConvertChar (videoText url ++ last ++ flv) = some subdir at hsubdir
    rw [List.append_assoc] at hsubdir
    obtain ⟨directory, path, hpath, hbelow⟩ := exists_not_below hcomponents hnot hsubdir
    rw [← hfile] at hpath
    refine hbelow ?_
    rw [← hdomain]
    exact hconfined r.file List.mem_cons_self directory path (by rw [hdomain]; exact hpath)
  · intro hinside name hname directory path hpath
    rw [hdomain] at hpath ⊢
    have hbelow : ∀ first ending : Str, '/' ∉ first → (first = [] ∨ 2 < first.length) →
        '/' ∉ ending → 2 < ending.length → name = first ++ (videoText url ++ (last ++ ending)) →
        Below path (directory ++ youtube) := by
      intro first ending hfirst hfirst' hslash hlength heq
      subst heq
      obtain ⟨hslash, hlength⟩ := hending ending hslash hlength
      obtain ⟨cs, c, hcomponents, hc, hcs⟩ :=
        within_affixes hfirst hfirst' hslash hlength (videoText url) hinside
      exact below_of_components hcomponents hc hcs hpath
    have hpartial : partialName r.file = ['2', '0', '6', '-'] ++ (videoText url ++ (last ++ flv)) := by
      rw [hfile, partialName, if_neg]
      simp [flv]
    simp only [List.mem_cons, List.not_mem_nil, or_false] at hname
    rcases hname with heq | heq | heq
    · exact hbelow [] flv List.not_mem_nil (Or.inl rfl) (by decide) (by decide) (heq.trans hfile)
    · exact hbelow ['2', '0', '6', '-'] flv (by decide) (Or.inr (by decide)) (by decide) (by decide)
        (heq.trans hpartial)
    · refine hbelow ['2', '0', '6', '-'] ['.', 'w', 'e', 'b', 'm'] (by decide) (Or.inr (by decide))
        (by decide) (by decide) ?_
      rw [heq, hpartial, ← List.append_assoc, ← List.append_assoc, webmName_flv]
      simp

/-- An ordinary video. -/
theorem confined_iff_abc :
    Confined ⟨true, youtube, "abc-22.flv".toList, 0, 0, 0, false⟩ ↔
      StaysInside "v.youtube.com/videoplayback?id=abc&itag=22".toList :=
  confined_iff (by decide +kernel) rfl

/-- An identifier that climbs to the root. -/
theorem not_confined_climb :
    hgetmatch2 "v.youtube.com/videoplayback?id=../../../../etc/x".toList =
        some ⟨true, youtube, "../../../../etc/x.flv".toList, 0, 0, 0, false⟩ ∧
      ¬ Confined ⟨true, youtube, "../../../../etc/x.flv".toList, 0, 0, 0, false⟩ := by
  refine ⟨by decide +kernel, ?_⟩
  intro hconfined
  obtain ⟨-, names, hne, -, heq⟩ := hconfined _ List.mem_cons_self "/haarp/".toList
    "/haarp/youtube/0/8_46/../../../../etc/x.flv".toList (by decide +kernel)
  have hpath : resolve "/haarp/youtube/0/8_46/../../../../etc/x.flv".toList =
      ["x.flv".toList, "etc".toList] := by decide +kernel
  have hbase : resolve ("/haarp/".toList ++ youtube) = [youtube, "haarp".toList] := by decide +kernel
  rw [hpath, hbase] at heq
  have hlength : 2 = names.length + 2 := (congrArg List.length heq).trans List.length_append
  exact hne (List.length_eq_zero_iff.mp (by omega))

end Haarp
