import Haarp.Base.Keyed
import Haarp.Plugins.Youtube

/-!
# Requests made of parameters

A request for a video with its parameters behind the question mark. What `get_videoid` takes from a list
of parameters with distinct names is a function of what each name has (`videoOf`, `get_videoid_query`),
and that does not depend on the order of the parameters (`QueryParams.lookup_eq`).
-/

namespace Haarp

open Base

/-! ## Parameters -/

/-- The name and the value of a parameter. -/
abbrev Param := Str × Str

def paramText (p : Param) : Str := p.1 ++ '=' :: p.2

/-- The parameters joined by ampersands. -/
def joinParams (ps : List Param) : Str := (ps.flatMap fun p => '&' :: paramText p).tail

/-- The request for a video with these parameters. -/
def queryRequest (host : Str) (ps : List Param) : Str := host ++ queryPlayback ++ joinParams ps

/-- What separates parameters, names and values. -/
def separators : List Char := ['&', '=', '?']

/-- A parameter that its text has: a value that is not empty, and no separator in name or value. -/
structure Plain (p : Param) : Prop where
  name : ∀ c ∈ p.1, c ∉ separators
  value : ∀ c ∈ p.2, c ∉ separators
  nonempty : p.2 ≠ []

/-- The value of a name. -/
def lookup (ps : List Param) (name : Str) : Option Str := (itemAt Prod.fst ps name).map Prod.snd

section Params

variable {ps ps' : List Param} {p : Param} {name : Str}

theorem paramText_ne_nil (p : Param) : paramText p ≠ [] :=
  List.append_ne_nil_of_right_ne_nil _ (List.cons_ne_nil _ _)

theorem Plain.not_mem_text (h : Plain p) {c : Char} (hc : c ∈ separators) (hne : c ≠ '=') :
    c ∉ paramText p := by
  intro hmem
  rcases List.mem_append.mp hmem with hmem | hmem
  · exact h.name c hmem hc
  · rcases List.mem_cons.mp hmem with rfl | hmem
    · exact hne rfl
    · exact h.value c hmem hc

/-- A parameter is taken apart at its equals sign. -/
theorem stringexplode_paramText (h : Plain p) :
    stringexplode (paramText p) ['='] = if p.1 = [] then [p.2] else [p.1, p.2] := by
  have hvalue : stringexplode p.2 ['='] = [p.2] := by
    refine stringexplode_of_not_mem (fun c hc hmem => h.value c hc ?_) h.nonempty
    rw [List.mem_singleton.mp hmem]
    decide
  unfold paramText
  split
  · next hnil =>
    rw [hnil, List.nil_append, stringexplode_cons List.mem_cons_self]
    exact hvalue
  · next hne =>
    rw [stringexplode_append (fun c hc hmem => h.name c hc ?_) hne List.mem_cons_self, hvalue]
    rw [List.mem_singleton.mp hmem]
    decide

theorem stringexplode_joinParams (h : ∀ p ∈ ps, Plain p) :
    stringexplode (joinParams ps) ['&'] = ps.map paramText := by
  have hpieces : ∀ w ∈ ps.map paramText, w ≠ [] ∧ '&' ∉ w := by
    intro w hw
    obtain ⟨p, hp, rfl⟩ := List.mem_map.mp hw
    exact ⟨paramText_ne_nil p, (h p hp).not_mem_text (by decide) (by decide)⟩
  have hall := stringexplode_flatMap hpieces
  rw [List.flatMap_map] at hall
  cases ps with
  | nil => rfl
  | cons p ps =>
    rw [List.flatMap_cons, List.cons_append, stringexplode_cons List.mem_cons_self] at hall
    exact hall

theorem joinParams_ne_nil (h : ps ≠ []) : joinParams ps ≠ [] := by
  obtain ⟨p, ps, rfl⟩ := List.exists_cons_of_ne_nil h
  exact List.append_ne_nil_of_left_ne_nil (paramText_ne_nil p) _

theorem not_mem_joinParams (h : ∀ p ∈ ps, Plain p) : '?' ∉ joinParams ps := by
  intro hmem
  obtain ⟨p, hp, hmem⟩ := List.mem_flatMap.mp (List.mem_of_mem_tail hmem)
  rcases List.mem_cons.mp hmem with heq | hmem
  · exact absurd heq (by decide)
  · exact (h p hp).not_mem_text (by decide) (by decide) hmem

/-- The parameters of a request are those behind its last question mark. -/
theorem stringexplode_queryRequest (host : Str) (h : ∀ p ∈ ps, Plain p) (hne : ps ≠ []) :
    1 < (stringexplode (queryRequest host ps) ['?']).length ∧
      (stringexplode (queryRequest host ps) ['?']).getLast? = some (joinParams ps) := by
  have hsplit : queryRequest host ps = (host ++ "/videoplayback".toList) ++ '?' :: joinParams ps := by
    have hmark : queryPlayback = "/videoplayback".toList ++ ['?'] := by decide
    rw [queryRequest, hmark, List.append_assoc, List.append_assoc, List.append_assoc]
    rfl
  have hfront : stringexplode (host ++ "/videoplayback".toList) ['?'] ≠ [] := by
    intro hnil
    have hslash : '/' ∈ host ++ "/videoplayback".toList := List.mem_append_right host (by decide)
    exact absurd (stringexplode_eq_nil_iff.mp hnil '/' hslash) (by decide)
  have hlast : stringexplode (joinParams ps) ['?'] = [joinParams ps] := by
    refine stringexplode_of_not_mem (fun c hc hmem => ?_) (joinParams_ne_nil hne)
    exact not_mem_joinParams h (List.mem_singleton.mp hmem ▸ hc)
  rw [hsplit, stringexplode_split List.mem_cons_self, hlast, List.length_append, List.getLast?_concat]
  exact ⟨Nat.lt_add_of_pos_left (List.length_pos_iff.mpr hfront), rfl⟩

/-! ## What a name has -/

theorem lookup_perm (hnames : (ps.map Prod.fst).Nodup) (h : ps.Perm ps') (name : Str) :
    lookup ps name = lookup ps' name :=
  congrArg (Option.map Prod.snd) (itemAt_perm hnames h)

theorem lookup_eq_none : lookup ps name = none ↔ name ∉ ps.map Prod.fst := by
  rw [lookup, Option.map_eq_none_iff, itemAt_eq_none]

theorem lookup_eq_some_iff (hnames : (ps.map Prod.fst).Nodup) {value : Str} :
    lookup ps name = some value ↔ (name, value) ∈ ps := by
  rw [lookup, Option.map_eq_some_iff]
  constructor
  · rintro ⟨p, hp, rfl⟩
    obtain ⟨hmem, rfl⟩ := (itemAt_eq_some_iff hnames).mp hp
    exact hmem
  · intro hmem
    exact ⟨(name, value), (itemAt_eq_some_iff hnames).mpr ⟨hmem, rfl⟩, rfl⟩

/-- Another parameter behind them. -/
theorem lookup_concat (ps : List Param) (p : Param) (name : Str) :
    lookup (ps ++ [p]) name = (lookup ps name).or (if p.1 = name then some p.2 else none) := by
  have hone : itemAt Prod.fst [p] name = if p.1 = name then some p else none := by
    by_cases hp : p.1 = name
    · rw [if_pos hp, ← hp]
      exact itemAt_cons_self p []
    · rw [if_neg hp, itemAt_cons_of_ne hp]
      rfl
  rw [lookup, lookup, itemAt_append, hone, Option.map_or]
  split <;> rfl

theorem lookup_concat_self (h : p.1 ∉ ps.map Prod.fst) : lookup (ps ++ [p]) p.1 = some p.2 := by
  rw [lookup_concat, lookup_eq_none.mpr h, if_pos rfl]
  rfl

theorem lookup_concat_of_ne (h : p.1 ≠ name) : lookup (ps ++ [p]) name = lookup ps name := by
  rw [lookup_concat, if_neg h, Option.or_none]

/-- A parameter with a new name behind them changes what this name has. -/
theorem lookup_concat_new (h : p.1 ∉ ps.map Prod.fst) :
    lookup (ps ++ [p]) = Function.update (lookup ps) p.1 (some p.2) := by
  funext name
  by_cases hname : name = p.1
  · rw [hname, Function.update_self, lookup_concat_self h]
  · rw [Function.update_of_ne hname, lookup_concat_of_ne (Ne.symm hname)]

end Params

/-! ## The variables of `get_videoid` -/

def idName : Str := ['i', 'd']

def videoIdName : Str := ['v', 'i', 'd', 'e', 'o', '_', 'i', 'd']

def cm2Name : Str := ['c', 'm', '2']

def mimeName : Str := ['m', 'i', 'm', 'e']

/-- A value of `mime` in the name of a video. -/
def kindOf (mime : Str) : Str :=
  if (find ['v', 'i', 'd', 'e', 'o'] mime).isSome then vid
  else if (find ['a', 'u', 'd', 'i', 'o'] mime).isSome then aud
  else []

/-- The variables after parameters that have these values. -/
def videoOf (value : Str → Option Str) : Video where
  file := (value watchid).getD (((value idName).or (value videoIdName)).elim [] fun id =>
    if id.length > 40 then [] else id)
  exist_range := (value rangeName).isSome
  a := ((value rangeName).bind getRanges).elim 0 Prod.fst
  b := ((value rangeName).bind getRanges).elim 0 Prod.snd
  clen := (value clenName).elim 0 atoll
  itag := (value itagName).elim [] fun itag => if itag = ['3', '4'] then [] else '-' :: itag
  mime := (value mimeName).elim [] kindOf
  exist_cm2 := decide (value cm2Name = some ['0'])
  range := (value rangeName).isSome
  watchID := (value watchid).isSome

/-- The names that `get_videoid` reads. -/
def videoNames : List Str :=
  [idName, videoIdName, watchid, rangeName, clenName, itagName, mimeName, cm2Name]

section Loop

variable {value : Str → Option Str} {p : Param}

/-- A parameter of another name changes no variable. -/
theorem videoOf_update_other {name : Str} (h : name ∉ videoNames) (v : Option Str) :
    videoOf (Function.update value name v) = videoOf value := by
  have hne : ∀ name' ∈ videoNames, Function.update value name v name' = value name' := by
    intro name' hmem
    have hne : name' ≠ name := fun heq => h (heq ▸ hmem)
    exact Function.update_of_ne hne v value
  simp only [videoNames, List.forall_mem_cons] at hne
  obtain ⟨hid, hvideo, hwatch, hrange, hclen, hitag, hmime, hcm2, -⟩ := hne
  simp only [videoOf, hid, hvideo, hwatch, hrange, hclen, hitag, hmime, hcm2]

/-- An identifier is read as long as there is no `watchid`. -/
theorem videoOf_update_identifier {name v : Str} (hname : name ∈ idNames) (hwatch : value watchid = none)
    (hnone : value idName = none ∧ value videoIdName = none) :
    videoOf (Function.update value name (some v)) =
      { videoOf value with file := if v.length > 40 then [] else v } := by
  have hnames : name = idName ∨ name = videoIdName := by
    rcases List.mem_cons.mp hname with heq | hmem
    · exact .inl heq
    · exact .inr (List.mem_singleton.mp hmem)
  rcases hnames with rfl | rfl
  · simp (disch := decide) only [videoOf, Function.update_self, Function.update_of_ne, hwatch,
      Option.getD_none]
    rfl
  · simp (disch := decide) only [videoOf, Function.update_self, Function.update_of_ne, hwatch, hnone.1,
      Option.getD_none]
    rfl

/-- Behind a `watchid` the identifiers are not read. -/
theorem videoOf_update_watched {name v : Str} (hname : name ∈ idNames)
    (hwatch : (value watchid).isSome = true) :
    videoOf (Function.update value name (some v)) = videoOf value := by
  obtain ⟨id, hid⟩ := Option.isSome_iff_exists.mp hwatch
  have hothers : ∀ name' ∈ [watchid, rangeName, clenName, itagName, mimeName, cm2Name],
      name' ∉ idNames := by decide
  have hsame : ∀ name' ∈ [watchid, rangeName, clenName, itagName, mimeName, cm2Name],
      Function.update value name (some v) name' = value name' := by
    intro name' hmem
    have hne : name' ≠ name := fun heq => hothers name' hmem (by rw [heq]; exact hname)
    exact Function.update_of_ne hne _ _
  simp only [List.forall_mem_cons] at hsame
  obtain ⟨hwatchid, hrange, hclen, hitag, hmime, hcm2, -⟩ := hsame
  simp only [videoOf, hwatchid, hrange, hclen, hitag, hmime, hcm2, hid, Option.getD_some]

theorem videoOf_update_itag {v : Str} (hnew : value itagName = none) :
    videoOf (Function.update value itagName (some v)) =
      if v = ['3', '4'] then videoOf value else { videoOf value with itag := '-' :: v } := by
  split
  · next h34 =>
    subst h34
    simp (disch := decide) only [videoOf, Function.update_self, Function.update_of_ne, hnew]
    rfl
  · next hkept =>
    simp (disch := decide) only [videoOf, Function.update_self, Function.update_of_ne, Option.elim_some,
      if_neg hkept]

theorem videoOf_update_range {v : Str} {a b : Int} (hab : getRanges v = some (a, b)) :
    videoOf (Function.update value rangeName (some v)) =
      { videoOf value with range := true, a, b, exist_range := true } := by
  simp (disch := decide) only [videoOf, Function.update_self, Function.update_of_ne,
    Option.bind_some, hab]
  rfl

theorem videoOf_update_cm2 {v : Str} (hnew : value cm2Name = none) :
    videoOf (Function.update value cm2Name (some v)) =
      if v = ['0'] then { videoOf value with exist_cm2 := true } else videoOf value := by
  split
  · next hzero =>
    simp (disch := decide) only [videoOf, Function.update_self, Function.update_of_ne, hzero]
    rfl
  · next hzero =>
    have hother : some v ≠ some ['0'] := fun heq => hzero (Option.some.inj heq)
    simp (disch := decide) only [videoOf, Function.update_self, Function.update_of_ne]
    rw [hnew, decide_eq_false hother]
    rfl

theorem videoOf_update_clen (v : Str) :
    videoOf (Function.update value clenName (some v)) = { videoOf value with clen := atoll v } := by
  simp (disch := decide) only [videoOf, Function.update_self, Function.update_of_ne]
  rfl

theorem videoOf_update_watchid (v : Str) :
    videoOf (Function.update value watchid (some v)) =
      { videoOf value with file := v, watchID := true } := by
  simp (disch := decide) only [videoOf, Function.update_self, Function.update_of_ne]
  rfl

theorem videoOf_update_mime (v : Str) :
    videoOf (Function.update value mimeName (some v)) = { videoOf value with mime := kindOf v } := by
  simp (disch := decide) only [videoOf, Function.update_self, Function.update_of_ne, Option.elim_some]

/-- One parameter with a new name. -/
theorem videoParam_videoOf (h : Plain p) (hnew : value p.1 = none)
    (hids : p.1 ∈ idNames → value idName = none ∧ value videoIdName = none)
    (hrange : p.1 = rangeName → (getRanges p.2).isSome = true) :
    videoParam (videoOf value) (paramText p) =
      .ok (videoOf (Function.update value p.1 (some p.2))) := by
  obtain ⟨name, v⟩ := p
  dsimp only at hnew hids hrange ⊢
  have hv : v.isEmpty = false := by simpa using h.nonempty
  unfold videoParam
  rw [stringexplode_paramText h]
  by_cases hname : name = []
  · rw [if_pos hname, videoOf_update_other (by rw [hname]; decide)]
  rw [if_neg hname]
  dsimp only
  rw [hv, if_neg Bool.false_ne_true]
  by_cases hid : name ∈ idNames ∧ ¬ (videoOf value).watchID = true
  · have hwatch : value watchid = none := by simpa [videoOf] using hid.2
    rw [if_pos hid, videoOf_update_identifier hid.1 hwatch (hids hid.1)]
  rw [if_neg hid]
  by_cases hitag : name = itagName
  · subst hitag
    rw [videoOf_update_itag hnew]
    by_cases h34 : v = ['3', '4']
    · rw [if_neg fun hkept => hkept.2 h34, if_pos h34]
      rfl
    · rw [if_pos ⟨rfl, h34⟩, if_neg h34]
  rw [if_neg fun h => hitag h.1]
  by_cases hrangeName : name = rangeName
  · obtain ⟨⟨a, b⟩, hab⟩ := Option.isSome_iff_exists.mp (hrange hrangeName)
    rw [if_pos hrangeName, hab, hrangeName, videoOf_update_range hab]
  rw [if_neg hrangeName]
  by_cases hcm2 : name = cm2Name
  · subst hcm2
    rw [videoOf_update_cm2 hnew]
    by_cases hzero : v = ['0']
    · rw [if_pos ⟨rfl, hzero⟩, if_pos hzero]
    · rw [if_neg fun h => hzero h.2, if_neg hzero]
      rfl
  rw [if_neg fun h => hcm2 h.1]
  by_cases hclen : name = clenName
  · rw [if_pos hclen, hclen, videoOf_update_clen]
  rw [if_neg hclen]
  by_cases hwatch : name = watchid
  · rw [if_pos hwatch, hwatch, videoOf_update_watchid]
  rw [if_neg hwatch]
  by_cases hmime : name = mimeName
  · subst hmime
    have hnone : (videoOf value).mime = [] := by
      rw [videoOf, hnew]
      rfl
    rw [if_pos (show mimeName = ['m', 'i', 'm', 'e'] from rfl), videoOf_update_mime, kindOf]
    split
    · rfl
    · split
      · rfl
      · rw [← hnone]
  rw [if_neg (show ¬ name = ['m', 'i', 'm', 'e'] from hmime)]
  by_cases hmem : name ∈ idNames
  · have hwatched : (value watchid).isSome = true := by
      by_contra hno
      exact hid ⟨hmem, hno⟩
    rw [videoOf_update_watched hmem hwatched]
  · rw [videoOf_update_other]
    have hne : ∀ name' ∈ idNames, name ≠ name' := fun name' hname' heq => hmem (by rw [heq]; exact hname')
    simp only [idNames, List.forall_mem_cons] at hne
    simp only [videoNames, List.mem_cons, List.not_mem_nil, or_false, not_or]
    exact ⟨hne.1, hne.2.1, hwatch, hrangeName, hclen, hitag, hmime, hcm2⟩

end Loop

/-! ## A request -/

/-- The parameters of a request: their texts can be told apart, the names are distinct, and there is one
identifier. -/
structure QueryParams (ps : List Param) : Prop where
  plain : ∀ p ∈ ps, Plain p
  names : (ps.map Prod.fst).Nodup
  ids : ¬ (idName ∈ ps.map Prod.fst ∧ videoIdName ∈ ps.map Prod.fst)

/-- The value of `range`, if there is one, has two numbers. -/
def RangeValid (ps : List Param) : Prop :=
  ∀ v, lookup ps rangeName = some v → (getRanges v).isSome = true

section Request

variable {ps ps' : List Param} {host : Str}

theorem QueryParams.perm (h : QueryParams ps) (hperm : ps.Perm ps') : QueryParams ps' := by
  refine ⟨fun p hp => h.plain p (hperm.mem_iff.mpr hp), (hperm.map _).nodup_iff.mp h.names, ?_⟩
  rintro ⟨hid, hvideo⟩
  exact h.ids ⟨(hperm.map _).mem_iff.mpr hid, (hperm.map _).mem_iff.mpr hvideo⟩

/-- The loop over all parameters. -/
theorem foldlM_videoParam (h : QueryParams ps) (hrange : RangeValid ps) :
    (ps.map paramText).foldlM videoParam Video.new = .ok (videoOf (lookup ps)) := by
  induction ps using List.reverseRecOn with
  | nil => rfl
  | append_singleton ps p ih =>
    have hnames := h.names
    rw [List.map_append, List.map_singleton, List.nodup_append] at hnames
    obtain ⟨hfront, -, hapart⟩ := hnames
    have hnew : p.1 ∉ ps.map Prod.fst := fun hmem => hapart p.1 hmem p.1 List.mem_cons_self rfl
    have hlookup := lookup_concat_new hnew
    have hids : p.1 ∈ idNames → lookup ps idName = none ∧ lookup ps videoIdName = none := by
      intro hmem
      rw [lookup_eq_none, lookup_eq_none]
      have hboth := h.ids
      simp only [List.map_append, List.map_singleton, List.mem_append, List.mem_singleton] at hboth
      rcases List.mem_cons.mp hmem with heq | hmem
      · have hid : idName ∉ ps.map Prod.fst := by
          rw [show idName = p.1 from heq.symm]
          exact hnew
        exact ⟨hid, fun hvideo => hboth ⟨.inr heq.symm, .inl hvideo⟩⟩
      · have heq := List.mem_singleton.mp hmem
        have hvideo : videoIdName ∉ ps.map Prod.fst := by
          rw [show videoIdName = p.1 from heq.symm]
          exact hnew
        exact ⟨fun hid => hboth ⟨.inl hid, .inr heq.symm⟩, hvideo⟩
    have hrest : QueryParams ps := by
      refine ⟨fun q hq => h.plain q (List.mem_append_left [p] hq), hfront, ?_⟩
      rintro ⟨hid, hvideo⟩
      refine h.ids ⟨?_, ?_⟩ <;> rw [List.map_append]
      · exact List.mem_append_left _ hid
      · exact List.mem_append_left _ hvideo
    have hvalid : RangeValid ps := by
      intro v hv
      refine hrange v ?_
      rw [hlookup, Function.update_of_ne, hv]
      intro heq
      rw [heq, lookup_eq_none.mpr hnew] at hv
      cases hv
    have hp : p.1 = rangeName → (getRanges p.2).isSome = true := by
      intro heq
      refine hrange p.2 ?_
      rw [hlookup, heq, Function.update_self]
    rw [List.map_append, List.map_singleton, List.foldlM_append, ih hrest hvalid, hlookup]
    have hstep := videoParam_videoOf (h.plain p (List.mem_append_right ps List.mem_cons_self))
      (lookup_eq_none.mpr hnew) hids hp
    exact (bind_pure _).trans hstep

/-- A `range` without two numbers ends the loop, whatever stands before it. -/
theorem foldlM_videoParam_error {v : Video} {params : List Str} {param : Str} (hmem : param ∈ params)
    (herror : ∀ v, ∃ v', videoParam v param = .error v') :
    ∃ v', params.foldlM videoParam v = .error v' ∧ v'.file = [] := by
  induction params generalizing v with
  | nil => cases hmem
  | cons first params ih =>
    rw [List.foldlM_cons]
    cases hstep : videoParam v first with
    | error v' =>
      have hafter := videoParam_after v first
      rw [hstep] at hafter
      exact ⟨v', rfl, hafter⟩
    | ok v' =>
      rcases List.mem_cons.mp hmem with rfl | hmem
      · obtain ⟨v'', hv''⟩ := herror v
        rw [hv''] at hstep
        cases hstep
      · exact ih hmem

theorem videoParam_range_error {value : Str} (h : Plain (rangeName, value))
    (hrange : getRanges value = none) (v : Video) : ∃ v', videoParam v (paramText (rangeName, value)) = .error v' := by
  have hvalue : value.isEmpty = false := by simpa using h.nonempty
  have hid : ¬ (rangeName ∈ idNames ∧ ¬ v.watchID = true) := fun hid => absurd hid.1 (by decide)
  have hitag : ¬ (rangeName = itagName ∧ value ≠ ['3', '4']) := fun hitag => absurd hitag.1 (by decide)
  refine ⟨{ v with range := true, file := [] }, ?_⟩
  rw [videoParam, stringexplode_paramText h, if_neg (show ¬ rangeName = [] by decide)]
  dsimp only
  rw [hvalue, if_neg Bool.false_ne_true, if_neg hid, if_neg hitag, if_pos rfl, hrange]

/-- What `get_videoid` takes from a request. -/
theorem get_videoid_query (host : Str) (h : QueryParams ps) (hne : ps ≠ []) :
    ∃ v, get_videoid (queryRequest host ps) = some v ∧
      (RangeValid ps → v = (videoOf (lookup ps)).finish) ∧ (¬ RangeValid ps → v.file = []) := by
  obtain ⟨hlength, hlast⟩ := stringexplode_queryRequest host h.plain hne
  have hparams := stringexplode_joinParams h.plain
  have hmap : ps.map paramText ≠ [] := by
    rw [ne_eq, List.map_eq_nil_iff]
    exact hne
  rw [get_videoid]
  dsimp only
  rw [if_pos hlength, hlast, Option.getD_some, hparams, if_neg hmap]
  by_cases hrange : RangeValid ps
  · rw [foldlM_videoParam h hrange]
    exact ⟨_, rfl, fun _ => rfl, fun hnot => absurd hrange hnot⟩
  · obtain ⟨value, hvalue, hnone⟩ :
        ∃ value, lookup ps rangeName = some value ∧ getRanges value = none := by
      simp only [RangeValid, not_forall, Bool.not_eq_true, Option.isSome_eq_false_iff,
        Option.isNone_iff_eq_none] at hrange
      obtain ⟨value, hvalue, hnone⟩ := hrange
      exact ⟨value, hvalue, hnone⟩
    have hmem := (lookup_eq_some_iff h.names).mp hvalue
    obtain ⟨v, hv, hfile⟩ := foldlM_videoParam_error (List.mem_map_of_mem (f := paramText) hmem)
      (videoParam_range_error (h.plain _ hmem) hnone)
    rw [hv]
    exact ⟨v, rfl, fun hvalid => absurd hvalid hrange, fun _ => hfile⟩

/-- A request without parameters has no question mark that splits it. -/
theorem get_videoid_query_nil (hhost : '?' ∉ host) :
    get_videoid (queryRequest host []) = some Video.new.finish := by
  have hmark : queryPlayback = "/videoplayback".toList ++ ['?'] := by decide
  have hsplit : queryRequest host [] = (host ++ "/videoplayback".toList) ++ '?' :: [] := by
    rw [queryRequest, hmark, show joinParams [] = [] from rfl, List.append_nil, List.append_assoc]
  have hfront : ∀ c ∈ host ++ "/videoplayback".toList, c ∉ ['?'] := by
    intro c hc hmem
    rw [List.mem_singleton.mp hmem] at hc
    rcases List.mem_append.mp hc with hc | hc
    · exact hhost hc
    · exact absurd hc (by decide)
  have hne : host ++ "/videoplayback".toList ≠ [] := List.append_ne_nil_of_right_ne_nil _ (by decide)
  rw [get_videoid, hsplit, stringexplode_append hfront hne List.mem_cons_self]
  rfl

/-- The order of the parameters makes no difference for what the names have. -/
theorem QueryParams.lookup_eq (h : QueryParams ps) (hperm : ps.Perm ps') : lookup ps = lookup ps' :=
  funext (lookup_perm h.names hperm)

end Request

end Haarp
