import Haarp.Cache.Lock
import Haarp.Utils.Search

/-!
# The plugin of netflix

`hgetmatch2` of `netflix.com.cpp`. It takes the parts of a request by their numbers, and does not ask
how many there are: `hgetmatch2_isSome_iff` says for which requests it returns.
-/

namespace Haarp.Netflix

open Base

/-- `getNID`; `none` when `at` throws. -/
def getNID (url : Str) : Option Str :=
  (stringexplode url ['?']).head?.bind fun url => (stringexplode url ['/']).getLast?

/-- The loop of `getNIDrange` over the parameters. `lstr1` is not cleared behind a parameter without a
value, so that the next ones are put behind it. -/
def getNIDrangeLoop (lstr1 : List Str) (nameID code : Str) : List Str → Str × Str
  | [] => (nameID, code)
  | param :: lstr =>
    match lstr1 ++ stringexplode param ['='] with
    | [name, value] =>
      if name = ['w', 'a', 't', 'c', 'h', 'i', 'd'] then getNIDrangeLoop [] value code lstr
      else if name = ['o'] then getNIDrangeLoop [] nameID value lstr
      else getNIDrangeLoop [] nameID code lstr
    | lstr1 => getNIDrangeLoop lstr1 nameID code lstr

/-- `getNIDrange`: the name, and the range; `none` when `at` throws. -/
def getNIDrange (url : Str) : Option (Str × Int × Int) :=
  match stringexplode url ['?'] with
  | s1 :: s2 :: _ =>
    (stringexplode s1 ['/']).getLast?.bind fun last =>
      match stringexplode last ['-'] with
      | ra :: rb :: _ =>
        let (nameID, code) := getNIDrangeLoop [] [] [] (stringexplode s2 ['&'])
        some (if nameID ≠ [] ∧ code ≠ [] then nameID ++ DELIM ++ code else [], atoll ra, atoll rb)
      | _ => none
  | _ => none

/-- `\/watch\/[0-9]+` -/
def watchPath : Regex Char := .seq (.word "/watch/".toList) (.plus digit)

/-- `hgetmatch2`; `none` when it throws. The members of `r` that it does not set are those of the
argument. -/
def hgetmatch2 (r : Resposta) (url : Str) : Option Resposta :=
  let r := { r with domain := [], file := [], range_min := 0, range_max := 0 }
  if regexMatch watchPath false url ≠ [] then
    (getNID url).map fun file => { r with file, domain := "NetflixID".toList, isMatch := false }
  else if (find "wwwplayer".toList url).isSome ∨ (find "cadmium-playercore".toList url).isSome then
    some { r with file := "NetflixjsID".toList, domain := "NetflixjsID".toList, isMatch := false }
  else if (find "/range/".toList url).isSome then
    (getNIDrange url).map fun (file, range_min, range_max) =>
      { r with file, range_min, range_max, domain := netflix
               isMatch := decide (file ≠ [] ∧ range_min ≠ 0) }
  else some { r with isMatch := false }

/-! ## Which requests it returns for -/

/-- The first part before a question mark has more than slashes. -/
def NamesPath (url : Str) : Prop :=
  ∃ first rest, parts (fun c => c ∈ ['?']) url = first :: rest ∧ ∃ c ∈ first, c ≠ '/'

/-- There are two parts between question marks, and the last name in the path of the first one has two
parts between hyphens. -/
def NamesRange (url : Str) : Prop :=
  ∃ path query rest, parts (fun c => c ∈ ['?']) url = path :: query :: rest ∧
    ∃ dirs name, parts (fun c => c ∈ ['/']) path = dirs ++ [name] ∧
      2 ≤ (parts (fun c => c ∈ ['-']) name).length

/-- The requests that `hgetmatch2` returns for. -/
def Returns (url : Str) : Prop :=
  if regexMatch watchPath false url ≠ [] then NamesPath url
  else "wwwplayer".toList <:+: url ∨ "cadmium-playercore".toList <:+: url ∨
    ("/range/".toList <:+: url → NamesRange url)

/-- There is a last part when the text has more than separators. -/
theorem getLast?_isSome_iff {separator : Char} (text : Str) :
    (stringexplode text [separator]).getLast?.isSome = true ↔ ∃ c ∈ text, c ≠ separator := by
  have hnone : parts (fun c => decide (c ∈ [separator])) text = [] ↔
      ∀ c ∈ text, decide (c ∈ [separator]) = true := parts_eq_nil_iff
  simp only [List.mem_singleton, decide_eq_true_eq] at hnone
  rw [List.getLast?_isSome, stringexplode_eq_parts, ne_eq]
  simp only [List.mem_singleton, hnone]
  push Not
  rfl

theorem exists_cons_cons {α : Type*} {l : List α} (h : 2 ≤ l.length) : ∃ a b rest, l = a :: b :: rest := by
  obtain ⟨a, l, rfl⟩ := List.exists_cons_of_length_pos (Nat.lt_of_succ_lt h)
  obtain ⟨b, rest, rfl⟩ := List.exists_cons_of_length_pos (Nat.lt_of_succ_lt_succ h)
  exact ⟨a, b, rest, rfl⟩

theorem getNID_isSome_iff (url : Str) : (getNID url).isSome = true ↔ NamesPath url := by
  unfold getNID NamesPath
  rw [stringexplode_eq_parts]
  cases parts (fun c => decide (c ∈ ['?'])) url with
  | nil => simp
  | cons first rest =>
    rw [List.head?_cons, Option.bind_some, getLast?_isSome_iff]
    constructor
    · exact fun h => ⟨first, rest, rfl, h⟩
    · rintro ⟨_, _, heq, h⟩
      cases heq
      exact h

theorem getNIDrange_isSome_iff (url : Str) : (getNIDrange url).isSome = true ↔ NamesRange url := by
  unfold getNIDrange NamesRange
  rw [stringexplode_eq_parts]
  -- the parts between question marks
  split
  · next s1 s2 rest hurl =>
    rw [stringexplode_eq_parts]
    constructor
    · intro h
      obtain ⟨last, hlast⟩ : ∃ last, (parts (fun c => decide (c ∈ ['/'])) s1).getLast? = some last := by
        cases hlast : (parts (fun c => decide (c ∈ ['/'])) s1).getLast? with
        | none =>
          rw [hlast] at h
          cases h
        | some last => exact ⟨last, rfl⟩
      obtain ⟨dirs, hdirs⟩ := List.getLast?_eq_some_iff.mp hlast
      refine ⟨s1, s2, rest, hurl, dirs, last, hdirs, ?_⟩
      rw [hlast, Option.bind_some, stringexplode_eq_parts] at h
      split at h
      · next hname =>
        rw [hname, List.length_cons, List.length_cons]
        omega
      · cases h
    · rintro ⟨_, _, _, heq, dirs, last, hdirs, hlength⟩
      cases hurl.symm.trans heq
      rw [hdirs, List.getLast?_append_of_ne_nil _ (List.cons_ne_nil last []), List.getLast?_singleton,
        Option.bind_some, stringexplode_eq_parts]
      split
      · rfl
      · next hname =>
        obtain ⟨ra, rb, rest, hparts⟩ := exists_cons_cons hlength
        exact absurd hparts (hname ra rb rest)
  · next hurl =>
    refine iff_of_false Bool.false_ne_true ?_
    rintro ⟨path, query, rest, heq, -⟩
    exact hurl path query rest heq

/-- **When the plugin returns.** -/
theorem hgetmatch2_isSome_iff (r : Resposta) (url : Str) :
    (hgetmatch2 r url).isSome = true ↔ Returns url := by
  unfold hgetmatch2 Returns
  dsimp only
  by_cases hwatch : regexMatch watchPath false url ≠ []
  · rw [if_pos hwatch, if_pos hwatch, Option.isSome_map, getNID_isSome_iff]
  · rw [if_neg hwatch, if_neg hwatch]
    by_cases hplayer : (find "wwwplayer".toList url).isSome = true ∨
        (find "cadmium-playercore".toList url).isSome = true
    · rw [if_pos hplayer]
      rw [find_isSome_iff, find_isSome_iff] at hplayer
      exact iff_of_true rfl (or_assoc.mp (.inl hplayer))
    · rw [if_neg hplayer]
      rw [find_isSome_iff, find_isSome_iff, not_or] at hplayer
      rw [or_iff_right hplayer.1, or_iff_right hplayer.2]
      by_cases hrange : (find "/range/".toList url).isSome = true
      · rw [if_pos hrange, Option.isSome_map, getNIDrange_isSome_iff,
          forall_prop_of_true (find_isSome_iff.mp hrange)]
      · rw [if_neg hrange]
        exact iff_of_true rfl fun h => absurd (find_isSome_iff.mpr h) hrange

end Haarp.Netflix
