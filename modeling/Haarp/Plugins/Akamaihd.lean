import Haarp.Cache.Writer
import Haarp.Utils.Search

/-!
# The plugin of akamaihd

`hgetmatch2` of `akamaihd.net.cpp`. A file has the last four names of its path, and the domain that
the requests so far have chosen: `dominiotxt` is a variable of the program. There may be less than
four names (`hgetmatch2_isSome_iff`).
-/

namespace Haarp.Akamaihd

open Base

/-- The last four of the results, `none` when there are less. -/
def lastFour (resultado : List Str) : Option Str :=
  match resultado.reverse with
  | d :: c :: b :: a :: _ => some (a ++ '_' :: b ++ '_' :: c ++ '_' :: d)
  | _ => none

/-- `get_filename`; the names of the path are put behind the parts between question marks. -/
def get_filename (url : Str) : Option Str :=
  if (find ['?'] url).isSome then
    let resultado := stringexplode url ['?']
    if resultado.length < 2 then none
    else (resultado[resultado.length - 2]?).bind fun path =>
      lastFour (resultado ++ stringexplode path ['/'])
  else lastFour (stringexplode url ['/'])

/-- The parts of a request that choose a domain; the last one that is found does. -/
def dominios : List (Str × Str) :=
  [("/shockwave/".toList, "GF_akamaihd_city2".toList), ("/farm2/".toList, "GF_akamaihd_farm2".toList),
    ("/slingo/".toList, "GF_akamaihd_slingo".toList), ("dchoc1".toList, "GF_akamaihd_galaxy".toList),
    ("/cooking/".toList, "GF_akamaihd_cheff".toList),
    ("/wow/".toList, "GF_akamaihd_worldofwarcraft".toList),
    ("/d3/".toList, "GF_akamaihd_diablo3".toList)]

/-- The tests of `hgetmatch2` that change `dominiotxt`. -/
def chooseDominio (dominiotxt url : Str) : Str :=
  dominios.foldl (fun dominiotxt d => if (find d.1 url).isSome then d.2 else dominiotxt) dominiotxt

/-- `hgetmatch2`: the answer, and `dominiotxt` after it; `none` when it throws. The members of `r` that
it does not set are those of the argument. -/
def hgetmatch2 (dominiotxt : Str) (r : Resposta) (url : Str) : Option (Resposta × Str) :=
  let r := { r with domain := [], file := [], range_min := 0, range_max := 0 }
  let dominiotxt := chooseDominio dominiotxt url
  if (find ".akamaihd.net".toList url).isSome then
    (get_filename url).map fun file =>
      (if file ≠ [] then { r with file, isMatch := true, domain := dominiotxt }
       else { r with file, isMatch := false }, dominiotxt)
  else some ({ r with isMatch := false }, dominiotxt)

/-! ## Which requests it returns for -/

/-- There are four parts: names of the path, and with a question mark, where the path is the last part
but one, also all the parts between question marks. -/
def NamesFour (url : Str) : Prop :=
  if '?' ∈ url then
    ∃ init path last, parts (fun c => c ∈ ['?']) url = init ++ [path, last] ∧
      4 ≤ (init ++ [path, last]).length + (parts (fun c => c ∈ ['/']) path).length
  else 4 ≤ (parts (fun c => c ∈ ['/']) url).length

/-- The requests that `hgetmatch2` returns for. -/
def Returns (url : Str) : Prop := ".akamaihd.net".toList <:+: url → NamesFour url

theorem lastFour_isSome_iff (resultado : List Str) :
    (lastFour resultado).isSome = true ↔ 4 ≤ resultado.length := by
  rw [← List.length_reverse, lastFour]
  split
  · next hlist =>
    refine iff_of_true rfl ?_
    rw [hlist]
    simp only [List.length_cons]
    omega
  · next hlist =>
    refine iff_of_false Bool.false_ne_true fun hlength => ?_
    match hreverse : resultado.reverse, hlength with
    | d :: c :: b :: a :: rest, _ => exact hlist d c b a rest hreverse

theorem get_filename_isSome_iff (url : Str) : (get_filename url).isSome = true ↔ NamesFour url := by
  have hmark : (find ['?'] url).isSome = true ↔ '?' ∈ url := by
    rw [find_isSome_iff, List.singleton_infix_iff]
  unfold get_filename NamesFour
  by_cases hquestion : '?' ∈ url
  · rw [if_pos (hmark.mpr hquestion), if_pos hquestion]
    dsimp only
    rw [stringexplode_eq_parts]
    generalize parts (fun c => decide (c ∈ ['?'])) url = resultado
    by_cases htwo : resultado.length < 2
    · rw [if_pos htwo]
      refine iff_of_false Bool.false_ne_true ?_
      rintro ⟨init, path, last, rfl, -⟩
      rw [List.length_append, List.length_cons, List.length_cons, List.length_nil] at htwo
      omega
    · obtain ⟨init, path, last, rfl⟩ : ∃ init path last, resultado = init ++ [path, last] := by
        have hlength : (resultado.drop (resultado.length - 2)).length = 2 := by
          rw [List.length_drop]
          omega
        obtain ⟨path, last, hdrop⟩ := List.length_eq_two.mp hlength
        exact ⟨resultado.take (resultado.length - 2), path, last, by rw [← hdrop, List.take_append_drop]⟩
      have hpath : (init ++ [path, last])[(init ++ [path, last]).length - 2]? = some path := by
        simp
      rw [if_neg htwo, hpath, Option.bind_some, lastFour_isSome_iff, List.length_append,
        stringexplode_eq_parts]
      constructor
      · exact fun h => ⟨init, path, last, rfl, h⟩
      · rintro ⟨init', path', last', heq, h⟩
        obtain ⟨rfl, hlast⟩ := List.append_inj' heq rfl
        cases hlast
        exact h
  · rw [if_neg (mt hmark.mp hquestion), if_neg hquestion, lastFour_isSome_iff, stringexplode_eq_parts]

/-- **When the plugin returns.** -/
theorem hgetmatch2_isSome_iff (dominiotxt : Str) (r : Resposta) (url : Str) :
    (hgetmatch2 dominiotxt r url).isSome = true ↔ Returns url := by
  unfold hgetmatch2 Returns
  dsimp only
  by_cases hnet : (find ".akamaihd.net".toList url).isSome = true
  · rw [if_pos hnet, Option.isSome_map, get_filename_isSome_iff,
      forall_prop_of_true (find_isSome_iff.mp hnet)]
  · rw [if_neg hnet]
    exact iff_of_true rfl fun h => absurd (find_isSome_iff.mpr h) hnet

end Haarp.Akamaihd
