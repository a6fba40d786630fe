import Haarp.Base.Replace
import Haarp.Utils.Search

/-!
# Replacing in place

`SearchReplace` and `SearchReplaceAny` as they are written: the loop edits the text that it scans, and
the scan goes on behind what was put in. The text behind that place becomes shorter with every turn,
so the loop ends, and what it leaves is `replaceAll` (`searchReplace_replaceAll`). Elsewhere
`searchReplace` stands for `SearchReplace` (`SearchReplace_eq`).
-/

namespace Haarp

open Base

/-- `str.find(needle, pos)` -/
def findFrom (needle : Str) (pos : Nat) (str : Str) : Option Nat :=
  if pos ≤ str.length then (find needle (str.drop pos)).map (pos + ·) else none

/-- The loop of both functions: the number of replacements and the new `source`, if `fuel` turns are
enough. -/
def replaceLoop (search replace : Str) : Nat → Nat → Option Nat → Str → Option (Nat × Str)
  | _, numberReplace, none, source => some (numberReplace, source)
  | 0, _, some _, _ => none
  | fuel + 1, numberReplace, some position, source =>
    let source := source.take position ++ replace ++ source.drop (position + search.length)
    replaceLoop search replace fuel (numberReplace + 1)
      (findFrom search (position + replace.length) source) source

/-- `SearchReplaceAny` -/
def SearchReplaceAny (fuel : Nat) (source search replace : Str) : Option (Int × Str) :=
  (replaceLoop search replace fuel 0 (find search source) source).map fun (n, source) => (n, source)

/-- `SearchReplace` -/
def SearchReplace (fuel : Nat) (source search replace : Str) : Option (Int × Str) :=
  let position := find search source
  if replace.length = 0 then some (-1, source)
  else
    (replaceLoop search replace fuel 0 position source).map fun (n, source) => (n, source)

variable {search replace : Str}

/-- A search from behind a part of the text. -/
theorem findFrom_append (needle done rest : Str) :
    findFrom needle done.length (done ++ rest) = (find needle rest).map (done.length + ·) := by
  rw [findFrom, if_pos (by simp), List.drop_left]

/-- Before the place that is found, the text does not begin with what is searched for. -/
theorem not_prefix_of_find {needle str : Str} {position k : Nat} (h : find needle str = some position)
    (hk : k < position) : ¬ needle <+: str.drop k := by
  induction str generalizing position k with
  | nil =>
    obtain ⟨-, rfl⟩ : needle = [] ∧ 0 = position := by simpa [find] using h
    exact absurd hk (Nat.not_lt_zero k)
  | cons c str ih =>
    rw [find] at h
    split at h
    · cases h
      exact absurd hk (Nat.not_lt_zero k)
    · next hleads =>
      obtain ⟨p, hp, rfl⟩ := Option.map_eq_some_iff.mp h
      cases k with
      | zero => exact fun hprefix => hleads (List.isPrefixOf_iff_prefix.mpr hprefix)
      | succ k => exact ih hp (Nat.lt_of_succ_lt_succ hk)

/-- The replacements of a derivation are those of `replaceAll`. -/
theorem Replaced.eq_replaceAll {n : Nat} {source out : Str} (hsearch : search ≠ [])
    (h : Replaced search replace n source out) : replaceAll search replace source = (n, out) := by
  induction h with
  | done no => exact replaceAll_of_not_infix no
  | @next n before source out first rest ih =>
    have hfirst : ∀ k < before.length, ¬ search <+: (before ++ (search ++ source)).drop k := by
      intro k hk
      have h := not_prefix_of_find first hk
      rwa [List.append_assoc] at h
    rw [List.append_assoc, replaceAll_first hfirst, replaceAll_append hsearch, ih, List.append_assoc]

/-- The loop, on the text `rest` behind what it has done: `fuel` turns are enough when there are more
than characters. -/
theorem replaceLoop_eq {fuel n count : Nat} {done rest out : Str} (hsearch : search ≠ [])
    (h : Replaced search replace n rest out) (hfuel : rest.length < fuel) :
    replaceLoop search replace fuel count ((find search rest).map (done.length + ·)) (done ++ rest) =
      some (count + n, done ++ out) := by
  induction h generalizing fuel count done with
  | done no =>
    rw [find_eq_none no, Option.map_none]
    cases fuel <;> rfl
  | @next n before source out first rest ih =>
    obtain ⟨fuel, rfl⟩ : ∃ k, fuel = k + 1 := ⟨fuel - 1, by omega⟩
    have hpos := List.length_pos_iff.mpr hsearch
    simp only [List.length_append] at hfuel
    have htake : (done ++ (before ++ search ++ source)).take (done.length + before.length) =
        done ++ before := by
      rw [← List.length_append, List.append_assoc, ← List.append_assoc, List.take_left]
    have hdrop : (done ++ (before ++ search ++ source)).drop
        (done.length + before.length + search.length) = source := by
      have hassoc : done ++ (before ++ search ++ source) = (done ++ before ++ search) ++ source := by
        simp only [List.append_assoc]
      rw [hassoc, ← List.length_append, ← List.length_append, List.drop_left]
    have hfind : findFrom search (done.length + before.length + replace.length)
        (done ++ before ++ replace ++ source) =
        (find search source).map ((done ++ before ++ replace).length + ·) := by
      rw [← List.length_append, ← List.length_append, findFrom_append]
    rw [first, Option.map_some, replaceLoop]
    simp only [htake, hdrop, hfind]
    rw [ih (by omega)]
    simp only [List.append_assoc, Nat.add_assoc, Nat.add_comm 1]

theorem replaceLoop_replaceAll (hsearch : search ≠ []) {fuel : Nat} {source : Str}
    (hfuel : source.length < fuel) :
    replaceLoop search replace fuel 0 (find search source) source =
      some (replaceAll search replace source) := by
  have hreplaced := @searchReplaceLoop_spec _ replace hsearch _ _ (Nat.lt_succ_self source.length)
  have hloop : replaceLoop search replace fuel 0 _ ([] ++ source) = _ :=
    replaceLoop_eq hsearch hreplaced hfuel
  simp only [List.length_nil, Nat.zero_add, Option.map_id', List.nil_append] at hloop
  rw [hloop, hreplaced.eq_replaceAll hsearch]

/-- `searchReplace` is what `SearchReplace` leaves, if it has the turns for it. -/
theorem SearchReplace_eq (hsearch : search ≠ []) {fuel : Nat} {source : Str}
    (hfuel : source.length < fuel) :
    SearchReplace fuel source search replace = some (searchReplace source search replace) := by
  unfold SearchReplace searchReplace
  by_cases hreplace : replace = []
  · simp [hreplace]
  · have hreplaced := @searchReplaceLoop_spec _ replace hsearch _ _ (Nat.lt_succ_self source.length)
    rw [if_neg (by simpa using hreplace), if_neg (by simpa using hreplace),
      replaceLoop_replaceAll hsearch hfuel, hreplaced.eq_replaceAll hsearch]
    rfl

/-- **Replacing everywhere.** Both functions end, with at most one turn for each character, and leave
the text in which all occurrences from left to right are replaced; the value is their number, which
accounts for the new length. -/
theorem searchReplace_replaceAll (hsearch : search ≠ []) (source replace : Str) :
    (∀ fuel, source.length < fuel → SearchReplaceAny fuel source search replace =
      some (((replaceAll search replace source).1 : Int), (replaceAll search replace source).2)) ∧
    (replace ≠ [] → ∀ fuel, source.length < fuel → SearchReplace fuel source search replace =
      some (((replaceAll search replace source).1 : Int), (replaceAll search replace source).2)) ∧
    ((replaceAll search replace source).2.length : Int) = source.length +
      (replaceAll search replace source).1 * ((replace.length : Int) - search.length) := by
  refine ⟨fun fuel hfuel => ?_, fun hreplace fuel hfuel => ?_, ?_⟩
  · rw [SearchReplaceAny, replaceLoop_replaceAll hsearch hfuel]
    rfl
  · rw [SearchReplace, if_neg (by simpa using hreplace), replaceLoop_replaceAll hsearch hfuel]
    rfl
  · have hreplaced := @searchReplaceLoop_spec _ replace hsearch _ _ (Nat.lt_succ_self source.length)
    have hlength := hreplaced.length
    rw [hreplaced.eq_replaceAll hsearch]
    dsimp only
    rw [Int.mul_sub]
    omega

/-- The replacement has the text in it that is searched for. -/
theorem searchReplace_replaceAll_aa :
    SearchReplace 4 ['a', 'b', 'a'] ['a'] ['a', 'a'] = some (2, ['a', 'a', 'b', 'a', 'a']) :=
  (searchReplace_replaceAll (List.cons_ne_nil 'a' []) ['a', 'b', 'a'] ['a', 'a']).2.1
    (List.cons_ne_nil _ _) 4 (by decide)

end Haarp
