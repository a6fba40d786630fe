import Haarp.Plugins.Akamaihd
import Haarp.Plugins.Netflix
import Haarp.Plugins.Youtube

/-!
# Requests that kill the process

A plugin that takes a part of a request which is not there throws, and nothing catches that.
`hgetmatch2_returns_iff` says for each plugin which requests these are.
-/

namespace Haarp

open Base

/-! ## Youtube -/

/-- There are several parts between question marks, and the last one is ampersands alone. -/
def BareQuery (url : Str) : Prop :=
  ∃ init query, parts (fun c => c ∈ ['?']) url = init ++ [query] ∧ init ≠ [] ∧ ∀ c ∈ query, c = '&'

/-- There are several parts between slashes, and the last one is ampersands and question marks alone. -/
def BareName (url : Str) : Prop :=
  ∃ init name, parts (fun c => c ∈ ['/']) url = init ++ [name] ∧ init ≠ [] ∧
    ∀ c ∈ name, c = '&' ∨ c = '?'

/-- The requests that the plugin of youtube returns for. -/
def YoutubeReturns (url : Str) : Prop :=
  if queryPlayback <:+: url then servesQuery url = true → ¬ BareQuery url
  else pathPlayback <:+: url ∨ (".com/watch?".toList <:+: url → ¬ BareName url)

/-- Both loops over the parameters go wrong when there is none behind the last of several separators. -/
theorem bareLast_iff (l : List Str) :
    1 < l.length ∧ stringexplode (l.getLast?.getD []) ['&'] = [] ↔
      ∃ init query, l = init ++ [query] ∧ init ≠ [] ∧ ∀ c ∈ query, c = '&' := by
  have hnone : ∀ query : Str, stringexplode query ['&'] = [] ↔ ∀ c ∈ query, c = '&' := by
    intro query
    rw [stringexplode_eq_nil_iff]
    simp only [List.mem_singleton]
  constructor
  · rintro ⟨hlength, hbare⟩
    have hne : l ≠ [] := List.ne_nil_of_length_pos (Nat.lt_of_succ_lt hlength)
    refine ⟨l.dropLast, l.getLast hne, (List.dropLast_concat_getLast hne).symm, ?_, ?_⟩
    · rw [← List.length_pos_iff, List.length_dropLast]
      omega
    · rw [List.getLast?_eq_some_getLast hne] at hbare
      exact (hnone _).mp hbare
  · rintro ⟨init, query, rfl, hinit, hbare⟩
    have hpos := List.length_pos_iff.mpr hinit
    rw [List.length_append, List.length_singleton, List.getLast?_concat]
    exact ⟨Nat.lt_add_of_pos_left hpos, (hnone _).mpr hbare⟩

theorem get_videoid_isSome_iff (url : Str) : (get_videoid url).isSome = true ↔ ¬ BareQuery url := by
  have hbare := bareLast_iff (stringexplode url ['?'])
  rw [stringexplode_eq_parts url] at hbare
  rw [BareQuery, ← hbare, get_videoid]
  dsimp only
  rw [stringexplode_eq_parts url]
  by_cases hlength : (parts (fun c => decide (c ∈ ['?'])) url).length > 1
  · rw [if_pos hlength, and_iff_right hlength]
    by_cases hparams : stringexplode ((parts (fun c => decide (c ∈ ['?'])) url).getLast?.getD []) ['&'] = []
    · rw [if_pos hparams]
      exact iff_of_false Bool.false_ne_true (not_not_intro hparams)
    · rw [if_neg hparams]
      refine iff_of_true ?_ hparams
      split <;> rfl
  · rw [if_neg hlength]
    exact iff_of_true rfl fun h => hlength h.1

/-- `SearchReplace(url, "?", "&")` -/
theorem searchReplace_question (url : Str) :
    (searchReplace url ['?'] ['&']).2 = url.map fun c => if c = '?' then '&' else c := by
  obtain ⟨n, out, heq, hreplaced⟩ :=
    searchReplace_spec (List.cons_ne_nil '?' []) (List.cons_ne_nil '&' []) url
  rw [heq, hreplaced.flatMap, List.map_eq_flatMap]
  refine List.flatMap_congr fun c _ => ?_
  split <;> rfl

theorem get_watchID_isSome_iff (url : Str) : (get_watchID url).isSome = true ↔ ¬ BareName url := by
  have hsplit : stringexplode (searchReplace url ['?'] ['&']).2 ['/'] =
      (parts (fun c => c ∈ ['/']) url).map (List.map fun c => if c = '?' then '&' else c) := by
    rw [searchReplace_question, stringexplode_eq_parts]
    refine parts_map _ (fun c => ?_) url
    by_cases hc : c = '?'
    · rw [if_pos hc, hc]
      rfl
    · rw [if_neg hc]
  have hbare := bareLast_iff (stringexplode (searchReplace url ['?'] ['&']).2 ['/'])
  have hname : BareName url ↔ ∃ init query,
      stringexplode (searchReplace url ['?'] ['&']).2 ['/'] = init ++ [query] ∧ init ≠ [] ∧
        ∀ c ∈ query, c = '&' := by
    rw [hsplit, BareName]
    constructor
    · rintro ⟨init, name, hparts, hinit, hname⟩
      refine ⟨init.map _, _, by rw [hparts, List.map_append, List.map_singleton], by simpa using hinit, ?_⟩
      intro c hc
      obtain ⟨d, hd, rfl⟩ := List.mem_map.mp hc
      rcases hname d hd with rfl | rfl <;> rfl
    · rintro ⟨init', query, hparts, hinit, hquery⟩
      obtain ⟨init, last, hsplit', rfl, hlast⟩ := List.map_eq_append_iff.mp hparts
      obtain ⟨name, rfl, rfl⟩ := List.map_eq_singleton_iff.mp hlast
      refine ⟨init, name, hsplit', by simpa using hinit, fun c hc => ?_⟩
      have heq := hquery _ (List.mem_map_of_mem hc)
      by_cases hmark : c = '?'
      · exact .inr hmark
      · exact .inl (by rwa [if_neg hmark] at heq)
  rw [hname, ← hbare, get_watchID]
  dsimp only
  generalize stringexplode (searchReplace url ['?'] ['&']).2 ['/'] = resultado
  by_cases hlength : resultado.length > 1
  · rw [if_pos hlength, and_iff_right hlength]
    by_cases hparams : stringexplode (resultado.getLast?.getD []) ['&'] = []
    · rw [if_pos hparams]
      exact iff_of_false Bool.false_ne_true (not_not_intro hparams)
    · rw [if_neg hparams]
      exact iff_of_true rfl hparams
  · rw [if_neg hlength]
    exact iff_of_true rfl fun h => hlength h.1

theorem hgetmatch2_isSome_iff (url : Str) : (hgetmatch2 url).isSome = true ↔ YoutubeReturns url := by
  unfold hgetmatch2 YoutubeReturns
  by_cases hquery : (find queryPlayback url).isSome = true
  · rw [if_pos hquery, if_pos (find_isSome_iff.mp hquery)]
    by_cases hserves : servesQuery url = true
    · rw [if_pos hserves, Option.isSome_map, get_videoid_isSome_iff, forall_prop_of_true hserves]
    · rw [if_neg hserves]
      exact iff_of_true rfl fun h => absurd h hserves
  · rw [if_neg hquery, if_neg (mt find_isSome_iff.mpr hquery)]
    by_cases hpath : (find pathPlayback url).isSome = true
    · rw [if_pos hpath]
      exact iff_of_true rfl (.inl (find_isSome_iff.mp hpath))
    · rw [if_neg hpath, or_iff_right (mt find_isSome_iff.mpr hpath)]
      by_cases hwatch : (find ".com/watch?".toList url).isSome = true
      · rw [if_pos hwatch, Option.isSome_map, get_watchID_isSome_iff,
          forall_prop_of_true (find_isSome_iff.mp hwatch)]
      · rw [if_neg hwatch]
        exact iff_of_true rfl fun h => absurd (find_isSome_iff.mpr h) hwatch

/-! ## The three plugins -/

/-- **Plugins return** for all requests but these. -/
theorem hgetmatch2_returns_iff (dominiotxt : Str) (r : Resposta) (url : Str) :
    ((hgetmatch2 url).isSome = true ↔ YoutubeReturns url) ∧
    ((Netflix.hgetmatch2 r url).isSome = true ↔ Netflix.Returns url) ∧
    ((Akamaihd.hgetmatch2 dominiotxt r url).isSome = true ↔ Akamaihd.Returns url) :=
  ⟨hgetmatch2_isSome_iff url, Netflix.hgetmatch2_isSome_iff r url,
    Akamaihd.hgetmatch2_isSome_iff dominiotxt r url⟩

/-- A request without parameters, one without a range, and one of three names. -/
theorem not_hgetmatch2_returns :
    hgetmatch2 "v.youtube.com/videoplayback?&".toList = none ∧
    Netflix.hgetmatch2 unmatched "netflix.com/range/1-2".toList = none ∧
    Akamaihd.hgetmatch2 "GAMESF_akamaihd".toList unmatched "a.akamaihd.net/b/c".toList = none := by
  decide +kernel

end Haarp
