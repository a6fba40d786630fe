import Mathlib.Data.List.Perm.Basic
import Mathlib.Data.Int.Interval
import Mathlib.Order.Interval.Finset.Basic
import Mathlib.Tactic.Linarith

/-!
# Lists of closed integer intervals

An interval is any value `x` with two bounds `lo x` and `hi x`; it holds the integers from `lo x` to
`hi x`. The bounds are parameters, so that one record can be read as several intervals.

* `covered`: the integers held by some interval of a list; `Apart`: two intervals that share none.
* `Tiles s l e`: the list starts at `s`, each interval starts where the previous one ends, and the
  last one ends just before `e`.
* `span`: the number of integers the intervals of a list hold, counted with repetition.
  `span_le_of_apart`: pairwise apart intervals inside `[0, m)` hold at most `m` integers.
-/

namespace Haarp.Base

section Intervals

variable {α : Type*} (lo hi : α → ℤ)

/-- The integers held by some interval of the list. -/
def covered (l : List α) : Set ℤ := {n | ∃ x ∈ l, lo x ≤ n ∧ n ≤ hi x}

/-- The two intervals share no integer. -/
def Apart (x y : α) : Prop := hi x < lo y ∨ hi y < lo x

/-- The intervals follow one another without a gap from `s` up to `e` (exclusive). -/
def Tiles : ℤ → List α → ℤ → Prop
  | s, [], e => s = e
  | s, x :: l, e => lo x = s ∧ lo x ≤ hi x ∧ Tiles (hi x + 1) l e

/-- The sum of the lengths of the intervals. -/
def span (l : List α) : ℤ := (l.map fun x => hi x - lo x + 1).sum

variable {lo hi}

/-! ## Coverage -/

@[simp] theorem mem_covered {l : List α} {n : ℤ} :
    n ∈ covered lo hi l ↔ ∃ x ∈ l, lo x ≤ n ∧ n ≤ hi x := Iff.rfl

theorem covered_nil : covered lo hi [] = ∅ := by
  ext n; simp

theorem mem_covered_cons {x : α} {l : List α} {n : ℤ} :
    n ∈ covered lo hi (x :: l) ↔ (lo x ≤ n ∧ n ≤ hi x) ∨ n ∈ covered lo hi l := by
  simp

theorem covered_perm {l l' : List α} (h : l.Perm l') : covered lo hi l = covered lo hi l' := by
  ext n
  simp only [mem_covered, h.mem_iff]

/-! ## Apartness -/

instance : Std.Symm (Apart lo hi) where
  symm _ _ h := h.elim Or.inr Or.inl

instance (x y : α) : Decidable (Apart lo hi x y) := inferInstanceAs (Decidable (_ ∨ _))

theorem pairwise_apart_perm {l l' : List α} (h : l.Perm l') :
    l.Pairwise (Apart lo hi) ↔ l'.Pairwise (Apart lo hi) :=
  h.pairwise_iff fun h => Std.Symm.symm _ _ h

/-- Pairwise apart intervals have at most one that holds a given integer. -/
theorem eq_of_mem_apart {l : List α} (h : l.Pairwise (Apart lo hi)) {x y : α} (hx : x ∈ l)
    (hy : y ∈ l) {n : ℤ} (hxn : lo x ≤ n ∧ n ≤ hi x) (hyn : lo y ≤ n ∧ n ≤ hi y) : x = y := by
  by_contra hne
  rcases h.forall hx hy hne with h | h <;> omega

/-- Intervals sorted by their lower bounds and pairwise apart lie one after the other. -/
theorem sorted_apart {l : List α} (hs : l.Pairwise fun x y => lo x ≤ lo y)
    (hd : l.Pairwise (Apart lo hi)) (hne : ∀ x ∈ l, lo x ≤ hi x) :
    l.Pairwise fun x y => hi x < lo y := by
  refine (hs.and hd).imp_of_mem fun {x y} _ hy h => ?_
  have := hne y hy
  rcases h with ⟨hle, h | h⟩ <;> omega

/-! ## Tilings -/

theorem Tiles.append {l l' : List α} {s m e : ℤ} (h : Tiles lo hi s l m) (h' : Tiles lo hi m l' e) :
    Tiles lo hi s (l ++ l') e := by
  induction l generalizing s with
  | nil => cases h; exact h'
  | cons x l ih => exact ⟨h.1, h.2.1, ih h.2.2⟩

theorem Tiles.split {l l' : List α} {s e : ℤ} (h : Tiles lo hi s (l ++ l') e) :
    ∃ m, Tiles lo hi s l m ∧ Tiles lo hi m l' e := by
  induction l generalizing s with
  | nil => exact ⟨s, rfl, h⟩
  | cons x l ih =>
    obtain ⟨m, hl, hl'⟩ := ih h.2.2
    exact ⟨m, ⟨h.1, h.2.1, hl⟩, hl'⟩

theorem Tiles.snoc {l : List α} {s m : ℤ} {x : α} (h : Tiles lo hi s l m) (hx : lo x = m)
    (hle : lo x ≤ hi x) : Tiles lo hi s (l ++ [x]) (hi x + 1) :=
  h.append ⟨hx, hle, rfl⟩

theorem Tiles.le {l : List α} {s e : ℤ} (h : Tiles lo hi s l e) : s ≤ e := by
  induction l generalizing s with
  | nil => exact Int.le_of_eq h
  | cons x l ih =>
    have := ih h.2.2
    have := h.1
    have := h.2.1
    omega

/-- A tiling holds exactly the integers between its two ends. -/
theorem Tiles.mem_covered_iff {l : List α} {s e : ℤ} (h : Tiles lo hi s l e) {n : ℤ} :
    n ∈ covered lo hi l ↔ s ≤ n ∧ n < e := by
  induction l generalizing s with
  | nil =>
    cases h
    simp only [covered_nil, Set.mem_empty_iff_false, false_iff]
    omega
  | cons x l ih =>
    obtain ⟨h₁, h₂, h₃⟩ := h
    have := h₃.le
    rw [mem_covered_cons, ih h₃]
    omega

theorem Tiles.span_eq {l : List α} {s e : ℤ} (h : Tiles lo hi s l e) : span lo hi l = e - s := by
  induction l generalizing s with
  | nil => cases h; simp [span]
  | cons x l ih =>
    have := ih h.2.2
    have := h.1
    simp only [span, List.map_cons, List.sum_cons] at this ⊢
    unfold span at ih
    rw [ih h.2.2]
    omega

/-- The bounds of the intervals of a tiling lie between its two ends. -/
theorem Tiles.bounds {l : List α} {s e : ℤ} (h : Tiles lo hi s l e) {x : α} (hx : x ∈ l) :
    s ≤ lo x ∧ lo x ≤ hi x ∧ hi x < e := by
  induction l generalizing s with
  | nil => cases hx
  | cons y l ih =>
    obtain ⟨h₁, h₂, h₃⟩ := h
    have := h₃.le
    rcases List.mem_cons.mp hx with rfl | hx
    · exact ⟨h₁.ge, h₂, by omega⟩
    · obtain ⟨h₄, h₅, h₆⟩ := ih h₃ hx
      exact ⟨by omega, h₅, h₆⟩

/-- A tiling, read block by block. -/
theorem tiles_cons_iff {x : α} {l : List α} {s e : ℤ} :
    Tiles lo hi s (x :: l) e ↔ lo x = s ∧ (∀ y ∈ x :: l, lo y ≤ hi y) ∧
      (x :: l).IsChain (fun y z => lo z = hi y + 1) ∧ ∃ y ∈ (x :: l).getLast?, hi y + 1 = e := by
  induction l generalizing x s with
  | nil => simp [Tiles]
  | cons z l ih =>
    rw [Tiles, ih]
    simp only [List.forall_mem_cons, List.isChain_cons_cons, List.getLast?_cons_cons]
    tauto

/-- Only one end fits a tiling. -/
theorem Tiles.end_unique {l : List α} {s e e' : ℤ} (h : Tiles lo hi s l e) (h' : Tiles lo hi s l e') :
    e = e' := by
  have := h.span_eq
  have := h'.span_eq
  omega

/-! ## Total length -/

@[simp] theorem span_nil : span lo hi ([] : List α) = 0 := rfl

@[simp] theorem span_cons (x : α) (l : List α) :
    span lo hi (x :: l) = (hi x - lo x + 1) + span lo hi l := by simp [span]

theorem span_perm {l l' : List α} (h : l.Perm l') : span lo hi l = span lo hi l' :=
  (h.map _).sum_eq

/-- The integers of pairwise apart intervals, as a finite set, number `span`. -/
theorem exists_finset_span {l : List α} (hd : l.Pairwise (Apart lo hi))
    (hne : ∀ x ∈ l, lo x ≤ hi x) :
    ∃ F : Finset ℤ, (∀ n, n ∈ F ↔ n ∈ covered lo hi l) ∧ (F.card : ℤ) = span lo hi l := by
  induction l with
  | nil => exact ⟨∅, by simp, by simp⟩
  | cons x l ih =>
    rw [List.pairwise_cons] at hd
    obtain ⟨F, hF, hcard⟩ := ih hd.2 fun y hy => hne y (List.mem_cons_of_mem x hy)
    have hdisj : Disjoint (Finset.Icc (lo x) (hi x)) F := by
      rw [Finset.disjoint_left]
      intro n hn hnF
      rw [Finset.mem_Icc] at hn
      obtain ⟨y, hy, hyn⟩ := (hF n).mp hnF
      rcases hd.1 y hy with h | h <;> omega
    refine ⟨Finset.Icc (lo x) (hi x) ∪ F, fun n => ?_, ?_⟩
    · rw [Finset.mem_union, Finset.mem_Icc, hF, mem_covered_cons]
    · have := hne x List.mem_cons_self
      rw [Finset.card_union_of_disjoint hdisj, Int.card_Icc, span_cons, Nat.cast_add, hcard]
      omega

section Inside

variable {l : List α} (hd : l.Pairwise (Apart lo hi)) (hne : ∀ x ∈ l, lo x ≤ hi x) {m : ℤ}
  (h₀ : ∀ x ∈ l, 0 ≤ lo x) (hm : ∀ x ∈ l, hi x < m) (hmn : 0 ≤ m)
include h₀ hm

theorem covered_bounds {n : ℤ} (hn : n ∈ covered lo hi l) : 0 ≤ n ∧ n < m := by
  obtain ⟨x, hx, hxn⟩ := hn
  have := h₀ x hx
  have := hm x hx
  omega

include hd hne hmn

/-- **Pigeonhole for intervals**: pairwise apart intervals inside `[0, m)` hold at most `m`
integers. -/
theorem span_le_of_apart : span lo hi l ≤ m := by
  obtain ⟨F, hF, hcard⟩ := exists_finset_span hd hne
  have hsub : F ⊆ Finset.Ico 0 m := fun n hn =>
    Finset.mem_Ico.mpr (covered_bounds h₀ hm ((hF n).mp hn))
  have hle := Finset.card_le_card hsub
  rw [Int.card_Ico] at hle
  omega

/-- They hold `m` integers when they leave no hole. -/
theorem span_eq_iff_covered : span lo hi l = m ↔ ∀ n, n ∈ covered lo hi l ↔ 0 ≤ n ∧ n < m := by
  obtain ⟨F, hF, hcard⟩ := exists_finset_span hd hne
  have hsub : F ⊆ Finset.Ico 0 m := fun n hn =>
    Finset.mem_Ico.mpr (covered_bounds h₀ hm ((hF n).mp hn))
  have hsize := Int.card_Ico 0 m
  constructor
  · intro hspan n
    have hall : F = Finset.Ico 0 m := Finset.eq_of_subset_of_card_le hsub (by omega)
    rw [← hF, hall, Finset.mem_Ico]
  · intro hall
    have hfull : F = Finset.Ico 0 m := by
      ext n
      rw [hF, hall, Finset.mem_Ico]
    rw [← hcard, hfull]
    omega

end Inside

end Intervals

end Haarp.Base
