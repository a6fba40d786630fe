import Mathlib.Data.List.Basic
import Mathlib.Order.Basic
import Mathlib.Tactic.Common

/-!
# Streams in pieces

A stream that arrives in pieces is the list of its pieces. An offset is a cut when a piece ends
there (`Cut`). `dropFront` takes items off the front, over the ends of pieces: the stream loses them
(`flatten_dropFront`), and behind them the cuts stay where they were (`cut_dropFront`). A span is
whole when there is no cut inside it (`Whole`).
-/

namespace Haarp.Base

variable {α : Type*}

/-- A piece ends at the offset `n`. -/
def Cut (l : List (List α)) (n : ℕ) : Prop := ∃ pre, pre <+: l ∧ pre.flatten.length = n

/-- Takes `n` items off the front. -/
def dropFront : ℕ → List (List α) → List (List α)
  | _, [] => []
  | n, p :: l => if n < p.length then p.drop n :: l else dropFront (n - p.length) l

theorem cut_zero (l : List (List α)) : Cut l 0 := ⟨[], List.nil_prefix, rfl⟩

theorem cut_cons {p : List α} {l : List (List α)} {n : ℕ} :
    Cut (p :: l) n ↔ n = 0 ∨ ∃ m, Cut l m ∧ n = p.length + m := by
  constructor
  · rintro ⟨pre, hpre, rfl⟩
    rcases List.prefix_cons_iff.mp hpre with rfl | ⟨t, rfl, ht⟩
    · exact .inl rfl
    · exact .inr ⟨t.flatten.length, ⟨t, ht, rfl⟩, by simp⟩
  · rintro (rfl | ⟨m, ⟨t, ht, rfl⟩, rfl⟩)
    · exact cut_zero _
    · exact ⟨p :: t, List.prefix_cons_inj p |>.mpr ht, by simp⟩

/-- There is no cut inside a piece. -/
theorem not_cut_of_lt {p : List α} {l : List (List α)} {n : ℕ} (hn : 0 < n) (hp : n < p.length) :
    ¬ Cut (p :: l) n := by
  intro h
  rcases cut_cons.mp h with rfl | ⟨m, -, rfl⟩
  · omega
  · omega

/-- A cut behind the first piece. -/
theorem cut_append_iff {p : List α} {l : List (List α)} {n : ℕ} (hp : p ≠ []) :
    Cut (p :: l) (p.length + n) ↔ Cut l n := by
  have hpos := List.length_pos_iff.mpr hp
  rw [cut_cons]
  constructor
  · rintro (h | ⟨m, hm, h⟩)
    · omega
    · obtain rfl : m = n := by omega
      exact hm
  · exact fun h => .inr ⟨n, h, rfl⟩

theorem flatten_dropFront (n : ℕ) (l : List (List α)) :
    (dropFront n l).flatten = l.flatten.drop n := by
  induction l generalizing n with
  | nil => simp [dropFront]
  | cons p l ih =>
    rw [dropFront]
    split
    · rename_i h
      rw [List.flatten_cons, List.flatten_cons, List.drop_append_of_le_length (Nat.le_of_lt h)]
    · rename_i h
      have hp : p.drop n = [] := List.drop_of_length_le (Nat.not_lt.mp h)
      rw [ih, List.flatten_cons, List.drop_append, hp, List.nil_append]

theorem cut_dropFront {n k : ℕ} (hk : 0 < k) (l : List (List α)) :
    Cut (dropFront n l) k ↔ Cut l (n + k) := by
  induction l generalizing n with
  | nil =>
    have hnil : ∀ m, Cut ([] : List (List α)) m → m = 0 := by
      rintro m ⟨pre, hpre, rfl⟩
      rw [List.prefix_nil.mp hpre]
      rfl
    constructor
    · intro h
      exact absurd (hnil k h) (by omega)
    · intro h
      exact absurd (hnil _ h) (by omega)
  | cons p l ih =>
    rw [dropFront]
    split
    · rename_i h
      rw [cut_cons, cut_cons, List.length_drop]
      constructor
      · rintro (rfl | ⟨m, hm, rfl⟩)
        · omega
        · exact .inr ⟨m, hm, by omega⟩
      · rintro (h' | ⟨m, hm, h'⟩)
        · omega
        · exact .inr ⟨m, hm, by omega⟩
    · rename_i h
      rw [ih, cut_cons]
      constructor
      · exact fun h' => .inr ⟨_, h', by omega⟩
      · rintro (h' | ⟨m, hm, h'⟩)
        · omega
        · obtain rfl : m = n - p.length + k := by omega
          exact hm

theorem dropFront_dropFront (m n : ℕ) (l : List (List α)) :
    dropFront n (dropFront m l) = dropFront (m + n) l := by
  induction l generalizing m n with
  | nil => rfl
  | cons p l ih =>
    rw [dropFront, dropFront]
    by_cases hm : m < p.length
    · rw [if_pos hm, dropFront, List.length_drop, List.drop_drop]
      by_cases hn : n < p.length - m
      · rw [if_pos hn, if_pos (by omega)]
      · have hsub : n - (p.length - m) = m + n - p.length := by omega
        rw [if_neg hn, if_neg (by omega), hsub]
    · have hsub : m - p.length + n = m + n - p.length := by omega
      rw [if_neg hm, if_neg (by omega), ih, hsub]

/-- To take off nothing changes nothing. -/
theorem dropFront_zero {l : List (List α)} (hl : ∀ p ∈ l, p ≠ []) : dropFront 0 l = l := by
  cases l with
  | nil => rfl
  | cons p l =>
    rw [dropFront, if_pos (List.length_pos_iff.mpr (hl p List.mem_cons_self)), List.drop_zero]

/-! ## Spans in one piece -/

/-- No piece ends inside the `len` items at the offset `n`. -/
def Whole (l : List (List α)) (n len : ℕ) : Prop := ∀ k, 0 < k → k < len → ¬ Cut l (n + k)

theorem whole_dropFront (m n len : ℕ) (l : List (List α)) :
    Whole (dropFront m l) n len ↔ Whole l (m + n) len := by
  unfold Whole
  refine forall_congr' fun k => ?_
  by_cases hk : 0 < k
  · rw [cut_dropFront (Nat.add_pos_right n hk), Nat.add_assoc]
  · simp [hk]

/-- The first piece has the span in front. -/
theorem whole_iff_le_length {p : List α} {l : List (List α)} {len : ℕ} (hp : p ≠ []) :
    Whole (p :: l) 0 len ↔ len ≤ p.length := by
  have hpos := List.length_pos_iff.mpr hp
  constructor
  · intro h
    by_contra hlt
    refine h p.length hpos (by omega) ?_
    have hcut := (cut_append_iff hp).mpr (cut_zero l)
    rwa [Nat.add_zero, ← Nat.zero_add p.length] at hcut
  · intro h k hk hlen
    rw [Nat.zero_add]
    exact not_cut_of_lt hk (by omega)

end Haarp.Base
