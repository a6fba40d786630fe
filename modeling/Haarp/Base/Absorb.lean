import Mathlib.Data.List.Basic

/-!
# Blocks of a stream

A state takes a stream in blocks of `n` items. What has come of the stream is a state and fewer than `n`
items that wait for the next block; `absorb_append` says that this is so however the stream comes in
pieces.
-/

namespace Haarp.Base

variable {α σ : Type*} {f : σ → List α → σ} {n : Nat} {s : σ} {l : List α}

/-- The first `k` blocks of `l`, one after the other. -/
def foldBlocks (f : σ → List α → σ) (n : Nat) : Nat → σ → List α → σ
  | 0, s, _ => s
  | k + 1, s, l => foldBlocks f n k (f s (l.take n)) (l.drop n)

@[simp] theorem foldBlocks_zero : foldBlocks f n 0 s l = s := rfl

theorem foldBlocks_succ (k : Nat) :
    foldBlocks f n (k + 1) s l = foldBlocks f n k (f s (l.take n)) (l.drop n) := rfl

theorem foldBlocks_add (j k : Nat) :
    foldBlocks f n (j + k) s l = foldBlocks f n k (foldBlocks f n j s l) (l.drop (j * n)) := by
  induction j generalizing s l with
  | zero => simp
  | succ j ih =>
    rw [Nat.succ_add, Nat.succ_eq_add_one, foldBlocks_succ, foldBlocks_succ, ih, List.drop_drop,
      Nat.succ_mul, Nat.add_comm (j * n) n]

/-- What comes later does not change the blocks that are there. -/
theorem foldBlocks_append {k : Nat} (h : k * n ≤ l.length) (r : List α) :
    foldBlocks f n k s (l ++ r) = foldBlocks f n k s l := by
  induction k generalizing s l with
  | zero => rfl
  | succ k ih =>
    rw [Nat.succ_mul] at h
    have hfirst : n ≤ l.length := Nat.le_trans (Nat.le_add_left n (k * n)) h
    rw [foldBlocks_succ, foldBlocks_succ, List.take_append_of_le_length hfirst,
      List.drop_append_of_le_length hfirst]
    apply ih
    rw [List.length_drop]
    exact Nat.le_sub_of_add_le h

/-- The state behind a stream, and what waits. -/
def absorb (f : σ → List α → σ) (n : Nat) (s : σ) (l : List α) : σ × List α :=
  (foldBlocks f n (l.length / n) s l, l.drop (l.length / n * n))

theorem length_absorb : (absorb f n s l).2.length = l.length % n := by
  have hmod := Nat.div_add_mod' l.length n
  rw [absorb, List.length_drop]
  omega

/-- Fewer items than a block wait. -/
theorem absorb_of_lt (h : l.length < n) : absorb f n s l = (s, l) := by
  rw [absorb, Nat.div_eq_of_lt h]
  simp

theorem absorb_block (hn : 0 < n) (h : l.length = n) : absorb f n s l = (f s l, []) := by
  rw [absorb, h, Nat.div_self hn, foldBlocks_succ, ← h, List.take_length, Nat.one_mul, List.drop_length]
  rfl

/-- **A stream in two pieces** is the stream at once. -/
theorem absorb_append (hn : 0 < n) (r : List α) :
    absorb f n s (l ++ r) = absorb f n (absorb f n s l).1 ((absorb f n s l).2 ++ r) := by
  have hmod := Nat.div_add_mod' l.length n
  have hle : l.length / n * n ≤ l.length := Nat.div_mul_le_self l.length n
  have hcount : (l ++ r).length / n = l.length / n + (l.length % n + r.length) / n := by
    have hlength : (l ++ r).length = l.length % n + r.length + n * (l.length / n) := by
      rw [List.length_append, Nat.mul_comm n]
      omega
    rw [hlength, Nat.add_mul_div_left _ _ hn, Nat.add_comm]
  have hrest : (l ++ r).drop (l.length / n * n) = l.drop (l.length / n * n) ++ r :=
    List.drop_append_of_le_length hle
  have hlength : ((absorb f n s l).2 ++ r).length = l.length % n + r.length := by
    rw [List.length_append, length_absorb]
  apply Prod.ext
  · calc (absorb f n s (l ++ r)).1
      _ = foldBlocks f n ((l.length % n + r.length) / n) (foldBlocks f n (l.length / n) s l)
            (l.drop (l.length / n * n) ++ r) := by
          rw [absorb, hcount, foldBlocks_add, foldBlocks_append hle, hrest]
      _ = (absorb f n (absorb f n s l).1 ((absorb f n s l).2 ++ r)).1 := by
          rw [← hlength]
          rfl
  · calc (absorb f n s (l ++ r)).2
      _ = (l.drop (l.length / n * n) ++ r).drop ((l.length % n + r.length) / n * n) := by
          rw [absorb, hcount, Nat.add_mul, ← List.drop_drop, hrest]
      _ = (absorb f n (absorb f n s l).1 ((absorb f n s l).2 ++ r)).2 := by
          rw [← hlength]
          rfl

/-- The first block may end in the second piece. -/
theorem absorb_fill (hn : 0 < n) {k : Nat} {r : List α} (h : (l ++ r.take k).length = n) :
    absorb f n s (l ++ r) = absorb f n (f s (l ++ r.take k)) (r.drop k) := by
  have hsplit : l ++ r = (l ++ r.take k) ++ r.drop k := by
    rw [List.append_assoc, List.take_append_drop]
  rw [hsplit, absorb_append hn, absorb_block hn h, List.nil_append]

end Haarp.Base
