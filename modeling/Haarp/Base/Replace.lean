import Mathlib.Data.List.Basic
import Mathlib.Tactic.Common

/-!
# Replacing everywhere

`replaceAll search replace l` goes over a list from left to right. Where `search` stands it puts
`replace` and goes on behind that occurrence, so that occurrences do not overlap and nothing is looked
for in what was put in (`replaceAll_append`); every other item stays (`replaceAll_cons`).
-/

namespace Haarp.Base

variable {α : Type*} [DecidableEq α] {search replace : List α}

/-- The number of replacements and the new list; `skip` items still belong to the last occurrence. -/
def replaceFrom (search replace : List α) : Nat → List α → Nat × List α
  | _, [] => (0, [])
  | skip + 1, _ :: l => replaceFrom search replace skip l
  | 0, a :: l =>
    if search <+: a :: l then
      let (n, out) := replaceFrom search replace (search.length - 1) l
      (n + 1, replace ++ out)
    else
      let (n, out) := replaceFrom search replace 0 l
      (n, a :: out)

/-- The number of replacements, and the new list. -/
def replaceAll (search replace l : List α) : Nat × List α := replaceFrom search replace 0 l

theorem replaceFrom_skip (u l : List α) :
    replaceFrom search replace u.length (u ++ l) = replaceAll search replace l := by
  induction u with
  | nil => rfl
  | cons a u ih => exact ih

/-- An occurrence is replaced, and what follows is gone over. -/
theorem replaceAll_append (hsearch : search ≠ []) (l : List α) :
    replaceAll search replace (search ++ l) =
      ((replaceAll search replace l).1 + 1, replace ++ (replaceAll search replace l).2) := by
  obtain ⟨a, u, rfl⟩ := List.exists_cons_of_ne_nil hsearch
  have hprefix : a :: u <+: a :: (u ++ l) := List.prefix_append (a :: u) l
  have hskip : replaceFrom (a :: u) replace ((a :: u).length - 1) (u ++ l) =
      replaceAll (a :: u) replace l := replaceFrom_skip u l
  rw [replaceAll, List.cons_append, replaceFrom, if_pos hprefix, hskip]

/-- An item where `search` does not begin stays. -/
theorem replaceAll_cons {a : α} {l : List α} (h : ¬ search <+: a :: l) :
    replaceAll search replace (a :: l) =
      ((replaceAll search replace l).1, a :: (replaceAll search replace l).2) := by
  rw [replaceAll, replaceFrom, if_neg h]
  rfl

/-- Without an occurrence the list stays. -/
theorem replaceAll_of_not_infix {l : List α} (h : ¬ search <:+: l) :
    replaceAll search replace l = (0, l) := by
  induction l with
  | nil => rfl
  | cons a l ih =>
    rw [replaceAll_cons fun hp => h hp.isInfix,
      ih fun hl => h (hl.trans (List.suffix_cons a l).isInfix)]

/-- Up to the first occurrence the list stays. -/
theorem replaceAll_first {before l : List α}
    (h : ∀ k < before.length, ¬ search <+: (before ++ l).drop k) :
    replaceAll search replace (before ++ l) =
      ((replaceAll search replace l).1, before ++ (replaceAll search replace l).2) := by
  induction before with
  | nil => rfl
  | cons a before ih =>
    have hhead : ¬ search <+: a :: (before ++ l) := h 0 (Nat.succ_pos _)
    rw [List.cons_append, replaceAll_cons hhead, ih fun k hk => h (k + 1) (Nat.succ_lt_succ hk)]
    rfl

end Haarp.Base
