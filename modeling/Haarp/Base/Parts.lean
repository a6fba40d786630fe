import Mathlib.Data.List.Basic
import Mathlib.Tactic.Common

/-!
# The parts between separators

`parts sep l` are the parts of a list between the items that separate, without the empty ones. A
separator anywhere splits the parts (`parts_append`); what has no separator is one part
(`parts_of_not_sep`), and separators alone make none (`parts_eq_nil_iff`).
-/

namespace Haarp.Base

variable {α β : Type*} {sep : α → Bool}

/-- The parts between the items that separate, without the empty ones. -/
noncomputable def parts (sep : α → Bool) (l : List α) : List (List α) :=
  (l.splitOnP sep).filter fun w => !w.isEmpty

@[simp] theorem parts_nil : parts sep ([] : List α) = [] := by
  simp [parts, List.splitOnP_nil]

/-- A separator splits the parts. -/
theorem parts_append {a : α} (ha : sep a = true) (u v : List α) :
    parts sep (u ++ a :: v) = parts sep u ++ parts sep v := by
  rw [parts, List.splitOnP_append_cons u v ha, List.filter_append]
  rfl

theorem parts_cons {a : α} (ha : sep a = true) (v : List α) : parts sep (a :: v) = parts sep v := by
  have h := parts_append ha [] v
  rwa [parts_nil, List.nil_append, List.nil_append] at h

/-- Without a separator there is one part. -/
theorem parts_of_not_sep {w : List α} (hne : w ≠ []) (hw : ∀ a ∈ w, sep a = false) :
    parts sep w = [w] := by
  rw [parts, List.splitOnP_eq_singleton hw]
  simp [hne]

/-- An item that does not separate begins a part. -/
theorem parts_cons_of_not_sep {a : α} (ha : sep a = false) (l : List α) :
    ∃ w rest, parts sep (a :: l) = (a :: w) :: rest := by
  obtain ⟨w, rest, hsplit⟩ := List.exists_cons_of_ne_nil (List.splitOnP_ne_nil sep l)
  refine ⟨w, rest.filter fun w => !w.isEmpty, ?_⟩
  rw [parts, List.splitOnP_cons_eq_if_modifyHead, ha, if_neg Bool.false_ne_true, hsplit]
  rfl

/-- Separators alone make no part. -/
theorem parts_eq_nil_iff {l : List α} : parts sep l = [] ↔ ∀ a ∈ l, sep a = true := by
  induction l with
  | nil => simp
  | cons a l ih =>
    rw [List.forall_mem_cons]
    cases ha : sep a with
    | true => rw [parts_cons ha, ih, and_iff_right rfl]
    | false =>
      obtain ⟨w, rest, hparts⟩ := parts_cons_of_not_sep ha l
      simp [hparts]

/-- A map that keeps the separators apart from the rest. -/
theorem parts_map {sep' : β → Bool} (f : α → β) (hf : ∀ a, sep' (f a) = sep a) (l : List α) :
    parts sep' (l.map f) = (parts sep l).map (List.map f) := by
  have hsplit : ∀ l : List α, (l.map f).splitOnP sep' = (l.splitOnP sep).map (List.map f) := by
    intro l
    induction l with
    | nil => simp [List.splitOnP_nil]
    | cons a l ih =>
      rw [List.map_cons, List.splitOnP_cons_eq_if_modifyHead, List.splitOnP_cons_eq_if_modifyHead, hf, ih]
      split
      · rfl
      · cases l.splitOnP sep <;> rfl
  rw [parts, parts, hsplit, List.filter_map]
  congr 1
  refine List.filter_congr fun w _ => ?_
  cases w <;> rfl

end Haarp.Base
