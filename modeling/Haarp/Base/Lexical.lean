import Mathlib.Data.List.Basic
import Mathlib.Tactic.Common

/-!
# Paths by their text

The components of a path, and what is left of them when `.` and `..` are resolved without a look at
the disk. `Within depth` says of components that they never leave the place in which they begin when
they begin `depth` levels below it.

`below_of_within`: what stays inside ends below the place. `not_below_of_not_within`: what leaves a
place does not come back to it, unless its name is among the components.
-/

namespace Haarp.Base

def components (path : List Char) : List (List Char) := path.splitOn '/'

def here : List Char := ['.']

def parent : List Char := ['.', '.']

/-- A component that goes to a new place. -/
def Proper (c : List Char) : Prop := c ≠ [] ∧ c ≠ here ∧ c ≠ parent

instance : DecidablePred Proper := fun c => inferInstanceAs (Decidable (c ≠ [] ∧ _ ∧ _))

/-- One component; `stack` has those before, the last one first. The parent of the root is the
root. -/
def walk (absolute : Bool) (stack : List (List Char)) (c : List Char) : List (List Char) :=
  if c = [] ∨ c = here then stack
  else if c = parent then
    match stack with
    | [] => if absolute then [] else [parent]
    | top :: rest => if top = parent then parent :: stack else rest
  else c :: stack

/-- Whether a path begins at the root. -/
def isAbsolute (path : List Char) : Bool := path.head? = some '/'

/-- The components of the resolved path, the last one first. -/
def resolve (path : List Char) : List (List Char) :=
  (components path).foldl (walk (isAbsolute path)) []

/-- The resolved path goes down from `base`. -/
def Below (path base : List Char) : Prop :=
  isAbsolute path = isAbsolute base ∧
    ∃ names, names ≠ [] ∧ parent ∉ names ∧ resolve path = names ++ resolve base

/-- Components that do not go above the place `depth` levels up. -/
def Within : Nat → List (List Char) → Prop
  | _, [] => True
  | depth, c :: cs =>
    if c = [] ∨ c = here then Within depth cs
    else if c = parent then
      match depth with
      | 0 => False
      | depth + 1 => Within depth cs
    else Within (depth + 1) cs

/-! ## One component -/

section Walk

variable {absolute : Bool} {stack : List (List Char)} {c : List Char} {cs : List (List Char)}
  {depth : Nat}

theorem walk_skip (h : c = [] ∨ c = here) : walk absolute stack c = stack := if_pos h

theorem walk_proper (h : Proper c) : walk absolute stack c = c :: stack := by
  unfold walk
  rw [if_neg (not_or.mpr ⟨h.1, h.2.1⟩), if_neg h.2.2]

theorem walk_parent {top : List Char} (h : top ≠ parent) :
    walk absolute (top :: stack) parent = stack := by
  unfold walk
  rw [if_neg (by decide), if_pos rfl]
  exact if_neg h

theorem within_skip (h : c = [] ∨ c = here) : Within depth (c :: cs) ↔ Within depth cs := by
  rw [Within.eq_def]
  exact iff_of_eq (if_pos h)

theorem within_proper (h : Proper c) : Within depth (c :: cs) ↔ Within (depth + 1) cs := by
  rw [Within.eq_def]
  dsimp only
  rw [if_neg (not_or.mpr ⟨h.1, h.2.1⟩), if_neg h.2.2]

theorem not_within_zero : ¬ Within 0 (parent :: cs) := by
  simp [Within, parent, here]

theorem within_parent : Within (depth + 1) (parent :: cs) ↔ Within depth cs := by
  simp [Within, parent, here]

/-- A component stays, goes up or goes down. -/
theorem component_cases (c : List Char) : (c = [] ∨ c = here) ∨ c = parent ∨ Proper c := by
  unfold Proper
  tauto

end Walk

/-! ## All of them -/

theorem Within.mono {cs : List (List Char)} {depth depth' : Nat} (h : Within depth cs)
    (hle : depth ≤ depth') : Within depth' cs := by
  induction cs generalizing depth depth' with
  | nil => trivial
  | cons c cs ih =>
    rcases component_cases c with hskip | rfl | hproper
    · rw [within_skip hskip] at h ⊢
      exact ih h hle
    · cases depth with
      | zero => exact absurd h not_within_zero
      | succ depth =>
        obtain ⟨depth', rfl⟩ := Nat.exists_eq_add_of_le' (Nat.lt_of_lt_of_le (Nat.succ_pos _) hle)
        rw [within_parent] at h ⊢
        exact ih h (Nat.le_of_succ_le_succ hle)
    · rw [within_proper hproper] at h ⊢
      exact ih h (Nat.succ_le_succ hle)

/-- What stays inside leaves the stack below alone. -/
theorem foldl_walk_of_within {absolute : Bool} {cs names stack : List (List Char)}
    (hnames : parent ∉ names) (h : Within names.length cs) :
    ∃ names', parent ∉ names' ∧ cs.foldl (walk absolute) (names ++ stack) = names' ++ stack := by
  induction cs generalizing names with
  | nil => exact ⟨names, hnames, rfl⟩
  | cons c cs ih =>
    rw [List.foldl_cons]
    rcases component_cases c with hskip | rfl | hproper
    · rw [walk_skip hskip]
      exact ih hnames ((within_skip hskip).mp h)
    · cases names with
      | nil => exact absurd h not_within_zero
      | cons top names =>
        rw [List.mem_cons, not_or] at hnames
        rw [List.cons_append, walk_parent (Ne.symm hnames.1)]
        exact ih hnames.2 (within_parent.mp h)
    · rw [walk_proper hproper, ← List.cons_append]
      refine ih ?_ ((within_proper hproper).mp h)
      rw [List.mem_cons, not_or]
      exact ⟨Ne.symm hproper.2.2, hnames⟩

/-- A name that is not among the components does not come to the stack. -/
theorem not_mem_foldl_walk {absolute : Bool} {cs stack : List (List Char)} {b : List Char}
    (hb : b ≠ parent) (hcs : b ∉ cs) (hstack : b ∉ stack) :
    b ∉ cs.foldl (walk absolute) stack := by
  induction cs generalizing stack with
  | nil => exact hstack
  | cons c cs ih =>
    rw [List.mem_cons, not_or] at hcs
    refine ih hcs.2 ?_
    unfold walk
    split
    · exact hstack
    · split
      · cases stack with
        | nil =>
          dsimp only
          split
          · exact hstack
          · rwa [List.mem_singleton]
        | cons top rest =>
          rw [List.mem_cons, not_or] at hstack
          dsimp only
          split
          · rw [List.mem_cons, List.mem_cons, not_or, not_or]
            exact ⟨hb, hstack⟩
          · exact hstack.2
      · rw [List.mem_cons, not_or]
        exact ⟨hcs.1, hstack⟩

/-- What goes above the place `b` has left it for good. -/
theorem not_mem_of_not_within {absolute : Bool} {cs names : List (List Char)} {b : List Char}
    (hb : b ≠ parent) (hcs : b ∉ cs) (hnames : parent ∉ names) (hmem : b ∉ names)
    (h : ¬ Within names.length cs) : b ∉ cs.foldl (walk absolute) (names ++ [b]) := by
  induction cs generalizing names with
  | nil => exact absurd trivial h
  | cons c cs ih =>
    rw [List.foldl_cons]
    rw [List.mem_cons, not_or] at hcs
    rcases component_cases c with hskip | rfl | hproper
    · rw [walk_skip hskip]
      exact ih hcs.2 hnames hmem (mt (within_skip hskip).mpr h)
    · cases names with
      | nil =>
        rw [List.nil_append, walk_parent hb]
        exact not_mem_foldl_walk hb hcs.2 List.not_mem_nil
      | cons top names =>
        rw [List.mem_cons, not_or] at hnames hmem
        rw [List.cons_append, walk_parent (Ne.symm hnames.1)]
        exact ih hcs.2 hnames.2 hmem.2 (mt within_parent.mpr h)
    · rw [walk_proper hproper, ← List.cons_append]
      refine ih hcs.2 ?_ ?_ (mt (within_proper hproper).mpr h)
      · rw [List.mem_cons, not_or]
        exact ⟨Ne.symm hproper.2.2, hnames⟩
      · rw [List.mem_cons, not_or]
        exact ⟨hcs.1, hmem⟩

/-! ## A path below another -/

theorem components_append (base tail : List Char) :
    components (base ++ '/' :: tail) = components base ++ components tail :=
  List.splitOn_append_cons_self base tail

theorem components_of_not_mem {path : List Char} (h : '/' ∉ path) : components path = [path] :=
  List.splitOn_eq_singleton h

theorem components_cons (c : Char) (path : List Char) : components (c :: path) =
    if c == '/' then [] :: components path else (components path).modifyHead (c :: ·) :=
  List.splitOn_cons_eq_if_modifyHead c path

theorem length_le_of_mem_components {path c : List Char} (h : c ∈ components path) :
    c.length ≤ path.length := by
  induction path generalizing c with
  | nil =>
    rw [components_of_not_mem List.not_mem_nil, List.mem_singleton] at h
    subst h
    exact Nat.le_refl 0
  | cons d path ih =>
    rw [components_cons] at h
    rw [List.length_cons]
    split at h
    · rcases List.mem_cons.mp h with rfl | h
      · exact Nat.zero_le _
      · exact Nat.le_succ_of_le (ih h)
    · obtain ⟨first, rest, hpath⟩ := List.exists_cons_of_ne_nil (List.splitOn_ne_nil '/' path)
      change components path = first :: rest at hpath
      rw [hpath] at h ih
      rcases List.mem_cons.mp h with rfl | h
      · exact Nat.succ_le_succ (ih List.mem_cons_self)
      · exact Nat.le_succ_of_le (ih (List.mem_cons_of_mem _ h))

/-- A text at the end of a path without a slash of its own belongs to the last component. -/
theorem components_append_of_not_mem {last : List Char} (hlast : '/' ∉ last) (path : List Char) :
    ∃ c, components (path ++ last) = (components path).dropLast ++ [c ++ last] := by
  induction path with
  | nil => exact ⟨[], components_of_not_mem hlast⟩
  | cons d path ih =>
    obtain ⟨c, hc⟩ := ih
    obtain ⟨first, rest, hpath⟩ := List.exists_cons_of_ne_nil (List.splitOn_ne_nil '/' path)
    change components path = first :: rest at hpath
    rw [List.cons_append, components_cons, components_cons, hc, hpath]
    split
    · exact ⟨c, rfl⟩
    · cases rest with
      | nil => exact ⟨d :: c, rfl⟩
      | cons second rest => exact ⟨c, rfl⟩

/-- One in front of it belongs to the first. -/
theorem components_prepend {first : List Char} (hfirst : '/' ∉ first) (path : List Char) :
    components (first ++ path) = (components path).modifyHead (first ++ ·) := by
  induction first with
  | nil =>
    rw [List.nil_append]
    cases components path <;> rfl
  | cons d first ih =>
    rw [List.mem_cons, not_or] at hfirst
    rw [List.cons_append, components_cons, if_neg (by simpa using Ne.symm hfirst.1), ih hfirst.2]
    cases components path <;> rfl

theorem proper_of_length {c : List Char} (h : 2 < c.length) : Proper c := by
  refine ⟨?_, ?_, ?_⟩ <;> rintro rfl <;> exact absurd h (by decide)

/-- A name in the place of the first component goes down at least as far. -/
theorem Within.modifyHead {first : List Char} (hfirst : 2 < first.length) {cs : List (List Char)}
    {depth : Nat} (h : Within (depth + 1) cs) : Within (depth + 1) (cs.modifyHead (first ++ ·)) := by
  cases cs with
  | nil => trivial
  | cons c cs =>
    have hproper : Proper (first ++ c) := by
      apply proper_of_length
      rw [List.length_append]
      exact Nat.lt_add_right _ hfirst
    rw [List.modifyHead_cons, within_proper hproper]
    rcases component_cases c with hskip | rfl | hc
    · exact ((within_skip hskip).mp h).mono (Nat.le_succ _)
    · exact (within_parent.mp h).mono (Nat.le_add_right _ 2)
    · exact (within_proper hc).mp h

/-- What is put in front of a path and behind it, without slashes, makes names of its first and last
component. -/
theorem within_affixes {first last : List Char} (hfirst : '/' ∉ first)
    (hfirst' : first = [] ∨ 2 < first.length) (hlast : '/' ∉ last) (hlast' : 2 < last.length)
    (path : List Char) {depth : Nat} (h : Within (depth + 1) (components path).dropLast) :
    ∃ cs c, components (first ++ (path ++ last)) = cs ++ [c] ∧ Proper c ∧ Within (depth + 1) cs := by
  obtain ⟨c, hc⟩ := components_append_of_not_mem hlast path
  have hproper : ∀ before : List Char, Proper (before ++ (c ++ last)) := by
    intro before
    apply proper_of_length
    rw [List.length_append, List.length_append]
    omega
  rw [components_prepend hfirst, hc]
  cases hcs : (components path).dropLast with
  | nil => exact ⟨[], first ++ (c ++ last), rfl, hproper first, trivial⟩
  | cons d cs =>
    refine ⟨(d :: cs).modifyHead (first ++ ·), c ++ last, rfl, hproper [], ?_⟩
    rw [hcs] at h
    rcases hfirst' with rfl | hfirst'
    · exact h
    · exact h.modifyHead hfirst'

theorem isAbsolute_append {base : List Char} (hbase : base ≠ []) (tail : List Char) :
    isAbsolute (base ++ tail) = isAbsolute base := by
  unfold isAbsolute
  rw [List.head?_append_of_ne_nil base hbase]

theorem resolve_append {base : List Char} (hbase : base ≠ []) (tail : List Char) :
    resolve (base ++ '/' :: tail) =
      (components tail).foldl (walk (isAbsolute base)) (resolve base) := by
  unfold resolve
  rw [components_append, isAbsolute_append hbase, List.foldl_append]

section Below

variable {base tail c : List Char} {cs : List (List Char)} (htail : components tail = cs ++ [c])

include htail

/-- A path that stays inside, and ends in a name, ends below its base. -/
theorem below_of_within (hbase : base ≠ []) (hc : Proper c) (h : Within 0 cs) :
    Below (base ++ '/' :: tail) base := by
  obtain ⟨names, hnames, hwalk⟩ :=
    @foldl_walk_of_within (isAbsolute base) cs [] (resolve base) List.not_mem_nil h
  refine ⟨isAbsolute_append hbase _, c :: names, List.cons_ne_nil c names, ?_, ?_⟩
  · rw [List.mem_cons, not_or]
    exact ⟨Ne.symm hc.2.2, hnames⟩
  · rw [resolve_append hbase, htail, List.foldl_append]
    rw [List.nil_append] at hwalk
    rw [hwalk]
    exact walk_proper hc

/-- A path that leaves its base, a directory of the root with another name than all that follow, does
not end below it. -/
theorem not_below_of_not_within (hslash : '/' ∉ base) (hproper : Proper base)
    (hnot : base ∉ components tail) (h : ¬ Within 0 cs) :
    ¬ Below ('/' :: base ++ '/' :: tail) ('/' :: base) := by
  rintro ⟨-, names, -, -, heq⟩
  have hresolve : resolve ('/' :: base) = [base] := by
    have hcomponents : components ('/' :: base) = [[], base] := by
      have happend := components_append [] base
      rwa [components_of_not_mem hslash] at happend
    unfold resolve
    rw [hcomponents, List.foldl_cons, walk_skip (Or.inl rfl), List.foldl_cons, walk_proper hproper,
      List.foldl_nil]
  have hmem : base ∈ resolve ('/' :: base ++ '/' :: tail) := by
    rw [heq, hresolve]
    exact List.mem_append_right names List.mem_cons_self
  rw [resolve_append (List.cons_ne_nil _ _), hresolve, htail, List.foldl_append] at hmem
  rw [htail, List.mem_append, not_or] at hnot
  have hleft : base ∉ cs.foldl (walk (isAbsolute ('/' :: base))) ([] ++ [base]) :=
    not_mem_of_not_within hproper.2.2 hnot.1 List.not_mem_nil List.not_mem_nil h
  exact not_mem_foldl_walk hproper.2.2 hnot.2 hleft hmem

end Below

end Haarp.Base
