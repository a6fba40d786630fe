import Mathlib.Data.List.Nodup
import Mathlib.Logic.Function.Basic
import Mathlib.Tactic.Common

/-!
# Lists with keys

A list whose items have a key is a partial function from keys to items (`itemAt`). `searchInsert`
changes the first item of a key, or puts a new item behind the list: the keys stay distinct
(`nodup_searchInsert`), and the function changes at this key only (`itemAt_searchInsert`). Over a run
of such changes, what becomes of one key is told by the changes that are for it (`itemAt_foldl`).
-/

namespace Haarp.Base

section Keyed

variable {α κ : Type*} [DecidableEq κ] (key : α → κ)

/-- The first item of key `k`. -/
def itemAt (l : List α) (k : κ) : Option α := l.find? fun x => key x = k

/-- The first item of key `k` is changed; when there is none, `new` comes last. -/
def searchInsert (k : κ) (change : α → α) (new : α) : List α → List α
  | [] => [new]
  | x :: l => if key x = k then change x :: l else x :: searchInsert k change new l

variable {key} {k : κ} {change : α → α} {new : α}

theorem itemAt_cons_self (x : α) (l : List α) : itemAt key (x :: l) (key x) = some x := by
  simp [itemAt]

theorem itemAt_cons_of_ne {x : α} {j : κ} (h : key x ≠ j) (l : List α) :
    itemAt key (x :: l) j = itemAt key l j := by
  simp [itemAt, h]

/-- No item of a key that no item has. -/
theorem itemAt_eq_none {l : List α} : itemAt key l k = none ↔ k ∉ l.map key := by
  simp only [itemAt, List.find?_eq_none, List.mem_map, not_exists, not_and, decide_eq_true_eq]

theorem itemAt_append (l l' : List α) : itemAt key (l ++ l') k = (itemAt key l k).or (itemAt key l' k) :=
  List.find?_append

/-- Where the keys are distinct, an item is found by its key. -/
theorem itemAt_eq_some_iff {l : List α} (hl : (l.map key).Nodup) {x : α} :
    itemAt key l k = some x ↔ x ∈ l ∧ key x = k := by
  constructor
  · intro h
    have hkey := List.find?_some h
    exact ⟨List.mem_of_find?_eq_some h, of_decide_eq_true hkey⟩
  · rintro ⟨hx, rfl⟩
    induction l with
    | nil => cases hx
    | cons y l ih =>
      rw [List.map_cons, List.nodup_cons] at hl
      rcases List.mem_cons.mp hx with rfl | hx
      · exact itemAt_cons_self x l
      · have hne : key y ≠ key x := fun heq => hl.1 (heq ▸ List.mem_map_of_mem hx)
        rw [itemAt_cons_of_ne hne]
        exact ih hl.2 hx

/-- Where the keys are distinct, the order of the items makes no difference. -/
theorem itemAt_perm {l l' : List α} (hl : (l.map key).Nodup) (h : l.Perm l') :
    itemAt key l k = itemAt key l' k := by
  have hl' : (l'.map key).Nodup := (h.map key).nodup_iff.mp hl
  ext x
  rw [itemAt_eq_some_iff hl, itemAt_eq_some_iff hl', h.mem_iff]

/-- The function changes at the key `k` only. -/
theorem itemAt_searchInsert (hchange : ∀ x, key x = k → key (change x) = k) (hnew : key new = k)
    (l : List α) :
    itemAt key (searchInsert key k change new l) =
      Function.update (itemAt key l) k (some ((itemAt key l k).elim new change)) := by
  funext j
  induction l with
  | nil =>
    by_cases hj : j = k
    · subst hj
      rw [Function.update_self, searchInsert]
      exact hnew ▸ itemAt_cons_self new []
    · rw [Function.update_of_ne hj, searchInsert, itemAt_cons_of_ne (by rw [hnew]; exact Ne.symm hj)]
  | cons x l ih =>
    rw [searchInsert]
    by_cases hx : key x = k
    · have hkey := hchange x hx
      rw [if_pos hx]
      by_cases hj : j = k
      · subst hj
        have hitem : itemAt key (x :: l) j = some x := hx ▸ itemAt_cons_self x l
        have hitem' : itemAt key (change x :: l) j = some (change x) :=
          hkey ▸ itemAt_cons_self (change x) l
        rw [Function.update_self, hitem, hitem']
        rfl
      · rw [Function.update_of_ne hj, itemAt_cons_of_ne (by rw [hkey]; exact Ne.symm hj),
          itemAt_cons_of_ne (by rw [hx]; exact Ne.symm hj)]
    · rw [if_neg hx]
      by_cases hxj : key x = j
      · have hj : j ≠ k := hxj ▸ hx
        subst hxj
        rw [Function.update_of_ne hj, itemAt_cons_self, itemAt_cons_self]
      · rw [itemAt_cons_of_ne hxj, ih]
        by_cases hj : j = k
        · subst hj
          rw [Function.update_self, Function.update_self, itemAt_cons_of_ne hx]
        · rw [Function.update_of_ne hj, Function.update_of_ne hj, itemAt_cons_of_ne hxj]

theorem mem_keys_searchInsert (hchange : ∀ x, key x = k → key (change x) = k) (hnew : key new = k)
    {l : List α} {j : κ} :
    j ∈ (searchInsert key k change new l).map key ↔ j = k ∨ j ∈ l.map key := by
  have h : itemAt key (searchInsert key k change new l) j = none ↔ ¬ (j = k ∨ j ∈ l.map key) := by
    rw [itemAt_searchInsert hchange hnew]
    by_cases hj : j = k
    · simp [hj]
    · rw [Function.update_of_ne hj, itemAt_eq_none, not_or]
      exact ⟨fun hmem => ⟨hj, hmem⟩, fun h => h.2⟩
  rw [itemAt_eq_none] at h
  exact not_iff_not.mp h

/-- An item is one of before, the changed one or the new one. -/
theorem mem_searchInsert {l : List α} {x : α} (hx : x ∈ searchInsert key k change new l) :
    x ∈ l ∨ x = new ∨ ∃ y ∈ l, key y = k ∧ x = change y := by
  induction l with
  | nil => exact .inr (.inl (List.mem_singleton.mp hx))
  | cons z l ih =>
    rw [searchInsert] at hx
    split at hx
    · rename_i hz
      rcases List.mem_cons.mp hx with rfl | hx
      · exact .inr (.inr ⟨z, List.mem_cons_self, hz, rfl⟩)
      · exact .inl (List.mem_cons_of_mem z hx)
    · rcases List.mem_cons.mp hx with rfl | hx
      · exact .inl List.mem_cons_self
      · rcases ih hx with h | h | ⟨y, hy, h⟩
        · exact .inl (List.mem_cons_of_mem z h)
        · exact .inr (.inl h)
        · exact .inr (.inr ⟨y, List.mem_cons_of_mem z hy, h⟩)

/-- The keys stay distinct. -/
theorem nodup_searchInsert (hchange : ∀ x, key x = k → key (change x) = k) (hnew : key new = k)
    {l : List α} (hl : (l.map key).Nodup) : ((searchInsert key k change new l).map key).Nodup := by
  induction l with
  | nil => exact List.nodup_singleton _
  | cons x l ih =>
    rw [List.map_cons, List.nodup_cons] at hl
    rw [searchInsert]
    split
    · rename_i hx
      rw [List.map_cons, hchange x hx, ← hx]
      exact List.nodup_cons.mpr hl
    · rename_i hx
      rw [List.map_cons, List.nodup_cons]
      refine ⟨fun hmem => ?_, ih hl.2⟩
      rcases (mem_keys_searchInsert hchange hnew).mp hmem with h | h
      · exact hx h
      · exact hl.1 h

end Keyed

section Runs

variable {α κ ο : Type*} [DecidableEq κ] {key : α → κ}

/-- What one change makes of the item of its key. -/
def changeItem (change : ο → α → α) (new : ο → α) (item : Option α) (o : ο) : Option α :=
  some (item.elim (new o) (change o))

variable {keyOf : ο → κ} {change : ο → α → α} {new : ο → α}

/-- **Keys are independent**: the item of a key after a run of changes is what the changes for this
key make of its item before. -/
theorem itemAt_foldl (hchange : ∀ o x, key x = keyOf o → key (change o x) = keyOf o)
    (hnew : ∀ o, key (new o) = keyOf o) (os : List ο) (l : List α) (k : κ) :
    itemAt key (os.foldl (fun l o => searchInsert key (keyOf o) (change o) (new o) l) l) k =
      (os.filter fun o => keyOf o = k).foldl (changeItem change new) (itemAt key l k) := by
  induction os generalizing l with
  | nil => rfl
  | cons o os ih =>
    have hstep := congrFun (itemAt_searchInsert (hchange o) (hnew o) l) k
    rw [List.foldl_cons, ih, hstep]
    by_cases ho : keyOf o = k
    · have hfilter : (o :: os).filter (fun o => keyOf o = k) = o :: os.filter fun o => keyOf o = k :=
        List.filter_cons_of_pos (decide_eq_true ho)
      rw [hfilter, List.foldl_cons, ← ho, Function.update_self]
      rfl
    · have hfilter : (o :: os).filter (fun o => keyOf o = k) = os.filter fun o => keyOf o = k :=
        List.filter_cons_of_neg (by simpa using ho)
      rw [hfilter, Function.update_of_ne (Ne.symm ho)]

theorem nodup_foldl (hchange : ∀ o x, key x = keyOf o → key (change o x) = keyOf o)
    (hnew : ∀ o, key (new o) = keyOf o) (os : List ο) {l : List α} (hl : (l.map key).Nodup) :
    ((os.foldl (fun l o => searchInsert key (keyOf o) (change o) (new o) l) l).map key).Nodup := by
  induction os generalizing l with
  | nil => exact hl
  | cons o os ih => exact ih (nodup_searchInsert (hchange o) (hnew o) hl)

end Runs

end Haarp.Base
