import Mathlib.Data.List.Perm.Basic
import Haarp.Utils.Plan

/-!
# What `appendNode` adds

A list is well formed when its blocks share neither a byte nor an offset of the cache file. A block
is fresh for it when its bytes are not stored yet and its offset is `getPointEnd`; `appendNode` and,
cut short, `appendSubNode` append such a block. The list stays well formed, the new bytes lie where
the block says, and every other byte stays where it was (`placed_appendNode`). Whether the new block
is a node of its own or extends the last one makes no difference to these facts; `Appended` says what
can happen. `Grows` is the growth of a list by fresh blocks.
-/

namespace Haarp

open Base

/-- The offset of the last byte of a stored block. -/
def IntervalPositionByteDisk.lastPosition (x : IntervalPositionByteDisk) : Int :=
  x.position + (x.b - x.a)

/-- No offset of the file holds two bytes. -/
abbrev ApartDisk (l : LintervalPositionByteDisk) : Prop :=
  l.Pairwise (Apart IntervalPositionByteDisk.position IntervalPositionByteDisk.lastPosition)

/-- A stored list whose blocks share no offset of the cache file. -/
structure WellFormed (l : LintervalPositionByteDisk) : Prop extends StoredList l where
  disk : ApartDisk l

instance (l : LintervalPositionByteDisk) : Decidable (WellFormed l) :=
  decidable_of_iff (StoredList l ∧ ApartDisk l)
    ⟨fun h => ⟨h.1, h.2⟩, fun h => ⟨h.toStoredList, h.disk⟩⟩

theorem wellFormed_nil : WellFormed [] := ⟨⟨by simp, .nil⟩, .nil⟩

theorem WellFormed.perm {l l' : LintervalPositionByteDisk} (h : WellFormed l) (hp : l.Perm l') :
    WellFormed l' :=
  ⟨h.toStoredList.perm hp, (pairwise_apart_perm hp).mp h.disk⟩

theorem WellFormed.cons {l : LintervalPositionByteDisk} {x : IntervalPositionByteDisk}
    (h : WellFormed l) (hx : 0 ≤ x.a ∧ x.a ≤ x.b ∧ 0 ≤ x.position)
    (hbytes : ∀ y ∈ l, x.b < y.a ∨ y.b < x.a)
    (hdisk : ∀ y ∈ l, x.lastPosition < y.position ∨ y.lastPosition < x.position) :
    WellFormed (x :: l) := by
  refine ⟨⟨?_, List.pairwise_cons.mpr ⟨hbytes, h.apart⟩⟩, List.pairwise_cons.mpr ⟨hdisk, h.disk⟩⟩
  intro y hy
  rcases List.mem_cons.mp hy with rfl | hy
  · exact hx
  · exact h.bounds y hy

theorem WellFormed.of_cons {l : LintervalPositionByteDisk} {x : IntervalPositionByteDisk}
    (h : WellFormed (x :: l)) : WellFormed l :=
  ⟨⟨fun y hy => h.bounds y (List.mem_cons_of_mem x hy), h.apart.of_cons⟩, h.disk.of_cons⟩

/-! ## The node of greatest position -/

theorem getlastnodeScan_spec (its : LintervalPositionByteDisk) (last : IntervalPositionByteDisk)
    (ix i : Nat) :
    let r := getlastnodeScan last ix i its
    (r = (last, ix) ∨ ∃ k, its[k]? = some r.1 ∧ r.2 = i + k) ∧
      last.position ≤ r.1.position ∧ ∀ x ∈ its, x.position ≤ r.1.position := by
  induction its generalizing last ix i with
  | nil => exact ⟨.inl rfl, le_rfl, by simp⟩
  | cons it its ih =>
    rw [getlastnodeScan]
    split
    · next hgt =>
      obtain ⟨hmem, hle, hall⟩ := ih it i (i + 1)
      refine ⟨.inr ?_, by omega, ?_⟩
      · rcases hmem with heq | ⟨k, hk, hik⟩
        · exact ⟨0, by rw [heq]; rfl, by rw [heq]; rfl⟩
        · exact ⟨k + 1, by simpa using hk, by omega⟩
      · intro x hx
        rcases List.mem_cons.mp hx with rfl | hx
        · exact hle
        · exact hall x hx
    · next hle' =>
      obtain ⟨hmem, hle, hall⟩ := ih last ix (i + 1)
      refine ⟨?_, hle, ?_⟩
      · rcases hmem with heq | ⟨k, hk, hik⟩
        · exact .inl heq
        · exact .inr ⟨k + 1, by simpa using hk, by omega⟩
      · intro x hx
        rcases List.mem_cons.mp hx with rfl | hx
        · omega
        · exact hall x hx

theorem getlastnode_spec {l : LintervalPositionByteDisk} {last : IntervalPositionByteDisk} {ix : Nat}
    (h : getlastnode l = some (last, ix)) :
    l[ix]? = some last ∧ ∀ x ∈ l, x.position ≤ last.position := by
  cases l with
  | nil => cases h
  | cons it its =>
    obtain ⟨hmem, -, hall⟩ := getlastnodeScan_spec (it :: its) it 0 0
    rw [Option.some.inj h] at hmem hall
    refine ⟨?_, hall⟩
    rcases hmem with heq | ⟨k, hk, rfl⟩
    · cases heq
      rfl
    · rwa [Nat.zero_add]

theorem getlastnode_eq_none {l : LintervalPositionByteDisk} : getlastnode l = none ↔ l = [] := by
  cases l <;> simp [getlastnode]

/-! ## The end of the file -/

/-- Every stored block lies before `getPointEnd`, and one of them ends there. -/
theorem getPointEnd_spec {l : LintervalPositionByteDisk} (hl : WellFormed l) :
    (∀ x ∈ l, x.lastPosition < getPointEnd l) ∧
      (l ≠ [] → ∃ x ∈ l, x.lastPosition + 1 = getPointEnd l) := by
  rcases hlast : getlastnode l with _ | ⟨last, ix⟩
  · rw [getlastnode_eq_none.mp hlast]
    exact ⟨by simp, fun h => absurd rfl h⟩
  · obtain ⟨hix, hmax⟩ := getlastnode_spec hlast
    have hmem : last ∈ l := List.mem_of_getElem? hix
    have hend : getPointEnd l = last.lastPosition + 1 := by
      simp only [getPointEnd, hlast, IntervalPositionByteDisk.lastPosition]
      omega
    rw [hend]
    refine ⟨fun x hx => ?_, fun _ => ⟨last, hmem, rfl⟩⟩
    by_cases hne : x = last
    · subst hne
      exact Int.lt_succ _
    · have hpos := hmax x hx
      have hb := (hl.bounds last hmem).2.1
      rcases hl.disk.forall hx hmem hne with h | h <;>
        simp only [IntervalPositionByteDisk.lastPosition] at h ⊢ <;> omega

/-- The two properties above determine `getPointEnd`. -/
theorem getPointEnd_eq {l : LintervalPositionByteDisk} (hl : WellFormed l) {e : Int}
    (hall : ∀ x ∈ l, x.lastPosition < e) (hex : ∃ x ∈ l, x.lastPosition + 1 = e) :
    getPointEnd l = e := by
  obtain ⟨hlt, hend⟩ := getPointEnd_spec hl
  obtain ⟨x, hx, hxe⟩ := hex
  obtain ⟨y, hy, hye⟩ := hend (List.ne_nil_of_mem hx)
  have := hlt x hx
  have := hall y hy
  omega

theorem getPointEnd_nonneg {l : LintervalPositionByteDisk} (hl : WellFormed l) :
    0 ≤ getPointEnd l := by
  obtain ⟨hlt, -⟩ := getPointEnd_spec hl
  cases l with
  | nil => exact le_rfl
  | cons x l =>
    have := hlt x List.mem_cons_self
    have := hl.bounds x List.mem_cons_self
    simp only [IntervalPositionByteDisk.lastPosition] at *
    omega

/-- A stored byte lies before `getPointEnd`. -/
theorem Placed.lt_getPointEnd {l : LintervalPositionByteDisk} (hl : WellFormed l) {n p : Int}
    (h : Placed l n p) : 0 ≤ p ∧ p < getPointEnd l := by
  obtain ⟨x, hx, hxa, hxb, rfl⟩ := h
  have := (getPointEnd_spec hl).1 x hx
  have := hl.bounds x hx
  simp only [IntervalPositionByteDisk.lastPosition] at *
  omega

/-- Where a byte lies is determined, and no two bytes lie at one offset. -/
theorem Placed.inj {l : LintervalPositionByteDisk} (hl : WellFormed l) {n m p q : Int}
    (h : Placed l n p) (h' : Placed l m q) : n = m ↔ p = q := by
  obtain ⟨x, hx, hxa, hxb, rfl⟩ := h
  obtain ⟨y, hy, hya, hyb, rfl⟩ := h'
  constructor
  · rintro rfl
    rw [eq_of_mem_apart hl.apart hx hy ⟨hxa, hxb⟩ ⟨hya, hyb⟩]
  · intro hpq
    have hxy : x = y := eq_of_mem_apart hl.disk hx hy (n := x.position + (n - x.a))
      (by simp only [IntervalPositionByteDisk.lastPosition]; omega)
      (by simp only [IntervalPositionByteDisk.lastPosition]; omega)
    subst hxy
    omega

/-! ## Appending a block -/

/-- What `appendNode` does to a list: a node more, or the last node extended. -/
inductive Appended (l : LintervalPositionByteDisk) (newInterval : IntervalPositionByteDisk)
    (l' : LintervalPositionByteDisk) : Prop
  | insert (perm : l'.Perm (newInterval :: l))
  | extend (last : IntervalPositionByteDisk) (rest : LintervalPositionByteDisk)
      (perm : l.Perm (last :: rest)) (next : last.b + 1 = newInterval.a)
      (pointEnd : getPointEnd l = last.lastPosition + 1)
      (perm' : l'.Perm ({ last with b := newInterval.b } :: rest))

theorem appendNode_appended (l : LintervalPositionByteDisk) (newInterval : IntervalPositionByteDisk) :
    Appended l newInterval (appendNode l newInterval) := by
  rcases hlast : getlastnode l with _ | ⟨last, ix⟩
  · rw [getlastnode_eq_none.mp hlast]
    exact .insert (.refl _)
  · obtain ⟨hix, -⟩ := getlastnode_spec hlast
    obtain ⟨hlt, hget⟩ := List.getElem?_eq_some_iff.mp hix
    simp only [appendNode, hlast]
    by_cases hnext : last.b + 1 = newInterval.a
    · rw [if_pos hnext]
      refine .extend last (l.eraseIdx ix) ?_ hnext ?_ (List.set_perm_cons_eraseIdx hlt _)
      · rw [← hget]
        exact (List.getElem_cons_eraseIdx_perm hlt).symm
      · simp only [getPointEnd, hlast, IntervalPositionByteDisk.lastPosition]
        omega
    · rw [if_neg hnext]
      exact .insert (List.perm_insertIdx newInterval l hlt)

/-- `appendSubNode` is `appendNode` of the block cut short. -/
theorem appendSubNode_eq (l : LintervalPositionByteDisk) (newInterval : IntervalPositionByteDisk)
    (lenght_ : Int) :
    appendSubNode l newInterval lenght_ =
      appendNode l { newInterval with b := lenght_ + newInterval.a - 1 } := by
  rcases hlast : getlastnode l with _ | ⟨last, ix⟩ <;> simp only [appendSubNode, appendNode, hlast]

/-- A block that is not stored, at the end of the file. -/
structure Fresh (l : LintervalPositionByteDisk) (w : IntervalPositionByteDisk) : Prop where
  a_nonneg : 0 ≤ w.a
  le : w.a ≤ w.b
  position : w.position = getPointEnd l
  free : ∀ n, w.a ≤ n → n ≤ w.b → n ∉ storedBytes l

section AppendNode

variable {l : LintervalPositionByteDisk} {w : IntervalPositionByteDisk}

/-- **What a new block adds**: its own bytes, at its offset; every other byte stays. -/
theorem placed_appendNode (hl : StoredList l) (hw : Fresh l w) {n p : Int} :
    Placed (appendNode l w) n p ↔
      Placed l n p ∨ (w.a ≤ n ∧ n ≤ w.b ∧ p = w.position + (n - w.a)) := by
  have hab := hw.le
  rcases appendNode_appended l w with hperm | ⟨last, rest, hperm, hnext, hend, hperm'⟩
  · rw [placed_perm hperm]
    simp only [Placed, List.mem_cons, exists_eq_or_imp]
    exact or_comm
  · have hb := hl.bounds last (hperm.mem_iff.mpr List.mem_cons_self)
    have hpos := hw.position
    rw [hend, IntervalPositionByteDisk.lastPosition] at hpos
    rw [placed_perm hperm', placed_perm hperm]
    simp only [Placed, List.mem_cons, exists_eq_or_imp]
    -- the extended node holds the bytes of the last node and those of the new block
    have hsplit : (last.a ≤ n ∧ n ≤ w.b ∧ p = last.position + (n - last.a)) ↔
        (last.a ≤ n ∧ n ≤ last.b ∧ p = last.position + (n - last.a)) ∨
          (w.a ≤ n ∧ n ≤ w.b ∧ p = w.position + (n - w.a)) := by
      omega
    rw [hsplit, or_assoc, or_assoc]
    exact or_congr_right or_comm

theorem mem_storedBytes_iff_placed {n : Int} : n ∈ storedBytes l ↔ ∃ p, Placed l n p :=
  ⟨exists_placed, fun ⟨_, h⟩ => h.stored⟩

theorem mem_storedBytes_appendNode (hl : StoredList l) (hw : Fresh l w) {n : Int} :
    n ∈ storedBytes (appendNode l w) ↔ n ∈ storedBytes l ∨ (w.a ≤ n ∧ n ≤ w.b) := by
  simp only [mem_storedBytes_iff_placed, placed_appendNode hl hw, exists_or, exists_and_left,
    exists_eq, and_true]

/-- A list that has the bytes in front of a fresh block has them up to its end with the block. -/
theorem covered_appendNode (hl : StoredList l) (hw : Fresh l w) {n : Int}
    (hfront : n < w.a → n ∈ storedBytes l) (hn : n ≤ w.b) :
    n ∈ storedBytes (appendNode l w) := by
  apply (mem_storedBytes_appendNode hl hw).mpr
  by_cases hlt : n < w.a
  · exact .inl (hfront hlt)
  · exact .inr ⟨by omega, hn⟩

/-- The bytes of a fresh block are not those of a stored one, and its offset is behind it. -/
theorem Fresh.apart (hl : WellFormed l) (hw : Fresh l w) {y : IntervalPositionByteDisk} (hy : y ∈ l) :
    (w.b < y.a ∨ y.b < w.a) ∧ y.lastPosition < w.position := by
  constructor
  · have hyb := hl.bounds y hy
    have hab := hw.le
    by_contra hmeet
    exact hw.free (max w.a y.a) (by omega) (by omega) ⟨y, hy, by omega, by omega⟩
  · rw [hw.position]
    exact (getPointEnd_spec hl).1 y hy

theorem WellFormed.appendNode (hl : WellFormed l) (hw : Fresh l w) :
    WellFormed (appendNode l w) := by
  have hw₀ := hw.a_nonneg
  have hwab := hw.le
  rcases appendNode_appended l w with hperm | ⟨last, rest, hperm, hnext, hend, hperm'⟩
  · have hbounds : 0 ≤ w.a ∧ w.a ≤ w.b ∧ 0 ≤ w.position :=
      ⟨hw₀, hwab, hw.position ▸ getPointEnd_nonneg hl⟩
    exact WellFormed.perm (WellFormed.cons hl hbounds (fun y hy => (hw.apart hl hy).1)
      fun y hy => .inr (hw.apart hl hy).2) hperm.symm
  · have hl' := hl.perm hperm
    have hb := hl'.bounds last List.mem_cons_self
    have hextended : 0 ≤ last.a ∧ last.a ≤ w.b ∧ 0 ≤ last.position := ⟨hb.1, by omega, hb.2.2⟩
    refine WellFormed.perm (WellFormed.cons hl'.of_cons hextended ?_ ?_) hperm'.symm
    · intro y hy
      have hyb := hl'.bounds y (List.mem_cons_of_mem last hy)
      have hy' := (hw.apart hl (hperm.mem_iff.mpr (List.mem_cons_of_mem last hy))).1
      rcases (List.pairwise_cons.mp hl'.apart).1 y hy with h | h <;> simp only <;> omega
    · intro y hy
      have hyb := hl'.bounds y (List.mem_cons_of_mem last hy)
      have hyend := (getPointEnd_spec hl).1 y (hperm.mem_iff.mpr (List.mem_cons_of_mem last hy))
      rw [hend] at hyend
      rcases (List.pairwise_cons.mp hl'.disk).1 y hy with h | h <;>
        simp only [IntervalPositionByteDisk.lastPosition] at * <;> omega

theorem getPointEnd_appendNode (hl : WellFormed l) (hw : Fresh l w) :
    getPointEnd (appendNode l w) = w.position + (w.b - w.a + 1) := by
  have hab := hw.le
  have hpos := hw.position
  apply getPointEnd_eq (hl.appendNode hw)
  · intro x hx
    rcases appendNode_appended l w with hperm | ⟨last, rest, hperm, hnext, hend, hperm'⟩
    · rcases List.mem_cons.mp (hperm.mem_iff.mp hx) with rfl | hx
      · simp only [IntervalPositionByteDisk.lastPosition]
        omega
      · have := (hw.apart hl hx).2
        omega
    · rcases List.mem_cons.mp (hperm'.mem_iff.mp hx) with rfl | hx
      · simp only [IntervalPositionByteDisk.lastPosition] at *
        omega
      · have := (hw.apart hl (hperm.mem_iff.mpr (List.mem_cons_of_mem last hx))).2
        omega
  · rcases appendNode_appended l w with hperm | ⟨last, rest, hperm, hnext, hend, hperm'⟩
    · refine ⟨w, hperm.mem_iff.mpr List.mem_cons_self, ?_⟩
      simp only [IntervalPositionByteDisk.lastPosition]
      omega
    · refine ⟨_, hperm'.mem_iff.mpr List.mem_cons_self, ?_⟩
      simp only [IntervalPositionByteDisk.lastPosition] at *
      omega

theorem getFileSize_eq_span (l : LintervalPositionByteDisk) :
    getFileSize l = span IntervalPositionByteDisk.a IntervalPositionByteDisk.b l := by
  induction l with
  | nil => rfl
  | cons x l ih => rw [getFileSize, span_cons, ih]

theorem getFileSize_perm {l' : LintervalPositionByteDisk} (h : l.Perm l') :
    getFileSize l = getFileSize l' := by
  rw [getFileSize_eq_span, getFileSize_eq_span, span_perm h]

theorem getFileSize_appendNode (l : LintervalPositionByteDisk) (w : IntervalPositionByteDisk) :
    getFileSize (appendNode l w) = getFileSize l + (w.b - w.a + 1) := by
  rcases appendNode_appended l w with hperm | ⟨last, rest, hperm, hnext, -, hperm'⟩
  · rw [getFileSize_perm hperm, getFileSize]
    omega
  · rw [getFileSize_perm hperm', getFileSize_perm hperm, getFileSize, getFileSize]
    simp only
    omega

theorem appendNode_b_le {m : Int} (hl : ∀ x ∈ l, x.b ≤ m) (hb : w.b ≤ m) :
    ∀ x ∈ appendNode l w, x.b ≤ m := by
  intro x hx
  rcases appendNode_appended l w with hperm | ⟨last, rest, hperm, -, -, hperm'⟩
  · rcases List.mem_cons.mp (hperm.mem_iff.mp hx) with rfl | hx
    · exact hb
    · exact hl x hx
  · rcases List.mem_cons.mp (hperm'.mem_iff.mp hx) with rfl | hx
    · exact hb
    · exact hl x (hperm.mem_iff.mpr (List.mem_cons_of_mem last hx))

/-! ### A fresh block in two parts -/

/-- The first `k` bytes of a block. -/
def IntervalPositionByteDisk.firstPart (w : IntervalPositionByteDisk) (k : Int) :
    IntervalPositionByteDisk :=
  { w with b := k + w.a - 1 }

/-- The bytes of a block behind the first `k`. -/
def IntervalPositionByteDisk.lastPart (w : IntervalPositionByteDisk) (k : Int) :
    IntervalPositionByteDisk :=
  { w with a := w.a + k, position := w.position + k }

theorem Fresh.firstPart (hw : Fresh l w) {k : Int} (hk : 0 < k) (hkb : k ≤ w.b - w.a + 1) :
    Fresh l (w.firstPart k) := by
  refine ⟨hw.a_nonneg, ?_, hw.position, fun n hn hn' => hw.free n hn ?_⟩
  · simp only [IntervalPositionByteDisk.firstPart]
    omega
  · simp only [IntervalPositionByteDisk.firstPart] at hn'
    omega

/-- The rest of a fresh block is fresh once its first part is appended. -/
theorem Fresh.lastPart (hl : WellFormed l) (hw : Fresh l w) {k : Int} (hk : 0 < k)
    (hkb : k < w.b - w.a + 1) : Fresh (Haarp.appendNode l (w.firstPart k)) (w.lastPart k) := by
  have hfirst := hw.firstPart hk (by omega)
  have hw₀ := hw.a_nonneg
  refine ⟨?_, ?_, ?_, ?_⟩
  · simp only [IntervalPositionByteDisk.lastPart]
    omega
  · simp only [IntervalPositionByteDisk.lastPart]
    omega
  · rw [getPointEnd_appendNode hl hfirst]
    simp only [IntervalPositionByteDisk.lastPart, IntervalPositionByteDisk.firstPart]
    omega
  · intro n hn hn' hst
    simp only [IntervalPositionByteDisk.lastPart] at hn hn'
    rcases (mem_storedBytes_appendNode hl.toStoredList hfirst).mp hst with hst | ⟨-, hlt⟩
    · exact hw.free n (by omega) hn' hst
    · simp only [IntervalPositionByteDisk.firstPart] at hlt
      omega

end AppendNode

/-! ## Growth -/

/-- `l'` is `l` with fresh blocks appended one after the other, of bytes from `s` on and before `e`. -/
inductive Grows (s e : Int) (l : LintervalPositionByteDisk) : LintervalPositionByteDisk → Prop
  | refl : Grows s e l l
  | append {l' : LintervalPositionByteDisk} {w : IntervalPositionByteDisk} (grows : Grows s e l l')
      (fresh : Fresh l' w) (start : s ≤ w.a) (below : w.b < e) : Grows s e l (appendNode l' w)

section Growth

variable {s e : Int} {l l' : LintervalPositionByteDisk}

theorem Grows.trans {l'' : LintervalPositionByteDisk} (h : Grows s e l l') (h' : Grows s e l' l'') :
    Grows s e l l'' := by
  induction h' with
  | refl => exact h
  | append _ fresh start below ih => exact .append ih fresh start below

theorem Grows.mono {e' : Int} (h : Grows s e l l') (he : e ≤ e') : Grows s e' l l' := by
  induction h with
  | refl => exact .refl
  | append _ fresh start below ih => exact .append ih fresh start (by omega)

theorem Grows.wellFormed (h : Grows s e l l') (hl : WellFormed l) : WellFormed l' := by
  induction h with
  | refl => exact hl
  | append _ fresh _ _ ih => exact ih.appendNode fresh

/-- Every byte stays where it was. -/
theorem Grows.placed (h : Grows s e l l') (hl : WellFormed l) {n p : Int} (hn : Placed l n p) :
    Placed l' n p := by
  induction h with
  | refl => exact hn
  | append grows fresh _ _ ih =>
    exact (placed_appendNode (grows.wellFormed hl).toStoredList fresh).mpr (.inl ih)

theorem Grows.stored (h : Grows s e l l') (hl : WellFormed l) {n : Int} (hn : n ∈ storedBytes l) :
    n ∈ storedBytes l' :=
  let ⟨_, hp⟩ := exists_placed hn
  (h.placed hl hp).stored

/-- No byte is gained but those from `s` on and before `e`. -/
theorem Grows.gained (h : Grows s e l l') (hl : WellFormed l) {n : Int} (hn : n ∈ storedBytes l') :
    n ∈ storedBytes l ∨ (s ≤ n ∧ n < e) := by
  induction h with
  | refl => exact .inl hn
  | append grows fresh start below ih =>
    rcases (mem_storedBytes_appendNode (grows.wellFormed hl).toStoredList fresh).mp hn with hn | hn
    · exact ih hn
    · exact .inr ⟨by omega, by omega⟩

end Growth

/-! ## Lists without holes -/

/-- A well-formed list whose blocks fill the file from its start on, with every byte number below
`m`. -/
structure Packed (m : Int) (l : LintervalPositionByteDisk) : Prop extends WellFormed l where
  noHole : getPointEnd l = getFileSize l
  below : ∀ x ∈ l, x.b < m

theorem packed_nil (m : Int) : Packed m [] := ⟨wellFormed_nil, rfl, by simp⟩

theorem Packed.perm {m : Int} {l l' : LintervalPositionByteDisk} (h : Packed m l) (hp : l.Perm l') :
    Packed m l' := by
  have hl' := h.toWellFormed.perm hp
  refine ⟨hl', ?_, fun x hx => h.below x (hp.mem_iff.mpr hx)⟩
  rw [← getFileSize_perm hp, ← h.noHole]
  cases l with
  | nil => rw [List.nil_perm.mp hp]
  | cons x l =>
    obtain ⟨hall, hex⟩ := getPointEnd_spec h.toWellFormed
    obtain ⟨y, hy, hye⟩ := hex (List.cons_ne_nil x l)
    exact getPointEnd_eq hl' (fun z hz => hall z (hp.mem_iff.mpr hz)) ⟨y, hp.mem_iff.mp hy, hye⟩

theorem Grows.packed {m s e : Int} {l l' : LintervalPositionByteDisk} (h : Grows s e l l') (he : e ≤ m)
    (hl : Packed m l) : Packed m l' := by
  induction h with
  | refl => exact hl
  | @append l' w grows fresh start below ih =>
    refine ⟨ih.toWellFormed.appendNode fresh, ?_, fun x hx => ?_⟩
    · rw [getPointEnd_appendNode ih.toWellFormed fresh, getFileSize_appendNode, fresh.position,
        ih.noHole]
    · have := appendNode_b_le (m := m - 1) (fun y hy => Int.le_sub_one_of_lt (ih.below y hy))
        (by omega) x hx
      omega

/-- The file of such a list is no longer than `m`. -/
theorem Packed.getPointEnd_le {m : Int} {l : LintervalPositionByteDisk} (h : Packed m l)
    (hm : 0 ≤ m) : getPointEnd l ≤ m := by
  rw [h.noHole, getFileSize_eq_span]
  exact span_le_of_apart h.apart (fun x hx => (h.bounds x hx).2.1) (fun x hx => (h.bounds x hx).1)
    h.below hm

end Haarp
