import Haarp.Base.Interval
import Haarp.Base.Layout
import Haarp.Utils.Blocks

/-!
# What `getRangeWork` plans

A block list is read in two ways: the bytes it stores (`storedBytes`) and where each of them lies in
the cache file (`Placed`). `StoredList` is what the planner needs of a list: bounds in order, no
negative offset, no byte stored twice.

`getRangeWork_spec`: the plan tiles the request up to `planEnd`, each of its blocks is either missing
and shares no byte with the list, or lies inside one stored block at the offset of that block, and
`*hit` says that none is missing. `planEnd` is one short of the request when the request ends exactly
one byte behind the last stored byte: the tail test `interval_b > tope` leaves that byte out.
-/

namespace Haarp

open Base

/-! ## The abstract reading of a block list -/

/-- The bytes stored by the list. -/
abbrev storedBytes (l : LintervalPositionByteDisk) : Set Int :=
  covered IntervalPositionByteDisk.a IntervalPositionByteDisk.b l

/-- Byte `n` lies at offset `p` of the cache file. -/
def Placed (l : LintervalPositionByteDisk) (n p : Int) : Prop :=
  ∃ x ∈ l, x.a ≤ n ∧ n ≤ x.b ∧ p = x.position + (n - x.a)

/-- The blocks follow one another from `s` up to `e` (exclusive). -/
abbrev TilesBytes (s : Int) (l : LintervalPositionByteDisk) (e : Int) : Prop :=
  Tiles IntervalPositionByteDisk.a IntervalPositionByteDisk.b s l e

/-- No byte is stored twice. -/
abbrev ApartBytes (l : LintervalPositionByteDisk) : Prop :=
  l.Pairwise (Apart IntervalPositionByteDisk.a IntervalPositionByteDisk.b)

/-- A list of stored blocks: `0 ≤ a ≤ b`, `0 ≤ position`, no byte stored twice. -/
structure StoredList (l : LintervalPositionByteDisk) : Prop where
  bounds : ∀ x ∈ l, 0 ≤ x.a ∧ x.a ≤ x.b ∧ 0 ≤ x.position
  apart : ApartBytes l

instance (l : LintervalPositionByteDisk) : Decidable (StoredList l) :=
  decidable_of_iff
    ((∀ x ∈ l, 0 ≤ x.a ∧ x.a ≤ x.b ∧ 0 ≤ x.position) ∧ ApartBytes l)
    ⟨fun h => ⟨h.1, h.2⟩, fun h => ⟨h.bounds, h.apart⟩⟩

/-- A block of a plan that is not stored: no stored byte is in it. -/
def Missing (l : LintervalPositionByteDisk) (w : IntervalPositionByteDisk) : Prop :=
  w.position = -1 ∧ ∀ n, w.a ≤ n → n ≤ w.b → n ∉ storedBytes l

/-- A block of a plan that lies inside one stored block, at its offset. -/
def InStored (l : LintervalPositionByteDisk) (w : IntervalPositionByteDisk) : Prop :=
  ∃ x ∈ l, x.a ≤ w.a ∧ w.b ≤ x.b ∧ w.position = x.position + (w.a - x.a)

theorem Placed.stored {l : LintervalPositionByteDisk} {n p : Int} (h : Placed l n p) :
    n ∈ storedBytes l :=
  let ⟨x, hx, ha, hb, _⟩ := h
  ⟨x, hx, ha, hb⟩

theorem exists_placed {l : LintervalPositionByteDisk} {n : Int} (h : n ∈ storedBytes l) :
    ∃ p, Placed l n p :=
  let ⟨x, hx, ha, hb⟩ := h
  ⟨_, x, hx, ha, hb, rfl⟩

theorem placed_perm {l l' : LintervalPositionByteDisk} (h : l.Perm l') {n p : Int} :
    Placed l n p ↔ Placed l' n p := by
  simp only [Placed, h.mem_iff]

theorem StoredList.perm {l l' : LintervalPositionByteDisk} (h : StoredList l) (hp : l.Perm l') :
    StoredList l' :=
  ⟨fun x hx => h.bounds x (hp.mem_iff.mpr hx), (pairwise_apart_perm hp).mp h.apart⟩

theorem missing_perm {l l' : LintervalPositionByteDisk} (h : l.Perm l')
    {w : IntervalPositionByteDisk} : Missing l w ↔ Missing l' w := by
  simp only [Missing, storedBytes, covered_perm h]

theorem inStored_perm {l l' : LintervalPositionByteDisk} (h : l.Perm l')
    {w : IntervalPositionByteDisk} : InStored l w ↔ InStored l' w := by
  simp only [InStored, h.mem_iff]

/-- The offset of a stored block of a plan is not negative, and its bytes are stored. -/
theorem InStored.position_nonneg {l : LintervalPositionByteDisk} {w : IntervalPositionByteDisk}
    (hl : StoredList l) (h : InStored l w) : 0 ≤ w.position := by
  obtain ⟨x, hx, ha, -, hp⟩ := h
  have := hl.bounds x hx
  omega

theorem InStored.placed {l : LintervalPositionByteDisk} {w : IntervalPositionByteDisk}
    (h : InStored l w) {n : Int} (ha : w.a ≤ n) (hb : n ≤ w.b) :
    Placed l n (w.position + (n - w.a)) := by
  obtain ⟨x, hx, hxa, hxb, hp⟩ := h
  exact ⟨x, hx, by omega, by omega, by omega⟩

/-! ## The last stored byte -/

theorem getExtremeb_foldl (l : LintervalPositionByteDisk) (m : Int) :
    let r := l.foldl (fun max it => if it.b > max then it.b else max) m
    m ≤ r ∧ (∀ x ∈ l, x.b ≤ r) ∧ (r = m ∨ ∃ x ∈ l, x.b = r) := by
  induction l generalizing m with
  | nil => simp
  | cons y l ih =>
    obtain ⟨h₁, h₂, h₃⟩ := ih (if y.b > m then y.b else m)
    simp only [List.foldl_cons]
    have hy : m ≤ (if y.b > m then y.b else m) ∧ y.b ≤ (if y.b > m then y.b else m) := by
      split <;> omega
    refine ⟨by omega, ?_, ?_⟩
    · intro x hx
      rcases List.mem_cons.mp hx with rfl | hx
      · omega
      · exact h₂ x hx
    · rcases h₃ with h₃ | ⟨x, hx, hxr⟩
      · by_cases hm : y.b > m
        · right
          exact ⟨y, List.mem_cons_self, by rw [h₃, if_pos hm]⟩
        · left
          rw [h₃, if_neg hm]
      · exact .inr ⟨x, List.mem_cons_of_mem y hx, hxr⟩

theorem le_getExtremeb {l : LintervalPositionByteDisk} {x : IntervalPositionByteDisk} (hx : x ∈ l) :
    x.b ≤ getExtremeb l :=
  (getExtremeb_foldl l (-1)).2.1 x hx

/-- `getExtremeb` is reached by a block, unless it is its start value. -/
theorem getExtremeb_cases (l : LintervalPositionByteDisk) :
    getExtremeb l = -1 ∨ ∃ x ∈ l, x.b = getExtremeb l :=
  (getExtremeb_foldl l (-1)).2.2

theorem getExtremeb_lt {l : LintervalPositionByteDisk} {m : Int} (hm : 0 ≤ m)
    (h : ∀ x ∈ l, x.b < m) : getExtremeb l < m := by
  rcases getExtremeb_cases l with h' | ⟨x, hx, hx'⟩
  · omega
  · have := h x hx
    omega

/-- The end (exclusive) of the plan for the bytes `interval_a` to `interval_b`. -/
def planEnd (l : LintervalPositionByteDisk) (interval_a interval_b : Int) : Int :=
  if interval_a < interval_b ∧ getExtremeb l = interval_b - 1 then interval_b else interval_b + 1

/-- The plan reaches as far as the request when a block does. -/
theorem planEnd_of_le {l : LintervalPositionByteDisk} {interval_a interval_b : Int}
    {x : IntervalPositionByteDisk} (hx : x ∈ l) (hxb : interval_b ≤ x.b) :
    planEnd l interval_a interval_b = interval_b + 1 := by
  have := le_getExtremeb hx
  rw [planEnd, if_neg (by omega)]

/-! ## The sorted list -/

theorem sortIntervals_perm (l : LintervalPositionByteDisk) : (sortIntervals l).Perm l :=
  List.perm_insertionSort compareIntervals l

instance : Std.Total compareIntervals where
  total x y := Int.le_total x.a y.a

instance : IsTrans IntervalPositionByteDisk compareIntervals where
  trans _ _ _ h h' := Int.le_trans h h'

/-- Sorted, the blocks of a stored list lie one behind the other. -/
theorem sortIntervals_sorted {l : LintervalPositionByteDisk} (hl : StoredList l) :
    (sortIntervals l).Pairwise fun x y => x.b < y.a := by
  have hs := hl.perm (sortIntervals_perm l).symm
  exact sorted_apart (List.pairwise_insertionSort compareIntervals l) hs.apart
    fun x hx => (hs.bounds x hx).2.1

/-! ## The two loops -/

section Loops

variable {l : LintervalPositionByteDisk} {interval_a interval_b : Int}

variable (l interval_a) in
/-- The plan made so far: it tiles the request up to `tope`, its blocks are right, and so is `*hit`. -/
structure Planned (w : RangeWork) : Prop where
  tiles : TilesBytes interval_a w.pr w.tope
  blocks : ∀ x ∈ w.pr, Missing l x ∨ InStored l x
  hit : w.hit = true ↔ ∀ x ∈ w.pr, InStored l x

theorem Planned.pushMiss (hl : StoredList l) {w : RangeWork} (hw : Planned l interval_a w) {b : Int}
    (hb : w.tope ≤ b) (hfree : ∀ n, w.tope ≤ n → n ≤ b → n ∉ storedBytes l) :
    Planned l interval_a (w.pushMiss b) := by
  refine ⟨hw.tiles.snoc rfl hb, ?_, ?_⟩
  · intro x hx
    rcases List.mem_append.mp hx with hx | hx
    · exact hw.blocks x hx
    · cases List.mem_singleton.mp hx
      exact .inl ⟨rfl, hfree⟩
  · constructor
    · intro h
      cases h
    · intro h
      have hin := h _ (List.mem_append_right w.pr (List.mem_singleton_self _))
      exact absurd (hin.position_nonneg hl) (by simp)

theorem Planned.pushStored {w : RangeWork} (hw : Planned l interval_a w)
    {x : IntervalPositionByteDisk} (hx : InStored l x) (hxa : x.a = w.tope) (hxb : x.a ≤ x.b) :
    Planned l interval_a { w with pr := w.pr ++ [x], tope := x.b + 1 } := by
  refine ⟨hw.tiles.snoc hxa hxb, ?_, ?_⟩
  · intro y hy
    rcases List.mem_append.mp hy with hy | hy
    · exact hw.blocks y hy
    · cases List.mem_singleton.mp hy
      exact .inr hx
  · rw [hw.hit]
    constructor
    · intro h y hy
      rcases List.mem_append.mp hy with hy | hy
      · exact h y hy
      · cases List.mem_singleton.mp hy
        exact hx
    · intro h y hy
      exact h y (List.mem_append_left [x] hy)

variable (l interval_a interval_b) in
/-- What the second loop starts from and keeps: the nodes `its` still to visit are the stored blocks
from `tope` on. -/
structure LoopInv (w : RangeWork) (its : LintervalPositionByteDisk) : Prop where
  planned : Planned l interval_a w
  first : interval_a ≤ w.tope
  last : w.tope ≤ interval_b
  sorted : its.Pairwise fun x y => x.b < y.a
  subset : ∀ x ∈ its, x ∈ l
  ahead : ∀ x ∈ its, w.tope ≤ x.a
  behind : ∀ x ∈ l, x ∈ its ∨ x.b < w.tope
  reached : its ≠ [] ∨ ∃ x ∈ l, x.b + 1 = w.tope ∧ interval_a ≤ x.b

variable (l interval_a interval_b) in
/-- How the second loop ends: with the whole request planned, or at the end of the list. -/
inductive LoopEnd (w : RangeWork) : Prop
  | whole (past : interval_b < w.tope)
      (planned : Planned l interval_a { w with tope := interval_b + 1 })
      (beyond : ∃ x ∈ l, interval_b ≤ x.b)
  | exhausted (last : w.tope ≤ interval_b) (planned : Planned l interval_a w)
      (behind : ∀ x ∈ l, x.b < w.tope) (reached : ∃ x ∈ l, x.b + 1 = w.tope ∧ interval_a ≤ x.b)

/-- Behind a node, the blocks are in the rest of the list or end before `n`. -/
theorem behind_tail {it : IntervalPositionByteDisk} {its : LintervalPositionByteDisk} {m n : Int}
    (h : ∀ x ∈ l, x ∈ it :: its ∨ x.b < m) (hit : it.b < n) (hle : m ≤ n) :
    ∀ x ∈ l, x ∈ its ∨ x.b < n := by
  intro x hx
  rcases h x hx with hmem | hlt
  · rcases List.mem_cons.mp hmem with rfl | hmem
    · exact .inr hit
    · exact .inl hmem
  · exact .inr (by omega)

/-- No stored byte lies between `tope` and the next node. -/
theorem LoopInv.free {w : RangeWork} {it : IntervalPositionByteDisk}
    {its : LintervalPositionByteDisk} (h : LoopInv l interval_a interval_b w (it :: its)) {n : Int}
    (hn : w.tope ≤ n) (hlt : n < it.a) (hl : StoredList l) : n ∉ storedBytes l := by
  rintro ⟨x, hx, hxa, hxb⟩
  rcases h.behind x hx with hmem | hlt'
  · rcases List.mem_cons.mp hmem with rfl | hmem
    · omega
    · have := (List.pairwise_cons.mp h.sorted).1 x hmem
      have := hl.bounds it (h.subset it List.mem_cons_self)
      omega
  · omega

/-- The gap before the next node, if there is one, becomes a missing block. -/
theorem LoopInv.gap (hl : StoredList l) {w : RangeWork} {it : IntervalPositionByteDisk}
    {its : LintervalPositionByteDisk} (h : LoopInv l interval_a interval_b w (it :: its)) :
    let w' := if w.tope < it.a then w.pushMiss (it.a - 1) else w
    Planned l interval_a w' ∧ w'.tope = it.a := by
  have hge := h.ahead it List.mem_cons_self
  split
  · refine ⟨h.planned.pushMiss hl (by omega) fun n hn hn' => h.free hn (by omega) hl, ?_⟩
    simp [RangeWork.pushMiss]
  · exact ⟨h.planned, by omega⟩

/-- A node that ends before `interval_b` is planned, and the loop goes on behind it. -/
theorem LoopInv.next (hl : StoredList l) {w w' : RangeWork} {it : IntervalPositionByteDisk}
    {its : LintervalPositionByteDisk} (h : LoopInv l interval_a interval_b w (it :: its))
    (hw' : Planned l interval_a w') (htope : w'.tope = it.a) (hlast : it.b < interval_b) :
    LoopInv l interval_a interval_b { w' with pr := w'.pr ++ [it], tope := it.b + 1 } its := by
  have hitl : it ∈ l := h.subset it List.mem_cons_self
  have hb := hl.bounds it hitl
  have hfirst := h.first
  have hahead := h.ahead it List.mem_cons_self
  obtain ⟨hits, hsorted⟩ := List.pairwise_cons.mp h.sorted
  refine ⟨hw'.pushStored ⟨it, hitl, le_rfl, le_rfl, by omega⟩ htope.symm hb.2.1, ?_, ?_, hsorted,
    fun x hx => h.subset x (List.mem_cons_of_mem it hx), ?_, ?_, ?_⟩
  · simp only
    omega
  · simp only
    omega
  · intro x hx
    have := hits x hx
    simp only
    omega
  · exact behind_tail h.behind (by simp only; omega) (by simp only; omega)
  · exact .inr ⟨it, hitl, rfl, by omega⟩

theorem getRangeWorkLoop_end (hl : StoredList l) (hia : 0 ≤ interval_a) :
    ∀ (its : LintervalPositionByteDisk) (w : RangeWork),
      LoopInv l interval_a interval_b w its →
      LoopEnd l interval_a interval_b (getRangeWorkLoop interval_b w its) := by
  intro its
  induction its with
  | nil =>
    intro w h
    refine .exhausted h.last h.planned (fun x hx => ?_) (h.reached.resolve_left (by simp))
    exact (h.behind x hx).resolve_left List.not_mem_nil
  | cons it its ih =>
    intro w h
    have hitl : it ∈ l := h.subset it List.mem_cons_self
    have hb := hl.bounds it hitl
    have h₀ : ¬ w.tope < 0 := by
      have := h.first
      omega
    simp only [getRangeWorkLoop, h₀, if_false]
    by_cases hlt : interval_b < it.a
    · rw [if_pos hlt]
      refine .whole ?_ (h.planned.pushMiss hl h.last fun n hn hn' => h.free hn (by omega) hl)
        ⟨it, hitl, by omega⟩
      simp [RangeWork.pushMiss]
    · rw [if_neg hlt]
      obtain ⟨hw', htope⟩ := h.gap hl
      generalize (if w.tope < it.a then w.pushMiss (it.a - 1) else w) = w' at hw' htope ⊢
      by_cases hin : interval_b ≥ it.a ∧ interval_b ≤ it.b
      · rw [if_pos hin]
        -- the request ends inside this node
        refine .whole (by simp only; omega) ?_ ⟨it, hitl, hin.2⟩
        have hx : InStored l { a := w'.tope, b := interval_b, position := it.position } :=
          ⟨it, hitl, by simp only; omega, hin.2, by simp only; omega⟩
        exact hw'.pushStored hx rfl (by simp only; omega)
      · rw [if_neg hin]
        apply ih
        exact h.next hl hw' htope (by omega)

variable (l interval_a interval_b) in
/-- How the first loop ends: one block holds the request, no block reaches it, or the second loop
takes over. -/
inductive StartEnd :
    LintervalPositionByteDisk ⊕ (LintervalPositionByteDisk × Int × LintervalPositionByteDisk) → Prop
  | whole (w : IntervalPositionByteDisk) (ha : w.a = interval_a) (hb : w.b = interval_b)
      (hin : InStored l w) (beyond : ∃ x ∈ l, interval_b ≤ x.b) : StartEnd (.inl [w])
  | nothing (behind : ∀ x ∈ l, x.b < interval_a) : StartEnd (.inr ([], -1, []))
  | loop (pr : LintervalPositionByteDisk) (tope : Int) (its : LintervalPositionByteDisk)
      (inv : LoopInv l interval_a interval_b { pr, hit := true, tope } its) :
      StartEnd (.inr (pr, tope, its))

theorem getRangeWorkStart_end (hl : StoredList l) (hab : interval_a ≤ interval_b) :
    ∀ its : LintervalPositionByteDisk, its.Pairwise (fun x y => x.b < y.a) → (∀ x ∈ its, x ∈ l) →
      (∀ x ∈ l, x ∈ its ∨ x.b < interval_a) →
      StartEnd l interval_a interval_b (getRangeWorkStart interval_a interval_b its) := by
  intro its
  induction its with
  | nil =>
    intro _ _ hbehind
    exact .nothing fun x hx => (hbehind x hx).resolve_left List.not_mem_nil
  | cons it its ih =>
    intro hsorted hsub hbehind
    have hitl := hsub it List.mem_cons_self
    obtain ⟨hits, hsorted'⟩ := List.pairwise_cons.mp hsorted
    simp only [getRangeWorkStart]
    by_cases hlt : interval_a < it.a
    · rw [if_pos hlt]
      refine .loop [] interval_a _ ⟨⟨rfl, by simp, by simp⟩, le_rfl, hab, hsorted, hsub, ?_, hbehind,
        .inl (by simp)⟩
      intro x hx
      rcases List.mem_cons.mp hx with rfl | hx
      · exact hlt.le
      · have := hits x hx
        have := hl.bounds it hitl
        simp only
        omega
    · rw [if_neg hlt]
      by_cases hin : interval_a ≥ it.a ∧ interval_a ≤ it.b
      · rw [if_pos hin]
        have hstart : ∀ b, b ≤ it.b →
            InStored l { a := interval_a, b, position := it.position + interval_a - it.a } :=
          fun b hb => ⟨it, hitl, hin.1, hb, by simp only; omega⟩
        by_cases hib : interval_b ≤ it.b
        · rw [if_pos hib]
          exact .whole _ rfl rfl (hstart _ hib) ⟨it, hitl, hib⟩
        · rw [if_neg hib]
          refine .loop _ _ _ ⟨?_, ?_, ?_, hsorted', fun x hx => hsub x (List.mem_cons_of_mem it hx),
            fun x hx => ?_, behind_tail hbehind ?_ ?_, .inr ⟨it, hitl, rfl, hin.2⟩⟩
          · exact ⟨⟨rfl, hin.2, rfl⟩, by simpa using .inr (hstart _ le_rfl),
              by simpa using hstart _ le_rfl⟩
          · simp only
            omega
          · simp only
            omega
          · have := hits x hx
            simp only
            omega
          · simp only
            omega
          · simp only
            omega
      · rw [if_neg hin]
        apply ih hsorted' fun x hx => hsub x (List.mem_cons_of_mem it hx)
        exact behind_tail hbehind (by omega) le_rfl

/-- What the end of the second loop leaves to be planned. -/
theorem LoopEnd.tail (hl : StoredList l) (h₀ : 0 ≤ interval_a) (hab : interval_a ≤ interval_b)
    {w : RangeWork} (h : LoopEnd l interval_a interval_b w) :
    let plan := getRangeWorkTail interval_a interval_b w
    TilesBytes interval_a plan.1 (planEnd l interval_a interval_b) ∧
      (∀ x ∈ plan.1, Missing l x ∨ InStored l x) ∧
      (plan.2 = true ↔ ∀ x ∈ plan.1, InStored l x) := by
  cases h with
  | whole past planned beyond =>
    obtain ⟨x, hx, hxb⟩ := beyond
    rw [getRangeWorkTail, if_neg (by omega), if_neg (by omega), planEnd_of_le hx hxb]
    exact ⟨planned.tiles, planned.blocks, planned.hit⟩
  | exhausted last planned behind reached =>
    obtain ⟨x, hx, hxtope, hxa⟩ := reached
    have hextreme : getExtremeb l + 1 = w.tope := by
      have := le_getExtremeb hx
      have := getExtremeb_lt (by omega) behind
      omega
    rw [getRangeWorkTail, if_neg (by omega)]
    by_cases hgt : interval_b > w.tope
    · -- the tail behind the last block is planned as missing
      rw [if_pos hgt, planEnd, if_neg (by omega)]
      have hpush := planned.pushMiss hl last (b := interval_b) fun n hn _ hst => by
        obtain ⟨y, hy, -, hyb⟩ := hst
        have := behind y hy
        omega
      exact ⟨hpush.tiles, hpush.blocks, hpush.hit⟩
    · rw [if_neg hgt, planEnd, if_pos (by omega)]
      have htope : w.tope = interval_b := by omega
      exact ⟨htope ▸ planned.tiles, planned.blocks, planned.hit⟩

end Loops

/-! ## The plan -/

/-- **What `getRangeWork` computes**: a plan that tiles the request up to `planEnd`, of blocks that
are missing or lie inside one stored block, with `*hit` set when none is missing. -/
theorem getRangeWork_spec {l : LintervalPositionByteDisk} (hl : StoredList l)
    {interval_a interval_b : Int} (h₀ : 0 ≤ interval_a) (hab : interval_a ≤ interval_b) :
    let plan := getRangeWork l interval_a interval_b
    TilesBytes interval_a plan.1 (planEnd l interval_a interval_b) ∧
      (∀ w ∈ plan.1, Missing l w ∨ InStored l w) ∧
      (plan.2 = true ↔ ∀ w ∈ plan.1, InStored l w) := by
  have hperm := sortIntervals_perm l
  have hstart := getRangeWorkStart_end hl hab (sortIntervals l) (sortIntervals_sorted hl)
    (fun x hx => hperm.mem_iff.mp hx) fun x hx => .inl (hperm.mem_iff.mpr hx)
  simp only [getRangeWork]
  generalize getRangeWorkStart interval_a interval_b (sortIntervals l) = start at hstart
  cases hstart with
  | whole w ha hb hin beyond =>
    obtain ⟨x, hx, hxb⟩ := beyond
    refine ⟨?_, by simpa using .inr hin, by simpa using hin⟩
    rw [planEnd_of_le hx hxb, ← ha, ← hb]
    exact ⟨rfl, by omega, rfl⟩
  | nothing behind =>
    have hmiss : Missing l { a := interval_a, b := interval_b, position := -1 } := by
      refine ⟨rfl, ?_⟩
      rintro n hn - ⟨x, hx, -, hxb⟩
      have := behind x hx
      simp only at hn
      omega
    have hend : planEnd l interval_a interval_b = interval_b + 1 := by
      have := getExtremeb_lt h₀ behind
      rw [planEnd, if_neg (by omega)]
    simp only [getRangeWorkLoop, getRangeWorkTail, if_true]
    refine ⟨?_, by simpa using .inl hmiss, ?_⟩
    · rw [hend]
      exact ⟨rfl, hab, rfl⟩
    · simp only [Bool.false_eq_true, List.mem_singleton, forall_eq, false_iff]
      intro hin
      exact absurd (hin.position_nonneg hl) (by simp)
  | loop pr tope its inv =>
    exact (getRangeWorkLoop_end hl h₀ its _ inv).tail hl h₀ hab

/-! ## The hit decision -/

section Hit

variable {l : LintervalPositionByteDisk} {interval_a interval_b : Int}

/-- `*hit` is set exactly when every planned byte is stored. -/
theorem getRangeWork_hit (hl : StoredList l) (h₀ : 0 ≤ interval_a) (hab : interval_a ≤ interval_b) :
    (getRangeWork l interval_a interval_b).2 = true ↔
      ∀ n, interval_a ≤ n → n < planEnd l interval_a interval_b → n ∈ storedBytes l := by
  obtain ⟨htiles, hblocks, hhit⟩ := getRangeWork_spec hl h₀ hab
  rw [hhit]
  constructor
  · intro h n hn hn'
    obtain ⟨w, hw, hwa, hwb⟩ := htiles.mem_covered_iff.mpr ⟨hn, hn'⟩
    exact ((h w hw).placed hwa hwb).stored
  · intro h w hw
    obtain ⟨hwa, hwab, hwe⟩ := htiles.bounds hw
    exact (hblocks w hw).resolve_left fun hmiss => hmiss.2 w.a le_rfl hwab (h w.a hwa (by omega))

/-- `*hit` says whether every requested byte is stored, unless all of them but the last are, and the
last is one byte behind the last stored byte of the list. -/
theorem getRangeWork_hit_stored (hl : StoredList l) (h₀ : 0 ≤ interval_a)
    (hab : interval_a ≤ interval_b) :
    ((getRangeWork l interval_a interval_b).2 = true ↔
        ∀ n, interval_a ≤ n → n ≤ interval_b → n ∈ storedBytes l) ↔
      ¬ (interval_a < interval_b ∧ getExtremeb l = interval_b - 1 ∧
        ∀ n, interval_a ≤ n → n < interval_b → n ∈ storedBytes l) := by
  rw [getRangeWork_hit hl h₀ hab]
  by_cases hshort : interval_a < interval_b ∧ getExtremeb l = interval_b - 1
  · have hlast : interval_b ∉ storedBytes l := by
      rintro ⟨x, hx, -, hxb⟩
      have := le_getExtremeb hx
      omega
    have hnot : ¬ ∀ n, interval_a ≤ n → n ≤ interval_b → n ∈ storedBytes l :=
      fun h => hlast (h interval_b hab le_rfl)
    rw [planEnd, if_pos hshort, iff_false_right hnot]
    exact not_congr ⟨fun h => ⟨hshort.1, hshort.2, h⟩, fun h => h.2.2⟩
  · rw [planEnd, if_neg hshort]
    refine iff_of_true ?_ fun h => hshort ⟨h.1, h.2.1⟩
    exact forall_congr' fun n => forall_congr' fun _ => by rw [Int.lt_add_one_iff]

/-! ## The shape of the plan -/

/-- The blocks lead from byte `interval_a` to byte `interval_b`, without a gap and without a byte
twice. -/
structure TilesRequest (interval_a interval_b : Int) (pr : LintervalPositionByteDisk) : Prop where
  first : ∃ x ∈ pr.head?, x.a = interval_a
  last : ∃ x ∈ pr.getLast?, x.b = interval_b
  bounds : ∀ x ∈ pr, x.a ≤ x.b
  next : pr.IsChain fun x y => y.a = x.b + 1

theorem tilesRequest_iff {pr : LintervalPositionByteDisk} :
    TilesRequest interval_a interval_b pr ↔
      pr ≠ [] ∧ TilesBytes interval_a pr (interval_b + 1) := by
  cases pr with
  | nil =>
    refine iff_of_false (fun h => ?_) fun h => h.1 rfl
    obtain ⟨x, hx, -⟩ := h.first
    cases hx
  | cons x pr =>
    rw [TilesBytes, tiles_cons_iff]
    constructor
    · rintro ⟨⟨y, hy, ha⟩, ⟨z, hz, hb⟩, hbounds, hnext⟩
      cases hy
      exact ⟨List.cons_ne_nil x pr, ha, hbounds, hnext, z, hz, by rw [hb]⟩
    · rintro ⟨-, ha, hbounds, hnext, z, hz, hb⟩
      exact ⟨⟨x, rfl, ha⟩, ⟨z, hz, by omega⟩, hbounds, hnext⟩

/-- The plan tiles the request, unless the request ends one byte behind the last stored byte. -/
theorem getRangeWork_tilesRequest (hl : StoredList l) (h₀ : 0 ≤ interval_a) (hab : interval_a ≤ interval_b) :
    TilesRequest interval_a interval_b (getRangeWork l interval_a interval_b).1 ↔
      ¬ (interval_a < interval_b ∧ getExtremeb l = interval_b - 1) := by
  obtain ⟨htiles, -, -⟩ := getRangeWork_spec hl h₀ hab
  rw [tilesRequest_iff]
  by_cases hshort : interval_a < interval_b ∧ getExtremeb l = interval_b - 1
  · rw [planEnd, if_pos hshort] at htiles
    refine iff_of_false (fun h => ?_) fun h => h hshort
    have := htiles.end_unique h.2
    omega
  · rw [planEnd, if_neg hshort] at htiles
    refine iff_of_true ⟨fun hnil => ?_, htiles⟩ hshort
    rw [hnil] at htiles
    have : interval_a = interval_b + 1 := htiles
    omega

/-- The disk mapping of the plan: a block is marked as missing and shares no byte with the list,
or it lies inside one stored block, at the offset of that block; `*hit` is set when none is marked. -/
theorem getRangeWork_mapped (hl : StoredList l) (h₀ : 0 ≤ interval_a)
    (hab : interval_a ≤ interval_b) :
    (∀ w ∈ (getRangeWork l interval_a interval_b).1, Missing l w ∨ (w.a ≤ w.b ∧ InStored l w)) ∧
      ((getRangeWork l interval_a interval_b).2 = true ↔
        ∀ w ∈ (getRangeWork l interval_a interval_b).1, w.position ≠ -1) := by
  obtain ⟨htiles, hblocks, hhit⟩ := getRangeWork_spec hl h₀ hab
  refine ⟨fun w hw => (hblocks w hw).imp_right fun hin => ⟨(htiles.bounds hw).2.1, hin⟩, ?_⟩
  rw [hhit]
  refine forall₂_congr fun w hw => ?_
  constructor
  · intro hin hmarked
    have := hin.position_nonneg hl
    omega
  · intro hmarked
    exact (hblocks w hw).resolve_left fun hmiss => hmarked hmiss.1

end Hit

/-! ## A plan that is no hit -/

theorem getRangeWorkLoop_miss {interval_b : Int} {its : LintervalPositionByteDisk} {w : RangeWork}
    (hw : w.hit = false → w.pr ≠ []) :
    (getRangeWorkLoop interval_b w its).hit = false → (getRangeWorkLoop interval_b w its).pr ≠ [] := by
  induction its generalizing w with
  | nil => exact hw
  | cons it its ih =>
    rw [getRangeWorkLoop]
    split
    · exact hw
    · split
      · intro _
        simp [RangeWork.pushMiss]
      · dsimp only
        split
        · intro _
          simp
        · exact ih fun _ => by simp

/-- A request that is no hit has a plan. -/
theorem getRangeWork_miss {l : LintervalPositionByteDisk} {interval_a interval_b : Int}
    (h : (getRangeWork l interval_a interval_b).2 = false) :
    (getRangeWork l interval_a interval_b).1 ≠ [] := by
  unfold getRangeWork at h ⊢
  split at h
  · cases h
  · rename_i pr tope its hstart
    have hloop := @getRangeWorkLoop_miss interval_b its ⟨pr, true, tope⟩ nofun
    unfold getRangeWorkTail at h ⊢
    split_ifs at h ⊢
    · simp
    · simp
    · exact hloop h

end Haarp
