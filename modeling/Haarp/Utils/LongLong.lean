import Haarp.Utils.Plan
import Haarp.Utils.Strings

/-!
# The plan in 64-bit arithmetic

`getRangeWorkLL` is `getRangeWork` with the arithmetic of `long long int`, which wraps around. A block that
ends at byte `llongMax` makes `tope = b + 1` negative: the tail test then holds, and the plan gets one
block more, from the least number of the type on (`Overflows`). An offset `position + interval_a - a` may
leave the type as well (`OffsetOverflows`). Nothing else differs (`getRangeWorkLL_eq`), which gives the
exact conditions for the hit decision, for the tiling and for the disk mapping of the plan.
-/

namespace Haarp

open Base

/-! ## Numbers -/

theorem longLong_of_fits {n : Int} (hmin : -llongMax - 1 ≤ n) (hmax : n ≤ llongMax) :
    longLong n = n := by
  unfold llongMax at hmin hmax
  exact Int64.toInt_ofInt_of_le (by omega) (by omega)

theorem longLong_past_max : longLong (llongMax + 1) = -llongMax - 1 := by decide

theorem longLong_longLong_sub (m n : Int) : longLong (longLong m - n) = longLong (m - n) := by
  simp only [longLong, Int64.toInt_ofInt, Int.bmod_sub_bmod]

/-- What is too great for the type, but less than twice its greatest number, is held as a number below
`-1`. -/
theorem longLong_of_past {n : Int} (hmin : llongMax < n) (hmax : n ≤ 2 * llongMax) :
    longLong n < -1 := by
  unfold llongMax at hmin hmax
  have hsize : Int64.size = 18446744073709551616 := rfl
  rw [longLong, Int64.toInt_ofInt, Int.bmod_def, hsize]
  split <;> omega

/-! ## What changes -/

/-- The plan with the offset of its first block, the only one that is computed, as the machine holds
it. -/
def wrapFirst : LintervalPositionByteDisk → LintervalPositionByteDisk
  | [] => []
  | w :: pr => { w with position := longLong w.position } :: pr

theorem wrapFirst_of_fits {w : IntervalPositionByteDisk} {pr : LintervalPositionByteDisk}
    (hmin : -1 ≤ w.position) (hmax : w.position ≤ llongMax) : wrapFirst (w :: pr) = w :: pr := by
  rw [wrapFirst, longLong_of_fits (by unfold llongMax; omega) hmax]

/-- The request reaches into a block that ends at the greatest byte number, from a byte before it. -/
def Overflows (l : LintervalPositionByteDisk) (interval_a interval_b : Int) : Prop :=
  ∃ x ∈ l, x.b = llongMax ∧ interval_a < x.a ∧ x.a ≤ interval_b

instance (l : LintervalPositionByteDisk) (interval_a interval_b : Int) :
    Decidable (Overflows l interval_a interval_b) :=
  inferInstanceAs (Decidable (∃ x ∈ l, _))

/-- The request starts in a block, at an offset that is no `long long int`. -/
def OffsetOverflows (l : LintervalPositionByteDisk) (interval_a : Int) : Prop :=
  ∃ x ∈ l, x.a ≤ interval_a ∧ interval_a ≤ x.b ∧ llongMax < x.position + (interval_a - x.a)

theorem Overflows.getExtremeb_ge {l : LintervalPositionByteDisk} {interval_a interval_b : Int}
    (h : Overflows l interval_a interval_b) : llongMax ≤ getExtremeb l := by
  obtain ⟨x, hx, hxb, -⟩ := h
  exact hxb ▸ le_getExtremeb hx

section Loops

variable {interval_a interval_b : Int}

theorem getRangeWorkStartLL_eq (hb : interval_b ≤ llongMax) {its : LintervalPositionByteDisk}
    (hits : ∀ x ∈ its, 0 ≤ x.a ∧ x.a ≤ x.b) :
    getRangeWorkStartLL interval_a interval_b its =
      (getRangeWorkStart interval_a interval_b its).map wrapFirst (Prod.map wrapFirst id) := by
  induction its with
  | nil => rfl
  | cons it its ih =>
    have hit := hits it List.mem_cons_self
    rw [getRangeWorkStartLL, getRangeWorkStart, positionLL, longLong_longLong_sub]
    by_cases hlt : interval_a < it.a
    · rw [if_pos hlt, if_pos hlt]
      rfl
    · rw [if_neg hlt, if_neg hlt]
      by_cases hin : interval_a ≥ it.a ∧ interval_a ≤ it.b
      · rw [if_pos hin, if_pos hin]
        by_cases hib : interval_b ≤ it.b
        · rw [if_pos hib, if_pos hib]
          rfl
        · -- the request goes on behind this node, which therefore is not at the end of the type
          have htope : longLong (it.b + 1) = it.b + 1 :=
            longLong_of_fits (by unfold llongMax; omega) (by omega)
          rw [if_neg hib, if_neg hib, htope]
          rfl
      · rw [if_neg hin, if_neg hin]
        exact ih fun x hx => hits x (List.mem_cons_of_mem it hx)

theorem getRangeWorkLoopLL_eq (hb : interval_b ≤ llongMax) {its : LintervalPositionByteDisk}
    (hits : ∀ x ∈ its, 0 ≤ x.a ∧ x.a ≤ x.b ∧ x.b ≤ llongMax) {w : RangeWork}
    (hmin : -1 ≤ w.tope) (hmax : w.tope ≤ llongMax) :
    getRangeWorkLoopLL interval_b w its =
      { getRangeWorkLoop interval_b w its with
        tope := longLong (getRangeWorkLoop interval_b w its).tope } := by
  have hfits : ∀ n, -1 ≤ n → n ≤ llongMax → longLong n = n := fun n h h' =>
    longLong_of_fits (by unfold llongMax; omega) h'
  induction its generalizing w with
  | nil => rw [getRangeWorkLoopLL, getRangeWorkLoop, hfits _ hmin hmax]
  | cons it its ih =>
    obtain ⟨ha₀, hab, hbmax⟩ := hits it List.mem_cons_self
    rw [getRangeWorkLoopLL, getRangeWorkLoop]
    by_cases hneg : w.tope < 0
    · rw [if_pos hneg, if_pos hneg, hfits _ hmin hmax]
    · rw [if_neg hneg, if_neg hneg]
      by_cases hlt : interval_b < it.a
      · rw [if_pos hlt, if_pos hlt]
        rfl
      · rw [if_neg hlt, if_neg hlt, hfits (it.a - 1) (by omega) (by omega)]
        have hgap : (if w.tope < it.a then
              { pr := w.pr ++ [{ a := w.tope, b := it.a - 1, position := -1 }], hit := false
                tope := it.a } else w) =
            if w.tope < it.a then w.pushMiss (it.a - 1) else w := by
          simp only [RangeWork.pushMiss, Int.sub_add_cancel]
        rw [hgap]
        generalize (if w.tope < it.a then w.pushMiss (it.a - 1) else w) = w'
        by_cases hin : interval_b ≥ it.a ∧ interval_b ≤ it.b
        · rw [if_pos hin, if_pos hin]
        · -- the request goes on behind this node, which therefore is not at the end of the type
          rw [if_neg hin, if_neg hin, hfits (it.b + 1) (by omega) (by omega)]
          exact ih (fun x hx => hits x (List.mem_cons_of_mem it hx)) (by simp only; omega)
            (by simp only; omega)

/-- The second loop only adds to the plan. -/
theorem getRangeWorkLoop_append (p : LintervalPositionByteDisk) (its : LintervalPositionByteDisk)
    (w : RangeWork) :
    getRangeWorkLoop interval_b { w with pr := p ++ w.pr } its =
      { getRangeWorkLoop interval_b w its with pr := p ++ (getRangeWorkLoop interval_b w its).pr } := by
  induction its generalizing w with
  | nil => rfl
  | cons it its ih =>
    rw [getRangeWorkLoop, getRangeWorkLoop]
    split
    · rfl
    · split
      · simp only [RangeWork.pushMiss, List.append_assoc]
      · have hgap : (if w.tope < it.a then
              ({ w with pr := p ++ w.pr } : RangeWork).pushMiss (it.a - 1)
            else { w with pr := p ++ w.pr }) =
            { (if w.tope < it.a then w.pushMiss (it.a - 1) else w) with
              pr := p ++ (if w.tope < it.a then w.pushMiss (it.a - 1) else w).pr } := by
          split <;> simp only [RangeWork.pushMiss, List.append_assoc]
        simp only [hgap]
        generalize (if w.tope < it.a then w.pushMiss (it.a - 1) else w) = w'
        split
        · simp only [List.append_assoc]
        · rw [List.append_assoc, ← ih]

/-- Where the second loop stops: behind the greatest byte number, if it meets the block that ends
there. -/
theorem getRangeWorkLoop_tope (hb₀ : 0 ≤ interval_b) (hb : interval_b ≤ llongMax)
    {its : LintervalPositionByteDisk} (hits : ∀ x ∈ its, 0 ≤ x.a ∧ x.a ≤ x.b ∧ x.b ≤ llongMax)
    (hsorted : its.Pairwise fun x y => x.b < y.a) {w : RangeWork} (hmin : 0 ≤ w.tope)
    (hmax : w.tope ≤ llongMax) :
    0 ≤ (getRangeWorkLoop interval_b w its).tope ∧
      (getRangeWorkLoop interval_b w its).tope ≤ llongMax + 1 ∧
      ((getRangeWorkLoop interval_b w its).tope = llongMax + 1 ↔
        ∃ x ∈ its, x.b = llongMax ∧ x.a ≤ interval_b) := by
  induction its generalizing w with
  | nil =>
    rw [getRangeWorkLoop]
    exact ⟨hmin, by omega, iff_of_false (by omega) (by simp)⟩
  | cons it its ih =>
    obtain ⟨ha₀, hab, hbmax⟩ := hits it List.mem_cons_self
    obtain ⟨hahead, hsorted'⟩ := List.pairwise_cons.mp hsorted
    rw [getRangeWorkLoop, if_neg (by omega)]
    by_cases hlt : interval_b < it.a
    · rw [if_pos hlt]
      simp only [RangeWork.pushMiss]
      refine ⟨by omega, by omega, iff_of_false (by omega) ?_⟩
      rintro ⟨x, hx, -, hxa⟩
      rcases List.mem_cons.mp hx with rfl | hx
      · omega
      · have := hahead x hx
        omega
    · rw [if_neg hlt]
      generalize (if w.tope < it.a then w.pushMiss (it.a - 1) else w) = w'
      by_cases hin : interval_b ≥ it.a ∧ interval_b ≤ it.b
      · rw [if_pos hin]
        refine ⟨by simp only; omega, by simp only; omega, ?_⟩
        simp only
        constructor
        · intro h
          exact ⟨it, List.mem_cons_self, by omega, hin.1⟩
        · rintro ⟨x, hx, hxb, hxa⟩
          rcases List.mem_cons.mp hx with rfl | hx
          · omega
          · have := hahead x hx
            omega
      · rw [if_neg hin]
        obtain ⟨h₁, h₂, h₃⟩ := ih (fun x hx => hits x (List.mem_cons_of_mem it hx)) hsorted'
          (w := { w' with pr := w'.pr ++ [it], tope := it.b + 1 }) (by simp only; omega)
          (by simp only; omega)
        refine ⟨h₁, h₂, h₃.trans ?_⟩
        constructor
        · rintro ⟨x, hx, h⟩
          exact ⟨x, List.mem_cons_of_mem it hx, h⟩
        · rintro ⟨x, hx, hxb, hxa⟩
          rcases List.mem_cons.mp hx with rfl | hx
          · omega
          · exact ⟨x, hx, hxb, hxa⟩

/-- The nodes left to the second loop start behind `interval_a`, and a plan that is still empty says
that no node holds that byte. -/
theorem getRangeWorkStart_ahead {its : LintervalPositionByteDisk}
    (hsorted : its.Pairwise fun x y => x.b < y.a) (hle : ∀ x ∈ its, x.a ≤ x.b)
    {pr rest : LintervalPositionByteDisk} {tope : Int}
    (h : getRangeWorkStart interval_a interval_b its = .inr (pr, tope, rest)) :
    (∀ x ∈ rest, interval_a < x.a) ∧
      (pr = [] → ∀ x ∈ its, x.a ≤ interval_a → x.b < interval_a) := by
  induction its with
  | nil =>
    cases h
    simp
  | cons it its ih =>
    obtain ⟨hahead, hsorted'⟩ := List.pairwise_cons.mp hsorted
    have hit := hle it List.mem_cons_self
    rw [getRangeWorkStart] at h
    by_cases hlt : interval_a < it.a
    · rw [if_pos hlt] at h
      cases h
      have hlt' : ∀ x ∈ it :: its, interval_a < x.a := by
        intro x hx
        rcases List.mem_cons.mp hx with rfl | hx
        · exact hlt
        · have := hahead x hx
          omega
      refine ⟨hlt', fun _ x hx hxa => ?_⟩
      have := hlt' x hx
      omega
    · rw [if_neg hlt] at h
      by_cases hin : interval_a ≥ it.a ∧ interval_a ≤ it.b
      · rw [if_pos hin] at h
        split at h
        · cases h
        · cases h
          refine ⟨fun x hx => ?_, fun hnil => absurd hnil (List.cons_ne_nil _ _)⟩
          have := hahead x hx
          omega
      · rw [if_neg hin] at h
        obtain ⟨hrest, hnil⟩ := ih hsorted' (fun x hx => hle x (List.mem_cons_of_mem it hx)) h
        refine ⟨hrest, fun hpr x hx hxa => ?_⟩
        rcases List.mem_cons.mp hx with rfl | hx
        · omega
        · exact hnil hpr x hx hxa

/-- The end of the plan adds to it. -/
theorem getRangeWorkTail_append (p : LintervalPositionByteDisk) (w : RangeWork) (hw : ¬ w.tope = -1) :
    getRangeWorkTail interval_a interval_b { w with pr := p ++ w.pr } =
      (p ++ (getRangeWorkTail interval_a interval_b w).1,
        (getRangeWorkTail interval_a interval_b w).2) := by
  simp only [getRangeWorkTail, if_neg hw]
  split
  · rw [List.append_assoc]
  · rfl

/-- The end of the plan, when `tope` is held by the machine. -/
theorem getRangeWorkTail_longLong (w : RangeWork) (h₀ : 0 ≤ interval_b) (hb : interval_b ≤ llongMax)
    (hmin : 0 ≤ w.tope) (hmax : w.tope ≤ llongMax + 1) :
    getRangeWorkTail interval_a interval_b { w with tope := longLong w.tope } =
      ((getRangeWorkTail interval_a interval_b w).1 ++
          if w.tope = llongMax + 1 then [⟨-llongMax - 1, interval_b, -1⟩] else [],
        (getRangeWorkTail interval_a interval_b w).2 && !decide (w.tope = llongMax + 1)) := by
  have hne : ¬ w.tope = -1 := by omega
  by_cases htope : w.tope = llongMax + 1
  · -- `tope` has become the least number of the type, and the tail test holds
    have hleast : ¬ -llongMax - 1 = -1 := by decide
    have htail : interval_b > -llongMax - 1 := by
      unfold llongMax
      omega
    have hno : ¬ interval_b > llongMax + 1 := by omega
    simp only [getRangeWorkTail, htope, longLong_past_max, if_neg hleast, if_pos htail, if_true,
      if_neg hno, if_neg (show ¬ llongMax + 1 = -1 by decide), decide_true, Bool.not_true,
      Bool.and_false]
  · rw [longLong_of_fits (by unfold llongMax; omega) (by omega)]
    simp only [htope, if_false, List.append_nil, decide_false, Bool.not_false, Bool.and_true]

end Loops

/-! ## The plan -/

section Plan

variable {l : LintervalPositionByteDisk} {interval_a interval_b : Int}

theorem wrapFirst_append {pr : LintervalPositionByteDisk} (hpr : pr ≠ [])
    (pr' : LintervalPositionByteDisk) : wrapFirst (pr ++ pr') = wrapFirst pr ++ pr' := by
  cases pr with
  | nil => exact absurd rfl hpr
  | cons w pr => rfl

/-- An offset that fits the type is held as it is. -/
theorem wrapFirst_plan (hl : StoredList l) (h₀ : 0 ≤ interval_a) (hab : interval_a ≤ interval_b)
    (hoffset : ¬ OffsetOverflows l interval_a) :
    wrapFirst (getRangeWork l interval_a interval_b).1 = (getRangeWork l interval_a interval_b).1 := by
  obtain ⟨htiles, hblocks, -⟩ := getRangeWork_spec hl h₀ hab
  cases hplan : (getRangeWork l interval_a interval_b).1 with
  | nil => rfl
  | cons w pr =>
    rw [hplan] at htiles hblocks
    obtain ⟨hwa, hwb, -⟩ := htiles
    rcases hblocks w List.mem_cons_self with hmiss | hin
    · exact wrapFirst_of_fits hmiss.1.ge (hmiss.1 ▸ by decide)
    · have hposition := hin.position_nonneg hl
      obtain ⟨x, hx, hxa, hxb, hp⟩ := hin
      have hfits : ¬ llongMax < x.position + (interval_a - x.a) := fun h =>
        hoffset ⟨x, hx, by omega, by omega, h⟩
      exact wrapFirst_of_fits (by omega) (by omega)

/-- The nodes left to the second loop are long long numbers. -/
theorem LoopInv.nodes {w : RangeWork} {its : LintervalPositionByteDisk}
    (inv : LoopInv l interval_a interval_b w its) (hl : StoredList l) (hfits : ∀ x ∈ l, x.b ≤ llongMax) :
    ∀ x ∈ its, 0 ≤ x.a ∧ x.a ≤ x.b ∧ x.b ≤ llongMax := fun x hx =>
  ⟨(hl.bounds x (inv.subset x hx)).1, (hl.bounds x (inv.subset x hx)).2.1, hfits x (inv.subset x hx)⟩

/-- The block with which a request overflows is left to the second loop. -/
theorem LoopInv.overflows_iff {w : RangeWork} {its : LintervalPositionByteDisk}
    (inv : LoopInv l interval_a interval_b w its) (hrest : ∀ x ∈ its, interval_a < x.a)
    (hb : interval_b ≤ llongMax) :
    (∃ x ∈ its, x.b = llongMax ∧ x.a ≤ interval_b) ↔ Overflows l interval_a interval_b := by
  constructor
  · rintro ⟨x, hx, hxb, hxa⟩
    exact ⟨x, inv.subset x hx, hxb, hrest x hx, hxa⟩
  · rintro ⟨x, hx, hxb, hxa, hxa'⟩
    refine ⟨x, (inv.behind x hx).resolve_right ?_, hxb, hxa'⟩
    have := inv.last
    omega

/-- **The plan in 64-bit arithmetic**: the plan of `getRangeWork`, the offset of its first block as the
machine holds it, and one block more when the request overflows; that is no hit. -/
theorem getRangeWorkLL_eq (hl : StoredList l) (hfits : ∀ x ∈ l, x.b ≤ llongMax) (h₀ : 0 ≤ interval_a)
    (hab : interval_a ≤ interval_b) (hb : interval_b ≤ llongMax) :
    getRangeWorkLL l interval_a interval_b =
      (wrapFirst (getRangeWork l interval_a interval_b).1 ++
          if Overflows l interval_a interval_b then [⟨-llongMax - 1, interval_b, -1⟩] else [],
        (getRangeWork l interval_a interval_b).2 && !decide (Overflows l interval_a interval_b)) := by
  have hperm := sortIntervals_perm l
  have hsorted := sortIntervals_sorted hl
  have hnodes : ∀ x ∈ sortIntervals l, 0 ≤ x.a ∧ x.a ≤ x.b := fun x hx =>
    ⟨(hl.bounds x (hperm.mem_iff.mp hx)).1, (hl.bounds x (hperm.mem_iff.mp hx)).2.1⟩
  have hstart := getRangeWorkStart_end hl hab (sortIntervals l) hsorted
    (fun x hx => hperm.mem_iff.mp hx) fun x hx => .inl (hperm.mem_iff.mpr hx)
  have hahead := @getRangeWorkStart_ahead interval_a interval_b (sortIntervals l) hsorted
    fun x hx => (hnodes x hx).2
  have hfirst := @wrapFirst_plan l interval_a interval_b hl h₀ hab
  rw [getRangeWorkLL, getRangeWorkStartLL_eq hb hnodes]
  unfold getRangeWork at hfirst ⊢
  generalize getRangeWorkStart interval_a interval_b (sortIntervals l) = start at hstart hahead hfirst
  cases hstart with
  | whole w ha hb' hin beyond =>
    have hno : ¬ Overflows l interval_a interval_b := by
      rintro ⟨x, hx, hxb, hxa, hxa'⟩
      obtain ⟨y, hy, hya, hyb, -⟩ := hin
      have := eq_of_mem_apart hl.apart hx hy (n := x.a) (by omega) (by omega)
      subst this
      omega
    simp [hno]
  | nothing behind =>
    have hno : ¬ Overflows l interval_a interval_b := by
      rintro ⟨x, hx, hxb, hxa, hxa'⟩
      have := behind x hx
      omega
    simp [hno, getRangeWorkLoopLL, getRangeWorkLoop, getRangeWorkTail]
    rfl
  | loop pr tope its inv =>
    obtain ⟨hrest, hnil⟩ := hahead rfl
    have htope : interval_a ≤ tope ∧ tope ≤ interval_b := ⟨inv.first, inv.last⟩
    have hits := inv.nodes hl hfits
    obtain ⟨hmin, hmax, hpast⟩ := getRangeWorkLoop_tope (by omega) hb hits inv.sorted
      (w := { pr := [], hit := true, tope }) (by simp only; omega) (by simp only; omega)
    have hover := hpast.trans (inv.overflows_iff hrest hb)
    have hloop : ∀ p, getRangeWorkLoop interval_b { pr := p, hit := true, tope } its =
        { getRangeWorkLoop interval_b { pr := [], hit := true, tope } its with
          pr := p ++ (getRangeWorkLoop interval_b { pr := [], hit := true, tope } its).pr } := by
      intro p
      simpa only [List.append_nil] using
        getRangeWorkLoop_append p its { pr := [], hit := true, tope }
    simp only [Sum.map_inr, Prod.map_apply, id_eq] at hfirst ⊢
    rw [getRangeWorkLoopLL_eq hb hits (w := { pr := wrapFirst pr, hit := true, tope })
      (by simp only; omega) (by simp only; omega), hloop (wrapFirst pr), hloop pr]
    rw [hloop pr] at hfirst
    generalize getRangeWorkLoop interval_b { pr := [], hit := true, tope } its = w at *
    rw [getRangeWorkTail_append pr w (by omega)] at hfirst ⊢
    rw [getRangeWorkTail_longLong { w with pr := wrapFirst pr ++ w.pr } (by omega) hb hmin hmax,
      getRangeWorkTail_append (wrapFirst pr) w (by omega)]
    have hplan : wrapFirst (pr ++ (getRangeWorkTail interval_a interval_b w).1) =
        wrapFirst pr ++ (getRangeWorkTail interval_a interval_b w).1 := by
      by_cases hpr : pr = []
      · subst hpr
        refine hfirst ?_
        rintro ⟨x, hx, hxa, hxb, -⟩
        have := hnil rfl x (hperm.mem_iff.mpr hx) hxa
        omega
      · exact wrapFirst_append hpr _
    simp only [hplan, hover]

/-- Without an overflow both arithmetics plan alike. -/
theorem getRangeWorkLL_eq_getRangeWork (hl : StoredList l) (hfits : ∀ x ∈ l, x.b ≤ llongMax)
    (h₀ : 0 ≤ interval_a) (hab : interval_a ≤ interval_b) (hb : interval_b ≤ llongMax)
    (hno : ¬ Overflows l interval_a interval_b) (hoffset : ¬ OffsetOverflows l interval_a) :
    getRangeWorkLL l interval_a interval_b = getRangeWork l interval_a interval_b := by
  rw [getRangeWorkLL_eq hl hfits h₀ hab hb, wrapFirst_plan hl h₀ hab hoffset]
  simp [hno]

/-- A list that ends below the greatest byte number, at offsets of the type, is planned alike. -/
theorem getRangeWorkLL_of_below (hl : StoredList l) (hfits : ∀ x ∈ l, x.b < llongMax)
    (hlast : ∀ x ∈ l, x.position + (x.b - x.a) ≤ llongMax) (h₀ : 0 ≤ interval_a)
    (hab : interval_a ≤ interval_b) (hb : interval_b ≤ llongMax) :
    getRangeWorkLL l interval_a interval_b = getRangeWork l interval_a interval_b := by
  refine getRangeWorkLL_eq_getRangeWork hl (fun x hx => (hfits x hx).le) h₀ hab hb ?_ ?_
  · rintro ⟨x, hx, hxb, -⟩
    have := hfits x hx
    omega
  · rintro ⟨x, hx, hxa, hxb, hpast⟩
    have := hlast x hx
    omega

/-! ## The hit decision -/

/-- **The hit decision**: `*hit` says whether every requested byte is stored, unless all of them but
the last are, and the last is one byte behind the last stored byte of the list; or unless all of them
are, and the request overflows. -/
theorem getRangeWorkLL_hit_exact (hl : StoredList l) (hfits : ∀ x ∈ l, x.b ≤ llongMax)
    (h₀ : 0 ≤ interval_a) (hab : interval_a ≤ interval_b) (hb : interval_b ≤ llongMax) :
    ((getRangeWorkLL l interval_a interval_b).2 = true ↔
        ∀ n, interval_a ≤ n → n ≤ interval_b → n ∈ storedBytes l) ↔
      ¬ (interval_a < interval_b ∧ getExtremeb l = interval_b - 1 ∧
          ∀ n, interval_a ≤ n → n < interval_b → n ∈ storedBytes l) ∧
        ¬ (Overflows l interval_a interval_b ∧
          ∀ n, interval_a ≤ n → n ≤ interval_b → n ∈ storedBytes l) := by
  have hhit : (getRangeWorkLL l interval_a interval_b).2 = true ↔
      (getRangeWork l interval_a interval_b).2 = true ∧ ¬ Overflows l interval_a interval_b := by
    rw [getRangeWorkLL_eq hl hfits h₀ hab hb]
    simp
  rw [hhit]
  by_cases hover : Overflows l interval_a interval_b
  · have hnot : ¬ (interval_a < interval_b ∧ getExtremeb l = interval_b - 1 ∧
        ∀ n, interval_a ≤ n → n < interval_b → n ∈ storedBytes l) := by
      rintro ⟨-, hlast, -⟩
      have := hover.getExtremeb_ge
      omega
    simp only [hover, not_true, and_false, hnot, not_false_eq_true, true_and, false_iff]
  · have := getRangeWork_hit_stored hl h₀ hab
    simpa only [hover, not_false_eq_true, and_true, false_and] using this

theorem getRangeWorkLL_hit_exact_whole :
    ((getRangeWorkLL [⟨5, 9, 0⟩, ⟨0, 4, 5⟩] 2 9).2 = true ↔
        ∀ n, 2 ≤ n → n ≤ 9 → n ∈ storedBytes [⟨5, 9, 0⟩, ⟨0, 4, 5⟩]) ↔
      ¬ ((2 : Int) < 9 ∧ getExtremeb [⟨5, 9, 0⟩, ⟨0, 4, 5⟩] = 9 - 1 ∧
          ∀ n, 2 ≤ n → n < 9 → n ∈ storedBytes [⟨5, 9, 0⟩, ⟨0, 4, 5⟩]) ∧
        ¬ (Overflows [⟨5, 9, 0⟩, ⟨0, 4, 5⟩] 2 9 ∧
          ∀ n, 2 ≤ n → n ≤ 9 → n ∈ storedBytes [⟨5, 9, 0⟩, ⟨0, 4, 5⟩]) :=
  getRangeWorkLL_hit_exact (by decide) (by decide) (by decide) (by decide) (by decide)

/-- Bytes 0 to 9 are stored, byte 10 is not, and a request for 0 to 10 is a hit. -/
theorem getRangeWorkLL_hit_one_past :
    StoredList [⟨0, 9, 0⟩] ∧ ¬ ((getRangeWorkLL [⟨0, 9, 0⟩] 0 10).2 = true ↔
      ∀ n, 0 ≤ n → n ≤ 10 → n ∈ storedBytes [⟨0, 9, 0⟩]) := by
  refine ⟨by decide, fun h => ?_⟩
  have hhit : (getRangeWorkLL [⟨0, 9, 0⟩] 0 10).2 = true := by decide
  obtain ⟨x, hx, -, hxb⟩ := h.mp hhit 10 (by decide) le_rfl
  cases List.mem_singleton.mp hx
  exact absurd hxb (by decide)

/-! ## The shape of the plan -/

theorem tilesBytes_wrapFirst {pr : LintervalPositionByteDisk} {s e : Int} :
    TilesBytes s (wrapFirst pr) e ↔ TilesBytes s pr e := by
  cases pr <;> rfl

theorem wrapFirst_eq_nil {pr : LintervalPositionByteDisk} : wrapFirst pr = [] ↔ pr = [] := by
  cases pr <;> simp [wrapFirst]

/-- **The plan tiles the request**, unless the request ends one byte behind the last stored byte, or
overflows. -/
theorem getRangeWorkLL_tiles (hl : StoredList l) (hfits : ∀ x ∈ l, x.b ≤ llongMax)
    (h₀ : 0 ≤ interval_a) (hab : interval_a ≤ interval_b) (hb : interval_b ≤ llongMax) :
    TilesRequest interval_a interval_b (getRangeWorkLL l interval_a interval_b).1 ↔
      ¬ (interval_a < interval_b ∧ getExtremeb l = interval_b - 1) ∧
        ¬ Overflows l interval_a interval_b := by
  have htiles := getRangeWork_tilesRequest hl h₀ hab
  rw [tilesRequest_iff] at htiles
  rw [getRangeWorkLL_eq hl hfits h₀ hab hb, tilesRequest_iff]
  by_cases hover : Overflows l interval_a interval_b
  · refine iff_of_false (fun h => ?_) fun h => h.2 hover
    -- the block from the least number of the type on is not the next one
    simp only [hover, if_true] at h
    obtain ⟨m, hplan, hlast⟩ := h.2.split
    have hm : -llongMax - 1 = m := hlast.1
    have := hplan.le
    unfold llongMax at hm
    omega
  · simp only [hover, if_false, List.append_nil, not_false_eq_true, and_true]
    rw [tilesBytes_wrapFirst, ← htiles, ne_eq, wrapFirst_eq_nil]

theorem getRangeWorkLL_tiles_gap :
    TilesRequest 1 12 (getRangeWorkLL [⟨5, 9, 0⟩, ⟨0, 2, 5⟩] 1 12).1 ↔
      ¬ ((1 : Int) < 12 ∧ getExtremeb [⟨5, 9, 0⟩, ⟨0, 2, 5⟩] = 12 - 1) ∧
        ¬ Overflows [⟨5, 9, 0⟩, ⟨0, 2, 5⟩] 1 12 :=
  getRangeWorkLL_tiles (by decide) (by decide) (by decide) (by decide) (by decide)

/-- The plan for bytes 0 to 10 ends with byte 9. -/
theorem getRangeWorkLL_tiles_one_short :
    StoredList [⟨0, 9, 0⟩] ∧
      ¬ TilesRequest 0 10 (getRangeWorkLL [⟨0, 9, 0⟩] 0 10).1 := by
  refine ⟨by decide, fun h => ?_⟩
  obtain ⟨x, hx, hb⟩ := h.last
  have hlast : (getRangeWorkLL [⟨0, 9, 0⟩] 0 10).1.getLast? = some ⟨0, 9, 0⟩ := by decide
  rw [hlast] at hx
  cases hx
  cases hb

/-! ## The disk mapping -/

theorem InRange.storedList (h : InRange l) (hapart : ApartBytes l) : StoredList l :=
  ⟨fun x hx => ⟨h.a x hx, (h.b x hx).1, (h.position x hx).1⟩, hapart⟩

/-- The block behind an overflow shares the bytes of the block at the end of the type. -/
theorem Overflows.not_mapped (h : Overflows l interval_a interval_b) (hl : StoredList l)
    (h₀ : 0 ≤ interval_a) (hab : interval_a ≤ interval_b) (hb : interval_b ≤ llongMax)
    (w : IntervalPositionByteDisk) (hwa : w.a = -llongMax - 1) (hwb : w.b = interval_b)
    (hw : w.position = -1) : ¬ (Missing l w ∨ (w.a ≤ w.b ∧ InStored l w)) := by
  rintro (hmiss | ⟨-, hin⟩)
  · obtain ⟨x, hx, hxb, -, hxa⟩ := h
    refine hmiss.2 interval_b ?_ hwb.ge ⟨x, hx, hxa, by omega⟩
    unfold llongMax at hwa
    omega
  · have := hin.position_nonneg hl
    omega

/-- The first block of the plan lies at an offset that the type does not hold. -/
theorem OffsetOverflows.exists_block (h : OffsetOverflows l interval_a) (hrange : InRange l)
    (hapart : ApartBytes l) (h₀ : 0 ≤ interval_a) (hab : interval_a ≤ interval_b)
    (hb : interval_b ≤ llongMax) :
    ∃ w ∈ wrapFirst (getRangeWork l interval_a interval_b).1, w.position < -1 := by
  obtain ⟨htiles, hblocks, -⟩ := getRangeWork_spec (hrange.storedList hapart) h₀ hab
  obtain ⟨x, hx, hxa, hxb, hpast⟩ := h
  have hend : interval_a < planEnd l interval_a interval_b := by
    rw [planEnd]
    split <;> omega
  cases hplan : (getRangeWork l interval_a interval_b).1 with
  | nil =>
    rw [hplan] at htiles
    have : interval_a = planEnd l interval_a interval_b := htiles
    omega
  | cons w pr =>
    rw [hplan] at htiles hblocks
    obtain ⟨hwa, hwb, -⟩ := htiles
    have hin := (hblocks w List.mem_cons_self).resolve_left fun hmiss =>
      hmiss.2 interval_a (by omega) (by omega) ⟨x, hx, hxa, hxb⟩
    obtain ⟨y, hy, hya, hyb, hp⟩ := hin
    have hxy : y = x := eq_of_mem_apart hapart hy hx (n := interval_a) (by omega) (by omega)
    subst hxy
    have hposition := hrange.position y hy
    have ha := hrange.a y hy
    exact ⟨_, List.mem_cons_self, longLong_of_past (by omega) (by omega)⟩

/-- **The disk mapping of the plan**: a block is marked as missing and shares no byte with the list,
or it lies inside one stored block, at the offset of that block, and `*hit` is set when none is marked;
unless the request overflows, or the offset of its first byte. -/
theorem getRangeWorkLL_mapping (hrange : InRange l) (hapart : ApartBytes l) (h₀ : 0 ≤ interval_a)
    (hab : interval_a ≤ interval_b) (hb : interval_b ≤ llongMax) :
    ((∀ w ∈ (getRangeWorkLL l interval_a interval_b).1,
          Missing l w ∨ (w.a ≤ w.b ∧ InStored l w)) ∧
        ((getRangeWorkLL l interval_a interval_b).2 = true ↔
          ∀ w ∈ (getRangeWorkLL l interval_a interval_b).1, w.position ≠ -1)) ↔
      ¬ Overflows l interval_a interval_b ∧ ¬ OffsetOverflows l interval_a := by
  have hl := hrange.storedList hapart
  have hfits := fun x hx => (hrange.b x hx).2
  by_cases hover : Overflows l interval_a interval_b
  · refine iff_of_false (fun h => ?_) fun h => h.1 hover
    rw [getRangeWorkLL_eq hl hfits h₀ hab hb] at h
    exact hover.not_mapped hl h₀ hab hb ⟨-llongMax - 1, interval_b, -1⟩ rfl rfl rfl
      (h.1 _ (by simp [hover]))
  · by_cases hoffset : OffsetOverflows l interval_a
    · refine iff_of_false (fun h => ?_) fun h => h.2 hoffset
      obtain ⟨w, hw, hpast⟩ := hoffset.exists_block hrange hapart h₀ hab hb
      rw [getRangeWorkLL_eq hl hfits h₀ hab hb] at h
      rcases h.1 w (List.mem_append_left _ hw) with hmiss | ⟨-, hin⟩
      · have := hmiss.1
        omega
      · have := hin.position_nonneg hl
        omega
    · rw [getRangeWorkLL_eq_getRangeWork hl hfits h₀ hab hb hover hoffset]
      exact iff_of_true (getRangeWork_mapped hl h₀ hab) ⟨hover, hoffset⟩

theorem getRangeWorkLL_mapping_gap :
    ((∀ w ∈ (getRangeWorkLL [⟨5, 9, 0⟩, ⟨0, 2, 5⟩] 1 12).1,
          Missing [⟨5, 9, 0⟩, ⟨0, 2, 5⟩] w ∨ (w.a ≤ w.b ∧ InStored [⟨5, 9, 0⟩, ⟨0, 2, 5⟩] w)) ∧
        ((getRangeWorkLL [⟨5, 9, 0⟩, ⟨0, 2, 5⟩] 1 12).2 = true ↔
          ∀ w ∈ (getRangeWorkLL [⟨5, 9, 0⟩, ⟨0, 2, 5⟩] 1 12).1, w.position ≠ -1)) ↔
      ¬ Overflows [⟨5, 9, 0⟩, ⟨0, 2, 5⟩] 1 12 ∧ ¬ OffsetOverflows [⟨5, 9, 0⟩, ⟨0, 2, 5⟩] 1 :=
  getRangeWorkLL_mapping ⟨by decide, by decide, by decide⟩ (by decide) (by decide) (by decide)
    (by decide)

/-- All the bytes are stored, and the plan for bytes 0 to 10 ends with a block of every number below
11, which is marked as missing. -/
theorem getRangeWorkLL_mapping_overflow :
    InRange [⟨0, 4, 0⟩, ⟨5, 9223372036854775807, 5⟩] ∧
      ApartBytes [⟨0, 4, 0⟩, ⟨5, 9223372036854775807, 5⟩] ∧
      ¬ ∀ w ∈ (getRangeWorkLL [⟨0, 4, 0⟩, ⟨5, 9223372036854775807, 5⟩] 0 10).1,
        Missing [⟨0, 4, 0⟩, ⟨5, 9223372036854775807, 5⟩] w ∨
          (w.a ≤ w.b ∧ InStored [⟨0, 4, 0⟩, ⟨5, 9223372036854775807, 5⟩] w) := by
  have hrange : InRange [⟨0, 4, 0⟩, ⟨5, 9223372036854775807, 5⟩] := ⟨by decide, by decide, by decide⟩
  refine ⟨hrange, by decide, fun h => ?_⟩
  have hmem : ⟨-9223372036854775808, 10, -1⟩ ∈
      (getRangeWorkLL [⟨0, 4, 0⟩, ⟨5, 9223372036854775807, 5⟩] 0 10).1 := by decide
  rcases h _ hmem with hmiss | ⟨-, x, hx, hxa, -⟩
  · exact hmiss.2 0 (by decide) (by decide) ⟨⟨0, 4, 0⟩, by decide, by decide, by decide⟩
  · have := hrange.a x hx
    simp only at hxa
    omega

end Plan

end Haarp
