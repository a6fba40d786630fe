import Haarp.Cache.Range
import Haarp.Cache.Header
import Haarp.Utils.Append

/-!
# The plan of a connection

`Cache` plans a request from what the browser and the plugin say, and `Cache2` plans it again for the
length that the server announces. Neither compares the two ends of the range: `hit_sensible` says for
which requests a hit announces a range that makes no sense. `cache2_replans` says what `Cache2` leaves,
whatever combination of its flags it starts from.
-/

namespace Haarp

open Base

/-! ## Requests that end before they start -/

section Backwards

variable {l : LintervalPositionByteDisk} {interval_a interval_b : Int}

/-- How the first loop of `getRangeWork` ends when the request ends before it starts. -/
inductive BackwardsEnd (interval_a interval_b : Int) (its : LintervalPositionByteDisk) :
    LintervalPositionByteDisk ⊕ (LintervalPositionByteDisk × Int × LintervalPositionByteDisk) → Prop
  | stored (w : IntervalPositionByteDisk) (h : interval_a ∈ storedBytes its) :
      BackwardsEnd interval_a interval_b its (.inl [w])
  | nothing (h : interval_a ∉ storedBytes its) :
      BackwardsEnd interval_a interval_b its (.inr ([], -1, []))
  | gap (it : IntervalPositionByteDisk) (rest : LintervalPositionByteDisk) (ha : interval_a < it.a)
      (h : interval_a ∉ storedBytes its) :
      BackwardsEnd interval_a interval_b its (.inr ([], interval_a, it :: rest))

theorem getRangeWorkStart_backwards (hab : interval_b < interval_a) :
    ∀ its : LintervalPositionByteDisk, its.Pairwise (fun x y => x.b < y.a) → (∀ x ∈ its, x.a ≤ x.b) →
      BackwardsEnd interval_a interval_b its (getRangeWorkStart interval_a interval_b its) := by
  intro its
  induction its with
  | nil =>
    intro _ _
    exact .nothing (by simp)
  | cons it its ih =>
    intro hsorted hbounds
    obtain ⟨hits, hsorted'⟩ := List.pairwise_cons.mp hsorted
    obtain ⟨hit, hbounds'⟩ := List.forall_mem_cons.mp hbounds
    rw [getRangeWorkStart]
    by_cases hlt : interval_a < it.a
    · rw [if_pos hlt]
      refine .gap it its hlt ?_
      rintro ⟨x, hx, hxa, -⟩
      rcases List.mem_cons.mp hx with rfl | hx
      · omega
      · have := hits x hx
        omega
    · rw [if_neg hlt]
      by_cases hin : interval_a ≥ it.a ∧ interval_a ≤ it.b
      · rw [if_pos hin, if_pos (by omega)]
        exact .stored _ ⟨it, List.mem_cons_self, hin⟩
      · rw [if_neg hin]
        have hcons : interval_a ∈ storedBytes (it :: its) ↔ interval_a ∈ storedBytes its := by
          rw [storedBytes, mem_covered_cons]
          exact or_iff_right hin
        have hend := ih hsorted' hbounds'
        generalize getRangeWorkStart interval_a interval_b its = start at hend
        cases hend with
        | stored w h => exact .stored w (hcons.mpr h)
        | nothing h => exact .nothing (mt hcons.mp h)
        | gap y rest ha h => exact .gap y rest ha (mt hcons.mp h)

/-- A request that ends before it starts is a hit when its first byte is stored. -/
theorem getRangeWork_backwards (hl : StoredList l) (h₀ : 0 ≤ interval_b) (hab : interval_b < interval_a) :
    (getRangeWork l interval_a interval_b).2 = true ↔ interval_a ∈ storedBytes l := by
  have hperm := sortIntervals_perm l
  rw [getRangeWork, storedBytes, ← covered_perm hperm]
  have hstart := getRangeWorkStart_backwards hab (sortIntervals l) (sortIntervals_sorted hl)
    fun x hx => (hl.bounds x (hperm.mem_iff.mp hx)).2.1
  generalize getRangeWorkStart interval_a interval_b (sortIntervals l) = start at hstart
  cases hstart with
  | stored w h => exact iff_of_true rfl h
  | nothing h => exact iff_of_false (by simp [getRangeWorkLoop, getRangeWorkTail]) h
  | gap it rest ha h =>
    refine iff_of_false ?_ h
    -- the bytes up to the end are pushed as missing
    simp only [getRangeWorkLoop]
    rw [if_neg (by omega), if_pos (by omega)]
    unfold getRangeWorkTail RangeWork.pushMiss
    split
    · exact Bool.false_ne_true
    · split <;> exact Bool.false_ne_true

/-- A request that ends before it starts and is no hit is planned as one missing block. -/
theorem getRangeWork_before (hl : StoredList l) (h₀ : 0 ≤ interval_a) (hab : interval_b < interval_a)
    (hmiss : (getRangeWork l interval_a interval_b).2 = false) :
    (getRangeWork l interval_a interval_b).1 = [⟨interval_a, interval_b, -1⟩] := by
  have hperm := sortIntervals_perm l
  have hstart := getRangeWorkStart_backwards hab (sortIntervals l) (sortIntervals_sorted hl)
    fun x hx => (hl.bounds x (hperm.mem_iff.mp hx)).2.1
  rw [getRangeWork] at hmiss ⊢
  generalize getRangeWorkStart interval_a interval_b (sortIntervals l) = start at hstart hmiss ⊢
  cases hstart with
  | stored w h => cases hmiss
  | nothing h => rfl
  | gap it rest ha h =>
    simp only [getRangeWorkLoop]
    rw [if_neg (by omega), if_pos (by omega)]
    unfold getRangeWorkTail RangeWork.pushMiss
    dsimp only
    split
    · rfl
    · rw [if_neg (by omega)]
      rfl

/-- A request for a negative byte is no hit. -/
theorem getRangeWork_negative (hl : StoredList l) (h₀ : 0 ≤ interval_b) (ha : interval_a < 0) :
    (getRangeWork l interval_a interval_b).2 = false := by
  have hperm := sortIntervals_perm l
  rw [getRangeWork]
  cases hsort : sortIntervals l with
  | nil => rfl
  | cons it its =>
    have hmem : it ∈ l := hperm.mem_iff.mp (by rw [hsort]; exact List.mem_cons_self)
    have hb := hl.bounds it hmem
    rw [getRangeWorkStart, if_pos (by omega)]
    simp only [getRangeWorkLoop]
    rw [if_pos ha, getRangeWorkTail]
    dsimp only
    split
    · rfl
    · rw [if_pos (by omega)]

end Backwards

/-! ## A hit -/

section Sensible

variable {c c' : Connection} {l : LintervalPositionByteDisk}

/-- The last byte that a request goes to, in a file of `size` bytes: an end beyond the file is cut,
unless the request starts at the last byte or behind it. -/
def Limits.last (size : Int) (limits : Limits) : Int :=
  if limits.range_max ≤ 0 then size - 1
  else if limits.range_min + 1 < size then min limits.range_max (size - 1)
  else limits.range_max

/-- The end is before the start, and the byte at the start is stored. -/
def Limits.Backwards (l : LintervalPositionByteDisk) (limits : Limits) : Prop :=
  0 < limits.range_max ∧ limits.range_max < limits.range_min ∧ limits.range_min ∈ storedBytes l

/-- All bytes but the last are stored, and the last one is one byte behind the last stored byte. -/
structure Limits.OnePast (l : LintervalPositionByteDisk) (size : Int) (limits : Limits) : Prop where
  fits : limits.range_min + 1 < size → limits.range_max < llongMax
  extreme : getExtremeb l = limits.last size - 1
  before : limits.range_min < limits.last size
  stored : ∀ n, limits.range_min ≤ n → n < limits.last size → n ∈ storedBytes l

/-- A hit whose range lies in the file, with a plan of the announced length. -/
structure SensibleHit (size : Int) (c : Connection) : Prop where
  range : 0 ≤ c.range_min ∧ c.range_min ≤ c.range_max ∧ c.range_max < size
  blocks : ∀ w ∈ c.lrangeswork, w.a ≤ w.b
  length : c.filesizeneto = c.range_max - c.range_min + 1
  total : getFileSize c.lrangeswork = c.filesizeneto

theorem Connection.top_eq_last (c : Connection) : c.top = c.toLimits.last c.size_orig_file := by
  unfold Connection.top Limits.last
  rw [changeTop_range_max]
  by_cases hopen : c.range_max ≤ 0
  · rw [if_pos hopen, if_pos hopen]
    split <;> rfl
  · rw [if_neg hopen, if_neg hopen]
    split <;> split <;> omega

theorem Limits.last_nonneg {size : Int} (hs : 0 < size) (limits : Limits) : 0 ≤ limits.last size := by
  unfold Limits.last
  split
  · omega
  · split <;> omega

theorem Limits.backwards_iff {size : Int} {limits : Limits}
    (hin : ∀ x ∈ l, x.b < size) :
    limits.Backwards l ↔
      limits.last size < limits.range_min ∧ limits.range_min ∈ storedBytes l := by
  have hinside : limits.range_min ∈ storedBytes l → limits.range_min < size := by
    rintro ⟨x, hx, -, hxb⟩
    have := hin x hx
    omega
  unfold Limits.Backwards Limits.last
  constructor
  · rintro ⟨hmax, hlt, hmem⟩
    refine ⟨?_, hmem⟩
    rw [if_neg (by omega)]
    split <;> omega
  · rintro ⟨hlt, hmem⟩
    have := hinside hmem
    split at hlt
    · omega
    · refine ⟨by omega, ?_, hmem⟩
      split at hlt <;> omega

/-- A hit makes sense when its range is in order and its plan goes to the end of it. -/
theorem Connection.sensible_iff {size : Int} (hl : StoredList l) (hin : ∀ x ∈ l, x.b < size)
    (htop : 0 ≤ c'.range_max) (hneto : c'.filesizeneto = c'.range_max - c'.range_min + 1)
    (hplan : (c'.lrangeswork, c'.hit) = getRangeWork l c'.range_min c'.range_max)
    (hhit : c'.hit = true) :
    SensibleHit size c' ↔ c'.range_min ≤ c'.range_max ∧
      ¬ (c'.range_min < c'.range_max ∧ getExtremeb l = c'.range_max - 1) := by
  have hwork : c'.lrangeswork = (getRangeWork l c'.range_min c'.range_max).1 := congrArg Prod.fst hplan
  have hhit' : (getRangeWork l c'.range_min c'.range_max).2 = true :=
    (congrArg Prod.snd hplan).symm.trans hhit
  have h₀ : 0 ≤ c'.range_min := by
    by_contra hneg
    rw [getRangeWork_negative hl htop (by omega)] at hhit'
    cases hhit'
  by_cases hle : c'.range_min ≤ c'.range_max
  · obtain ⟨htiles, -, -⟩ := getRangeWork_spec hl h₀ hle
    have hstored := (getRangeWork_hit hl h₀ hle).mp hhit'
    rw [← hwork] at htiles
    have htotal : getFileSize c'.lrangeswork = planEnd l c'.range_min c'.range_max - c'.range_min := by
      rw [getFileSize_eq_span, htiles.span_eq]
    by_cases hshort : c'.range_min < c'.range_max ∧ getExtremeb l = c'.range_max - 1
    · refine iff_of_false (fun h => ?_) fun h => h.2 hshort
      have := h.total
      rw [planEnd, if_pos hshort] at htotal
      omega
    · refine iff_of_true ?_ ⟨hle, hshort⟩
      rw [planEnd, if_neg hshort] at htotal hstored
      obtain ⟨x, hx, -, hxb⟩ := hstored c'.range_max hle (by omega)
      have := hin x hx
      exact ⟨⟨h₀, hle, by omega⟩, fun w hw => (htiles.bounds hw).2.1, hneto, by omega⟩
  · exact iff_of_false (fun h => hle h.range.2.1) fun h => hle h.1

/-- The range that is chosen for the header of the browser and the answer `r` of the plugin. -/
def requested (header : Str) (r : Resposta) : Option Limits :=
  (getLimitBytes header).map fun limits => (chooseRange r limits).2

theorem answerRange_cases (header : Str) (r : Resposta) (c : Connection) :
    (requested header r = none ∧ answerRange header r c = none) ∨
      ∃ c₁ : Connection, requested header r = some c₁.toLimits ∧ answerRange header r c = c₁.sizeKnown ∧
        c₁.size_orig_file = c.size_orig_file ∧ c₁.lranges = c.lranges := by
  unfold requested answerRange
  cases getLimitBytes header with
  | none => exact .inl ⟨rfl, rfl⟩
  | some limits => exact .inr ⟨{ c with r := _, toLimits := _ }, rfl, rfl, rfl, rfl⟩

/-- A request for which a hit makes no sense is answered with such a hit. -/
theorem Connection.sizeKnown_nonsense (hs : 0 < c.size_orig_file) (hmax : c.size_orig_file ≤ llongMax)
    (hl : StoredList c.lranges) (hin : ∀ x ∈ c.lranges, x.b < c.size_orig_file)
    (h : c.toLimits.Backwards c.lranges ∨ c.toLimits.OnePast c.lranges c.size_orig_file) :
    ∃ c', c.sizeKnown = some c' ∧ c'.hit = true ∧ ¬ SensibleHit c.size_orig_file c' := by
  have hlast := c.top_eq_last
  have htop := c.toLimits.last_nonneg hs
  have hstart : c.range_min ∈ storedBytes c.lranges := by
    rcases h with h | h
    · exact h.2.2
    · exact h.stored c.range_min le_rfl h.before
  have hmin : 0 ≤ c.range_min ∧ c.range_min < c.size_orig_file := by
    obtain ⟨x, hx, hxa, hxb⟩ := hstart
    have := hl.bounds x hx
    have := hin x hx
    omega
  have hextreme : getExtremeb c.lranges < c.size_orig_file := getExtremeb_lt hs.le hin
  have hend : 0 ≤ c.changeTop.range_max ∧
      (c.size_orig_file > c.range_min + 1 → c.changeTop.range_max < llongMax) ∧
      c.changeTop.range_max - c.range_min < llongMax := by
    have hbig : 1 < llongMax := by decide
    rw [changeTop_range_max]
    by_cases hopen : c.range_max ≤ 0
    · rw [if_pos hopen]
      generalize llongMax = greatest at *
      omega
    · rw [if_neg hopen]
      rcases h with ⟨-, hlt, -⟩ | ⟨hfits, hshort, -, -⟩
      · generalize llongMax = greatest at *
        omega
      · rw [Limits.last, if_neg hopen] at hshort
        generalize llongMax = greatest at *
        split at hshort <;> omega
  obtain ⟨c', hc'⟩ := Option.isSome_iff_exists.mp
    (sizeKnown_isSome hmin.1 (by omega) hend.1 hend.2.1 hend.2.2)
  obtain ⟨-, hmin', hmax', hneto, hplan⟩ := sizeKnown_some hc'
  rw [← hmin', ← hmax'] at hneto hplan
  have hhit : c'.hit = true := by
    have hhit' : c'.hit = (getRangeWork c.lranges c'.range_min c'.range_max).2 := congrArg Prod.snd hplan
    rw [hhit', hmin', hmax', hlast]
    rcases h with h | h
    · obtain ⟨hlt, hmem⟩ := (Limits.backwards_iff hin).mp h
      exact (getRangeWork_backwards hl htop hlt).mpr hmem
    · rw [getRangeWork_hit hl hmin.1 h.before.le, planEnd, if_pos ⟨h.before, h.extreme⟩]
      exact h.stored
  refine ⟨c', hc', hhit, fun hsense => ?_⟩
  obtain ⟨hle, hnot⟩ := (sensible_iff hl hin (by omega) hneto hplan hhit).mp hsense
  rw [hmin', hmax', hlast] at hle hnot
  rcases h with h | h
  · have := ((Limits.backwards_iff hin).mp h).1
    omega
  · exact hnot ⟨h.before, h.extreme⟩

/-- **A hit announces a range that makes sense**, unless the browser asks for a range that ends before
it starts, at a stored byte, or for stored bytes and the one behind the last stored byte. -/
theorem hit_sensible (header : Str) (r : Resposta) (hs : 0 < c.size_orig_file)
    (hmax : c.size_orig_file ≤ llongMax) (hl : StoredList c.lranges)
    (hin : ∀ x ∈ c.lranges, x.b < c.size_orig_file) :
    (∀ c', answerRange header r c = some c' → c'.hit = true → SensibleHit c.size_orig_file c') ↔
      ∀ limits, requested header r = some limits →
        ¬ (limits.Backwards c.lranges ∨ limits.OnePast c.lranges c.size_orig_file) := by
  rcases answerRange_cases header r c with ⟨hnone, hanswer⟩ | ⟨c₁, hsome, hanswer, hsize, hranges⟩
  · rw [hnone, hanswer]
    exact iff_of_true (by simp) (by simp)
  · rw [hsome, hanswer]
    simp only [Option.some.injEq, forall_eq']
    rw [← hsize] at hs hmax hin ⊢
    rw [← hranges] at hl hin ⊢
    constructor
    · intro hall h
      obtain ⟨c', hc', hhit, hnot⟩ := Connection.sizeKnown_nonsense hs hmax hl hin h
      exact hnot (hall c' hc' hhit)
    · intro hsense c' hc' hhit
      obtain ⟨hbound, hmin, htop, hneto, hplan⟩ := Connection.sizeKnown_some hc'
      rw [← hmin, ← htop] at hneto hplan
      have hlast := htop.trans c₁.top_eq_last
      have hnonneg := c₁.toLimits.last_nonneg hs
      have hhit' : (getRangeWork c₁.lranges c'.range_min c'.range_max).2 = true :=
        (congrArg Prod.snd hplan).symm.trans hhit
      have hle : c'.range_min ≤ c'.range_max := by
        by_contra hlt
        rw [getRangeWork_backwards hl (by omega) (by omega)] at hhit'
        refine hsense (.inl ((Limits.backwards_iff hin).mpr ⟨by omega, ?_⟩))
        rwa [← hmin]
      refine (Connection.sensible_iff hl hin (by omega) hneto hplan hhit).mpr ⟨hle, fun hshort => ?_⟩
      have h₀ : 0 ≤ c'.range_min := by
        by_contra hneg
        rw [getRangeWork_negative hl (by omega) (by omega)] at hhit'
        cases hhit'
      rw [getRangeWork_hit hl h₀ hle, planEnd, if_pos hshort, hmin, hlast] at hhit'
      rw [hmin, hlast] at hshort
      refine hsense (.inr ⟨fun hlong => ?_, hshort.2, hshort.1, hhit'⟩)
      have := hbound hlong
      rw [Connection.changeTop_range_max] at this
      split at this <;> generalize llongMax = greatest at * <;> omega

/-- Bytes 2 to 4 of ten. -/
theorem hit_sensible_closed :
    ∃ c', answerRange (['G', 'E', 'T', '\r', '\n'] ++ rangeBytes ++ ['2', '-', '4'])
        ⟨true, [], ['f'], 0, 0, 0, false⟩
        { Connection.new with size_orig_file := 10, lranges := [⟨0, 9, 0⟩] } = some c' ∧
      c'.hit = true ∧ SensibleHit 10 c' := by
  have hanswer : (answerRange (['G', 'E', 'T', '\r', '\n'] ++ rangeBytes ++ ['2', '-', '4'])
      ⟨true, [], ['f'], 0, 0, 0, false⟩
      { Connection.new with size_orig_file := 10, lranges := [⟨0, 9, 0⟩] }).map
        (fun c => c.hit) = some true := by decide
  obtain ⟨c', hc', hhit⟩ := Option.map_eq_some_iff.mp hanswer
  refine ⟨c', hc', hhit, (hit_sensible
    (c := { Connection.new with size_orig_file := 10, lranges := [⟨0, 9, 0⟩] })
    _ _ (by decide) (by decide) (by decide) (by decide)).mpr (fun limits hlimits => ?_) c' hc' hhit⟩
  have hasked : limits.range_min = 2 ∧ limits.range_max = 4 := by
    have hread : (requested (['G', 'E', 'T', '\r', '\n'] ++ rangeBytes ++ ['2', '-', '4'])
        ⟨true, [], ['f'], 0, 0, 0, false⟩).map (fun limits => (limits.range_min, limits.range_max)) =
          some (2, 4) := by decide
    rw [hlimits] at hread
    exact Prod.mk.inj (Option.some.inj hread)
  rintro (⟨-, hlt, -⟩ | ⟨-, hextreme, -, -⟩)
  · omega
  · rw [Limits.last, hasked.1, hasked.2] at hextreme
    exact absurd hextreme (by decide)

/-- Bytes 5 to 3 are asked for, and announced with a length of -1. -/
theorem hit_nonsense :
    StoredList [⟨0, 9, 0⟩] ∧
      ¬ ∀ c', answerRange (['G', 'E', 'T', '\r', '\n'] ++ rangeBytes ++ ['5', '-', '3'])
          ⟨true, [], ['f'], 0, 0, 0, false⟩
          { Connection.new with size_orig_file := 10, lranges := [⟨0, 9, 0⟩] } = some c' →
        c'.hit = true → SensibleHit 10 c' := by
  refine ⟨by decide, fun h => ?_⟩
  have hanswer : (answerRange (['G', 'E', 'T', '\r', '\n'] ++ rangeBytes ++ ['5', '-', '3'])
      ⟨true, [], ['f'], 0, 0, 0, false⟩
      { Connection.new with size_orig_file := 10, lranges := [⟨0, 9, 0⟩] }).map
        (fun c => (c.hit, c.range_min, c.range_max, c.filesizeneto)) = some (true, 5, 3, -1) := by
    decide
  obtain ⟨c', hc', hvalues⟩ := Option.map_eq_some_iff.mp hanswer
  simp only [Prod.mk.injEq] at hvalues
  have := (h c' hc' hvalues.1).range
  omega

end Sensible

/-! ## The plan for the length of the response -/

section Replan

variable {db : Db} {c c' : Connection} {cl total : Int}

/-- A plan that `Cache2` may find: none, the one for the range, or one that a flag gives up. -/
def Connection.Consistent (c : Connection) : Prop :=
  c.lrangeswork = [] ∨
    (c.lrangeswork, c.hit) = getRangeWork c.lranges c.range_min c.range_max ∨
      c.flag_change_top_range_max = true ∨ c.flag_truncate_top_range_max = true

/-- What `Cache2` leaves for the length `cl`. -/
structure Replanned (cl : Int) (c c' : Connection) : Prop where
  range_min : c'.range_min = c.range_min
  range_max : c'.range_max = c.range_min + cl - 1
  filesizeneto : c'.filesizeneto = cl
  plan : (c'.lrangeswork, c'.hit) = getRangeWork c.lranges c.range_min (c.range_min + cl - 1)
  lranges : c'.lranges.Perm c.lranges
  size : c'.size_orig_file ≠ c.size_orig_file → c'.size_orig_file = cl + c.range_min

/-- The range may end elsewhere; then the plan is given up. -/
structure Retopped (c c' : Connection) : Prop where
  range_min : c'.range_min = c.range_min
  lranges : c'.lranges = c.lranges
  hit : c'.hit = c.hit
  plan : c'.lrangeswork = [] ∨ (c'.range_max = c.range_max ∧ c'.lrangeswork = c.lrangeswork)

theorem Retopped.refl (c : Connection) : Retopped c c := ⟨rfl, rfl, rfl, .inr ⟨rfl, rfl⟩⟩

theorem Retopped.trans {c'' : Connection} (h : Retopped c c') (h' : Retopped c' c'') :
    Retopped c c'' := by
  refine ⟨h'.range_min.trans h.range_min, h'.lranges.trans h.lranges, h'.hit.trans h.hit, ?_⟩
  rcases h'.plan with hnil | ⟨hmax', hwork'⟩
  · exact .inl hnil
  · rcases h.plan with hnil | ⟨hmax, hwork⟩
    · exact .inl (hwork'.trans hnil)
    · exact .inr ⟨hmax'.trans hmax, hwork'.trans hwork⟩

theorem Connection.resize_retopped (db : Db) (cl total : Int) (c : Connection) :
    Retopped c (c.resize db cl total) ∧ (c.resize db cl total).size_orig_file = total := by
  unfold Connection.resize
  have hset : ∀ c₁ : Connection, Retopped c c₁ →
      Retopped c (Connection.set db { c₁ with size_orig_file := total } (.setSize c₁.r.key total)).2 :=
    fun c₁ h₁ => ⟨h₁.range_min, h₁.lranges, h₁.hit, h₁.plan⟩
  refine ⟨?_, rfl⟩
  dsimp only
  apply hset
  split <;> split
  · exact ⟨rfl, rfl, rfl, .inl rfl⟩
  · exact ⟨rfl, rfl, rfl, .inl rfl⟩
  · exact ⟨rfl, rfl, rfl, .inl rfl⟩
  · exact .refl c

/-- A flag gives the plan up. -/
theorem Connection.resize_flagged (db : Db) (cl total : Int)
    (h : c.flag_change_top_range_max = true ∨ c.flag_truncate_top_range_max = true) :
    (c.resize db cl total).lrangeswork = [] := by
  unfold Connection.resize
  have hset : ∀ c₁ : Connection, c₁.lrangeswork = [] →
      (Connection.set db { c₁ with size_orig_file := total }
        (.setSize c₁.r.key total)).2.lrangeswork = [] := fun c₁ h₁ => h₁
  dsimp only
  apply hset
  split <;> split
  · rfl
  · rfl
  · rfl
  · next htruncate hchange => exact absurd h (not_or_intro hchange htruncate)

theorem Connection.moveTop_retopped (total : Int) (c : Connection) :
    Retopped c (c.moveTop total) ∧ (c.moveTop total).range_max = total - 1 ∧
      (c.moveTop total).size_orig_file = c.size_orig_file := by
  unfold Connection.moveTop
  split
  · exact ⟨⟨rfl, rfl, rfl, .inl rfl⟩, rfl, rfl⟩
  · exact ⟨.refl c, by omega, rfl⟩

/-- The plan of `replan` is the one it finds, unless that is empty. -/
theorem Connection.replan_eq (db : Db) (c : Connection) :
    (c.replan db).toLimits = c.toLimits ∧ (c.replan db).filesizeneto = c.filesizeneto ∧
      (c.replan db).size_orig_file = c.size_orig_file ∧ (c.replan db).lranges.Perm c.lranges ∧
      ((c.lrangeswork = [] ∧ ((c.replan db).lrangeswork, (c.replan db).hit) =
          getRangeWork c.lranges c.range_min c.range_max) ∨
        (c.lrangeswork ≠ [] ∧ (c.replan db).lrangeswork = c.lrangeswork ∧ (c.replan db).hit = c.hit)) := by
  have hplan : (c.plan.lrangeswork, c.plan.hit) = getRangeWork c.lranges c.range_min c.range_max := by
    simp only [Connection.plan, Transfer.lrangeswork, List.nil_append]
  have hperm : c.plan.lranges.Perm c.lranges := sortIntervals_perm c.lranges
  unfold Connection.replan
  split
  · next hnil =>
    rw [List.isEmpty_iff] at hnil
    dsimp only
    split <;> exact ⟨rfl, rfl, rfl, hperm, .inl ⟨hnil, hplan⟩⟩
  · next hne =>
    rw [List.isEmpty_iff] at hne
    exact ⟨rfl, rfl, rfl, .refl _, .inr ⟨hne, rfl, rfl⟩⟩

/-- **`Cache2` plans again consistently**: whatever flags are set, the plan it leaves is the one for
the bytes from `range_min` on that the response announces; unless the end of the file overflows. -/
theorem cache2_replans (hcl : 1 ≤ cl) (hmin : 0 ≤ c.range_min) (hplan : c.Consistent) :
    (c.cache2 db cl).elim (llongMax < cl + c.range_min) (Replanned cl c) := by
  cases hcache2 : c.cache2 db cl with
  | none =>
    rw [Connection.cache2, Option.map_eq_none_iff, llong] at hcache2
    split at hcache2
    · cases hcache2
    · have hbig : 0 ≤ llongMax := by decide
      generalize llongMax = greatest at *
      rw [Option.elim_none]
      omega
  | some c' =>
    rw [Option.elim_some]
    obtain ⟨total, htotal, rfl⟩ := Option.map_eq_some_iff.mp hcache2
    obtain ⟨-, rfl⟩ := llong_eq_some.mp htotal
    dsimp only
    -- the end of the range, then the plan
    have hresized : ∃ c₁, (if c.Resizes then c.resize db cl (cl + c.range_min) else c) = c₁ ∧
        Retopped c c₁ ∧ (c₁.size_orig_file ≠ c.size_orig_file → c₁.size_orig_file = cl + c.range_min) ∧
        (c.flag_change_top_range_max = true ∨ c.flag_truncate_top_range_max = true →
          c₁.lrangeswork = []) := by
      refine ⟨_, rfl, ?_⟩
      split
      · obtain ⟨hretopped, hsize⟩ := c.resize_retopped db cl (cl + c.range_min)
        exact ⟨hretopped, fun _ => hsize, Connection.resize_flagged db cl (cl + c.range_min)⟩
      · next hnot =>
        refine ⟨.refl c, fun hne => absurd rfl hne, fun hflag => absurd ?_ hnot⟩
        exact .inr hflag
    obtain ⟨c₁, hc₁, hretopped, hsize, hflagged⟩ := hresized
    rw [hc₁]
    obtain ⟨hmoved, hmax, hsize'⟩ := c₁.moveTop_retopped (cl + c.range_min)
    obtain ⟨hlimits, hneto, hsize'', hperm, hreplan⟩ :=
      Connection.replan_eq db { c₁.moveTop (cl + c.range_min) with filesizeneto := cl }
    have hall := hretopped.trans hmoved
    have hend : cl + c.range_min - 1 = c.range_min + cl - 1 := by omega
    refine ⟨(congrArg Limits.range_min hlimits).trans hall.range_min,
      (congrArg Limits.range_max hlimits).trans (hmax.trans hend), hneto, ?_,
      hperm.trans (.of_eq hall.lranges), fun hne => ?_⟩
    · rcases hreplan with ⟨-, hnew⟩ | ⟨hne, hwork, hhit⟩
      · rw [hnew]
        dsimp only
        rw [hall.lranges, hall.range_min, hmax, hend]
      · -- the plan that is kept is the one for this range
        obtain ⟨hsame, hkept⟩ := hall.plan.resolve_left hne
        have hunflagged : ¬ (c.flag_change_top_range_max = true ∨ c.flag_truncate_top_range_max = true) := by
          intro hflag
          rcases hmoved.plan with hnil | ⟨-, hkept₁⟩
          · exact hne hnil
          · exact hne (hkept₁.trans (hflagged hflag))
        have hold := (hplan.resolve_left fun hnil => hne (hkept.trans hnil)).resolve_right hunflagged
        rw [hwork, hhit, ← hend, ← hmax, hsame, ← hold]
        exact Prod.ext hkept hall.hit
    · rw [hsize'', hsize'] at hne ⊢
      exact hsize hne

/-- A request without an end, for a file that had twenty bytes. -/
def openRequest : Connection :=
  { Connection.new with
    size_orig_file := 20, flag_change_top_range_max := true, range_max := 19, lranges := [⟨0, 4, 0⟩] }

/-- Ten bytes are announced. -/
theorem cache2_replans_open :
    (openRequest.cache2 succeeds 10).elim (llongMax < 10 + 0) (Replanned 10 openRequest) :=
  cache2_replans (by decide) (by decide) (.inl rfl)

end Replan

end Haarp
