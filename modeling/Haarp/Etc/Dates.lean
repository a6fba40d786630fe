import Haarp.Base.Rounding
import Mathlib.Data.Rat.Floor

/-!
# The dates of the cleaner

`getNewDateMax` of `haarpClean`: a proportion of the range of dates, that shrinks with `hit` and comes
closer to all of it with every phase. It never goes beyond the last date (`getNewDateMax_le`), and reaches
it in phase 52, where a `double` has no bits left for the difference (`getNewDateMax_last`).

The exponents of a `double` are not bounded here, which makes no difference before phase 1000. Times are
seconds below `2 ^ 53`, and their sums exact.
-/

namespace Haarp.HaarpClean

open Base

/-- What a `double` keeps of an exact result. -/
abbrev double (x : ℚ) : ℚ := roundTo 53 x

/-- `kn`; four times a power of two is exact. -/
def kn (fase : Nat) : ℚ := double (double (4 * 2 ^ fase - 1) / (4 * 2 ^ fase))

/-- `prop`, behind its loop. -/
def prop (fase hit : Nat) : ℚ := (fun prop => double (prop * kn fase))^[hit + 1] 1

/-- `mktime` of `getNewDateMax`; `d_min` and `d_max` are the times of its first lines. -/
def getNewDateMax (d_min d_max : Int) (fase hit : Nat) : Int :=
  d_min + ⌊double ((d_max - d_min : Int) * prop fase hit)⌋

section

variable {fase hit : Nat}

theorem double_one : double 1 = 1 := roundTo_eq_self (by decide) (hasBits_pow 53 0)

theorem four_mul_pow (fase : Nat) : (4 * 2 ^ fase : ℚ) = 2 ^ (fase + 2) := by ring

theorem kn_nonneg (fase : Nat) : 0 ≤ kn fase := by
  have hone : (1 : ℚ) ≤ 2 ^ (fase + 2) := one_le_pow₀ one_le_two
  rw [kn, four_mul_pow]
  exact roundTo_nonneg 53 (div_nonneg (roundTo_nonneg 53 (sub_nonneg.mpr hone)) (zero_le_one.trans hone))

theorem kn_le_one (fase : Nat) : kn fase ≤ 1 := by
  have hone : (1 : ℚ) ≤ 2 ^ (fase + 2) := one_le_pow₀ one_le_two
  have hdifference : double ((2 : ℚ) ^ (fase + 2) - 1) ≤ 2 ^ (fase + 2) := by
    have hmono := roundTo_mono (p := 53) (by decide) (sub_nonneg.mpr hone) (sub_le_self _ zero_le_one)
    rwa [roundTo_eq_self (by decide) (hasBits_pow 53 (fase + 2))] at hmono
  have hquotient : double ((2 : ℚ) ^ (fase + 2) - 1) / 2 ^ (fase + 2) ≤ 1 :=
    div_le_one_of_le₀ hdifference (zero_le_one.trans hone)
  have hmono := roundTo_mono (p := 53) (by decide)
    (div_nonneg (roundTo_nonneg 53 (sub_nonneg.mpr hone)) (zero_le_one.trans hone)) hquotient
  rw [kn, four_mul_pow]
  exact hmono.trans_eq double_one

/-- From phase 52 on, the difference from 1 gets lost. -/
theorem kn_last (h : 52 ≤ fase) : kn fase = 1 := by
  have hdifference : double ((2 : ℚ) ^ (fase + 2) - 1) = 2 ^ (fase + 2) :=
    roundTo_pow_sub_one (by decide) (by omega)
  rw [kn, four_mul_pow, hdifference, div_self (pow_ne_zero _ two_ne_zero), double_one]

theorem prop_succ (fase hit : Nat) : prop fase (hit + 1) = double (prop fase hit * kn fase) :=
  Function.iterate_succ_apply' _ _ _

theorem prop_zero (fase : Nat) : prop fase 0 = double (1 * kn fase) := rfl

theorem prop_nonneg (fase hit : Nat) : 0 ≤ prop fase hit := by
  induction hit with
  | zero => exact roundTo_nonneg 53 (mul_nonneg zero_le_one (kn_nonneg fase))
  | succ hit ih =>
    rw [prop_succ]
    exact roundTo_nonneg 53 (mul_nonneg ih (kn_nonneg fase))

theorem hasBits_prop (fase hit : Nat) : HasBits 53 (prop fase hit) := by
  cases hit with
  | zero => exact hasBits_roundTo 53 (mul_nonneg zero_le_one (kn_nonneg fase))
  | succ hit =>
    rw [prop_succ]
    exact hasBits_roundTo 53 (mul_nonneg (prop_nonneg fase hit) (kn_nonneg fase))

theorem prop_antitone (fase : Nat) : Antitone (prop fase) :=
  antitone_nat_of_succ_le fun hit => by
    rw [prop_succ]
    exact roundTo_mul_le (by decide) (prop_nonneg fase hit) (hasBits_prop fase hit) (kn_nonneg fase)
      (kn_le_one fase)

theorem prop_le_one (fase hit : Nat) : prop fase hit ≤ 1 := by
  refine (prop_antitone fase (Nat.zero_le hit)).trans ?_
  rw [prop_zero]
  exact roundTo_mul_le (by decide) zero_le_one (hasBits_pow 53 0) (kn_nonneg fase) (kn_le_one fase)

theorem prop_last (h : 52 ≤ fase) (hit : Nat) : prop fase hit = 1 := by
  induction hit with
  | zero => rw [prop_zero, kn_last h, mul_one, double_one]
  | succ hit ih => rw [prop_succ, ih, kn_last h, mul_one, double_one]

variable {d_min d_max : Int}

theorem getNewDateMax_le (horder : d_min ≤ d_max) (hspan : d_max - d_min ≤ 2 ^ 53) (fase hit : Nat) :
    getNewDateMax d_min d_max fase hit ≤ d_max := by
  have hrange : (0 : ℚ) ≤ (d_max - d_min : Int) := Int.cast_nonneg (sub_nonneg.mpr horder)
  have hround : double ((d_max - d_min : Int) * prop fase hit) ≤ (d_max - d_min : Int) :=
    roundTo_mul_le (by decide) hrange (hasBits_intCast (sub_nonneg.mpr horder) hspan)
      (prop_nonneg fase hit) (prop_le_one fase hit)
  have hfloor := Int.floor_le_floor hround
  rw [Int.floor_intCast] at hfloor
  unfold getNewDateMax
  omega

/-- With more requests the dates are earlier. -/
theorem getNewDateMax_antitone (horder : d_min ≤ d_max) (fase : Nat) {hit hit' : Nat} (h : hit ≤ hit') :
    getNewDateMax d_min d_max fase hit' ≤ getNewDateMax d_min d_max fase hit := by
  have hrange : (0 : ℚ) ≤ (d_max - d_min : Int) := Int.cast_nonneg (sub_nonneg.mpr horder)
  have hround := roundTo_mono (p := 53) (by decide) (mul_nonneg hrange (prop_nonneg fase hit'))
    (mul_le_mul_of_nonneg_left (prop_antitone fase h) hrange)
  exact Int.add_le_add_left (Int.floor_le_floor hround) d_min

theorem getNewDateMax_last (horder : d_min ≤ d_max) (hspan : d_max - d_min ≤ 2 ^ 53) (h : 52 ≤ fase)
    (hit : Nat) : getNewDateMax d_min d_max fase hit = d_max := by
  rw [getNewDateMax, prop_last h, mul_one, double,
    roundTo_eq_self (by decide) (hasBits_intCast (sub_nonneg.mpr horder) hspan), Int.floor_intCast]
  omega

end

end Haarp.HaarpClean
