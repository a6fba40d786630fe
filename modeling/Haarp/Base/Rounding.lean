import Mathlib.Data.Int.Log
import Mathlib.Algebra.Order.Floor.Ring
import Mathlib.Tactic.Linarith
import Mathlib.Tactic.Ring

/-!
# Rounding to significant bits

What an operation on floating-point numbers of `p` bits makes of its exact result, when the exponents are
not bounded: the nearest such number, of two the one whose last bit is zero.

* `HasBits`: the numbers of `p` bits. Rounding gives one of them (`hasBits_roundTo`), and keeps those that
  there are (`roundTo_eq_self`).
* `roundTo_mono`: rounding keeps the order, so that a product with a factor up to 1 does not grow
  (`roundTo_mul_le`).
* `roundTo_pow_sub_one`: a difference from a power of two gets lost.
-/

namespace Haarp.Base

variable {K : Type*} [Field K] {p : ℕ}

/-- A number of `p` bits, or the power of two behind them. -/
def HasBits (p : ℕ) (x : K) : Prop := ∃ m : ℤ, ∃ e : ℤ, 0 ≤ m ∧ m ≤ 2 ^ p ∧ x = m * 2 ^ e

theorem hasBits_intCast {m : ℤ} (hm : 0 ≤ m) (hbits : m ≤ 2 ^ p) : HasBits p (m : K) :=
  ⟨m, 0, hm, hbits, by rw [zpow_zero, mul_one]⟩

theorem hasBits_pow (p n : ℕ) : HasBits p ((2 : K) ^ n) :=
  ⟨1, n, zero_le_one, one_le_pow₀ one_le_two, by rw [Int.cast_one, one_mul, zpow_natCast]⟩

variable [LinearOrder K] [FloorRing K]

/-- The nearest integer, of two the even one. -/
def roundEven (x : K) : ℤ :=
  if 2 * (x - ⌊x⌋) < 1 ∨ 2 * (x - ⌊x⌋) = 1 ∧ ⌊x⌋ % 2 = 0 then ⌊x⌋ else ⌊x⌋ + 1

/-- The unit in the last place of a number with `p` bits. -/
def ulp (p : ℕ) (x : K) : K := 2 ^ (Int.log 2 |x| + 1 - p)

def roundTo (p : ℕ) (x : K) : K := roundEven (x / ulp p x) * ulp p x

/-! ## To an integer -/

section Integer

variable {x y : K}

theorem floor_le_roundEven (x : K) : ⌊x⌋ ≤ roundEven x := by
  unfold roundEven
  split <;> omega

theorem roundEven_le_floor (x : K) : roundEven x ≤ ⌊x⌋ + 1 := by
  unfold roundEven
  split <;> omega

variable [IsStrictOrderedRing K]

theorem roundEven_intCast (n : ℤ) : roundEven (n : K) = n := by
  unfold roundEven
  rw [Int.floor_intCast, sub_self, mul_zero, if_pos (.inl zero_lt_one)]

theorem roundEven_mono (h : x ≤ y) : roundEven x ≤ roundEven y := by
  rcases (Int.floor_mono h).lt_or_eq with hfloor | hfloor
  · -- the integer between them
    have hx := roundEven_le_floor x
    have hy := floor_le_roundEven y
    omega
  · by_cases hdown : 2 * (y - ⌊y⌋) < 1 ∨ 2 * (y - ⌊y⌋) = 1 ∧ ⌊y⌋ % 2 = 0
    · have hxdown : 2 * (x - ⌊x⌋) < 1 ∨ 2 * (x - ⌊x⌋) = 1 ∧ ⌊x⌋ % 2 = 0 := by
        rw [hfloor]
        rcases hdown with hlt | ⟨heq, heven⟩
        · left
          linarith
        · rcases h.lt_or_eq with hlt | rfl
          · left
            linarith
          · exact .inr ⟨heq, heven⟩
      unfold roundEven
      rw [if_pos hdown, if_pos hxdown, hfloor]
    · have hx := roundEven_le_floor x
      rw [hfloor] at hx
      rw [roundEven.eq_def y, if_neg hdown]
      exact hx

/-- A number behind the middle goes up. -/
theorem roundEven_of_up {n : ℤ} (hlow : (n : K) < x) (hhigh : x < n + 1)
    (hup : 2 * (x - n) = 1 ∧ n % 2 = 1 ∨ 1 < 2 * (x - n)) : roundEven x = n + 1 := by
  have hfloor : ⌊x⌋ = n := Int.floor_eq_iff.mpr ⟨hlow.le, hhigh⟩
  unfold roundEven
  rw [hfloor, if_neg]
  rintro (hlt | ⟨heq, heven⟩)
  · rcases hup with ⟨hmiddle, -⟩ | hlarge <;> linarith
  · rcases hup with ⟨-, hodd⟩ | hlarge
    · omega
    · linarith

end Integer

/-! ## To `p` bits -/

section Bits

variable [IsStrictOrderedRing K] {x y : K}

theorem ulp_pos (p : ℕ) (x : K) : 0 < ulp p x := zpow_pos two_pos _

theorem ulp_mul (p : ℕ) (x : K) : 2 ^ p * ulp p x = 2 ^ (Int.log 2 |x| + 1) := by
  rw [ulp, ← zpow_natCast, ← zpow_add₀ two_pos.ne', add_sub_cancel]

theorem roundTo_zero (p : ℕ) : roundTo p (0 : K) = 0 := by
  rw [roundTo, zero_div, ← Int.cast_zero, roundEven_intCast, Int.cast_zero, zero_mul]

/-- The quotient has `p` bits in front of the point. -/
theorem div_ulp_lt (p : ℕ) (x : K) : x / ulp p x < 2 ^ p := by
  rw [div_lt_iff₀ (ulp_pos p x), ulp_mul]
  have hlt := Int.lt_zpow_succ_log_self (b := 2) (by decide) |x|
  rw [Nat.cast_ofNat] at hlt
  exact (le_abs_self x).trans_lt hlt

theorem le_div_ulp (hx : 0 < x) : 2 ^ p ≤ 2 * (x / ulp p x) := by
  rw [← mul_div_assoc, le_div_iff₀ (ulp_pos p x), ulp_mul, zpow_add_one₀ two_ne_zero, mul_comm _ 2]
  have hle := Int.zpow_log_le_self (b := 2) (by decide) (abs_pos.mpr hx.ne')
  rw [Nat.cast_ofNat, abs_of_pos hx] at hle
  rw [abs_of_pos hx]
  linarith

theorem roundEven_le_pow (p : ℕ) (x : K) : roundEven (x / ulp p x) ≤ 2 ^ p := by
  have hlt : ⌊x / ulp p x⌋ < 2 ^ p := by
    rw [Int.floor_lt]
    push_cast
    exact div_ulp_lt p x
  exact (roundEven_le_floor _).trans hlt

theorem roundEven_nonneg (hx : 0 ≤ x) : 0 ≤ roundEven (x / ulp p x) :=
  (Int.floor_nonneg.mpr (div_nonneg hx (ulp_pos p x).le)).trans (floor_le_roundEven _)

theorem hasBits_roundTo (p : ℕ) (hx : 0 ≤ x) : HasBits p (roundTo p x) :=
  ⟨_, _, roundEven_nonneg hx, roundEven_le_pow p x, rfl⟩

theorem roundTo_nonneg (p : ℕ) (hx : 0 ≤ x) : 0 ≤ roundTo p x :=
  mul_nonneg (Int.cast_nonneg (roundEven_nonneg hx)) (ulp_pos p x).le

/-- Rounding keeps the multiples of the unit. -/
theorem roundTo_of_multiple {m : ℤ} (h : x = m * ulp p x) : roundTo p x = x := by
  have hquotient : x / ulp p x = m := (div_eq_iff (ulp_pos p x).ne').mpr h
  rw [roundTo, hquotient, roundEven_intCast]
  exact h.symm

/-- Rounding keeps the numbers of `p` bits. -/
theorem roundTo_eq_self (hp : 0 < p) (h : HasBits p x) : roundTo p x = x := by
  obtain ⟨m, e, hm, hbits, rfl⟩ := h
  rcases hm.eq_or_lt with rfl | hpos
  · rw [Int.cast_zero, zero_mul, roundTo_zero]
  have hpow : (0 : K) < 2 ^ e := zpow_pos two_pos e
  have hx : (0 : K) < m * 2 ^ e := mul_pos (Int.cast_pos.mpr hpos) hpow
  set x : K := m * 2 ^ e with hxdef
  by_cases hunit : Int.log 2 |x| + 1 - p ≤ e
  · -- the unit divides `2 ^ e`
    obtain ⟨k, hk⟩ := Int.eq_ofNat_of_zero_le (sub_nonneg.mpr hunit)
    refine roundTo_of_multiple (m := m * 2 ^ k) ?_
    have hsplit : e = k + (Int.log 2 |x| + 1 - p) := by omega
    rw [ulp, Int.cast_mul, Int.cast_pow, Int.cast_ofNat, mul_assoc, ← zpow_natCast,
      ← zpow_add₀ two_ne_zero, ← hsplit, hxdef]
  · -- `x` is the power of two behind the numbers with this unit
    have hle : x ≤ 2 ^ ((p : ℤ) + e) := by
      rw [zpow_add₀ two_ne_zero, zpow_natCast, hxdef]
      exact mul_le_mul_of_nonneg_right (by exact_mod_cast hbits) hpow.le
    have hge : (2 : K) ^ ((p : ℤ) + e) ≤ x := by
      have hlog := Int.zpow_log_le_self (b := 2) (by decide) (abs_pos.mpr hx.ne')
      rw [Nat.cast_ofNat, abs_of_pos hx] at hlog
      refine le_trans (zpow_le_zpow_right₀ one_le_two ?_) hlog
      rw [abs_of_pos hx] at hunit
      omega
    have hpower : x = 2 ^ ((p : ℤ) + e) := le_antisymm hle hge
    have hlog : Int.log 2 |x| = p + e := by
      rw [abs_of_pos hx, hpower]
      exact_mod_cast Int.log_zpow (R := K) (b := 2) (by decide) ((p : ℤ) + e)
    refine roundTo_of_multiple (m := 2 ^ (p - 1)) ?_
    have hsplit : (p : ℤ) + e = ((p - 1 : ℕ) : ℤ) + (p + e + 1 - p) := by omega
    rw [ulp, hlog, Int.cast_pow, Int.cast_ofNat, ← zpow_natCast, ← zpow_add₀ two_ne_zero, ← hsplit,
      hpower]

/-- A number and its rounding have the same power of two before them. -/
theorem pow_log_le_roundTo (hp : 0 < p) (hx : 0 < x) : 2 ^ Int.log 2 |x| ≤ roundTo p x := by
  have hpow : (2 : K) ^ p = 2 * ((2 ^ (p - 1) : ℤ) : K) := by
    rw [Int.cast_pow, Int.cast_ofNat, ← pow_succ', Nat.sub_add_cancel hp]
  have hquotient : ((2 ^ (p - 1) : ℤ) : K) ≤ x / ulp p x := by
    have hle := le_div_ulp (p := p) hx
    rw [hpow] at hle
    exact le_of_mul_le_mul_left hle two_pos
  have hround := (Int.le_floor.mpr hquotient).trans (floor_le_roundEven _)
  have hsplit : 2 * (2 : K) ^ Int.log 2 |x| = 2 * (((2 ^ (p - 1) : ℤ) : K) * ulp p x) := by
    rw [← mul_assoc, ← hpow, ulp_mul, zpow_add_one₀ two_ne_zero, mul_comm]
  rw [mul_left_cancel₀ two_ne_zero hsplit]
  exact mul_le_mul_of_nonneg_right (Int.cast_le.mpr hround) (ulp_pos p x).le

/-- **Rounding keeps the order.** -/
theorem roundTo_mono (hp : 0 < p) (hx : 0 ≤ x) (h : x ≤ y) : roundTo p x ≤ roundTo p y := by
  rcases hx.eq_or_lt with rfl | hpos
  · rw [roundTo_zero]
    exact roundTo_nonneg p h
  have hlog : Int.log 2 |x| ≤ Int.log 2 |y| := by
    rw [abs_of_pos hpos, abs_of_pos (hpos.trans_le h)]
    exact Int.log_mono_right hpos h
  rcases hlog.eq_or_lt with heq | hlt
  · have hulp : ulp p x = ulp p y := by rw [ulp, ulp, heq]
    rw [roundTo, roundTo, hulp]
    refine mul_le_mul_of_nonneg_right (Int.cast_le.mpr (roundEven_mono ?_)) (ulp_pos p y).le
    exact div_le_div_of_nonneg_right h (ulp_pos p y).le
  · -- a power of two is between them
    have hbelow : roundTo p x ≤ 2 ^ (Int.log 2 |x| + 1) := by
      rw [← ulp_mul p x]
      exact mul_le_mul_of_nonneg_right (by exact_mod_cast roundEven_le_pow p x) (ulp_pos p x).le
    refine hbelow.trans (le_trans ?_ (pow_log_le_roundTo hp (hpos.trans_le h)))
    exact zpow_le_zpow_right₀ one_le_two hlt

/-- A factor up to 1 does not make a number larger. -/
theorem roundTo_mul_le (hp : 0 < p) (hx : 0 ≤ x) (hbits : HasBits p x) (hy : 0 ≤ y) (hle : y ≤ 1) :
    roundTo p (x * y) ≤ x := by
  have hmono := roundTo_mono hp (mul_nonneg hx hy) (mul_le_of_le_one_right hx hle)
  rwa [roundTo_eq_self hp hbits] at hmono

/-- With too many bits, the number before a power of two becomes this power. -/
theorem roundTo_pow_sub_one {n : ℕ} (hp : 0 < p) (hn : p < n) : roundTo p ((2 : K) ^ n - 1) = 2 ^ n := by
  have hone : 1 ≤ 2 ^ n := Nat.one_le_two_pow
  have hlog : Int.log 2 |(2 : K) ^ n - 1| = ((n - 1 : ℕ) : ℤ) := by
    have hcast : |(2 : K) ^ n - 1| = ((2 ^ n - 1 : ℕ) : K) := by
      rw [abs_of_nonneg (sub_nonneg.mpr (one_le_pow₀ one_le_two)), Nat.cast_sub hone]
      push_cast
      rfl
    have hpow : 2 ^ n = 2 * 2 ^ (n - 1) := by rw [← pow_succ', Nat.sub_add_cancel (by omega)]
    have hpos : 0 < 2 ^ (n - 1) := Nat.two_pow_pos _
    rw [hcast, Int.log_natCast, Nat.cast_inj]
    refine Nat.log_eq_of_pow_le_of_lt_pow (by omega) ?_
    rw [Nat.sub_add_cancel (by omega)]
    omega
  have hulp : ulp p ((2 : K) ^ n - 1) = 2 ^ (n - p) := by
    rw [ulp, hlog, ← zpow_natCast]
    congr 1
    omega
  have hpow : (2 : K) ^ n = 2 ^ p * 2 ^ (n - p) := by rw [← pow_add, Nat.add_sub_of_le hn.le]
  have hunit : (2 : K) ≤ 2 ^ (n - p) := le_self_pow₀ one_le_two (by omega)
  have hpos : (0 : K) < 2 ^ (n - p) := two_pos.trans_le hunit
  have hround : roundEven (((2 : K) ^ n - 1) / 2 ^ (n - p)) = 2 ^ p - 1 + 1 := by
    have hquotient : ((2 : K) ^ n - 1) / 2 ^ (n - p) = 2 ^ p - (2 ^ (n - p))⁻¹ := by
      rw [hpow, sub_div, mul_div_assoc, div_self hpos.ne', mul_one, one_div]
    have hinv : ((2 : K) ^ (n - p))⁻¹ ≤ 2⁻¹ := inv_anti₀ two_pos hunit
    have hinvpos : (0 : K) < (2 ^ (n - p))⁻¹ := inv_pos.mpr hpos
    have hhalf : (2 : K)⁻¹ * 2 = 1 := inv_mul_cancel₀ two_ne_zero
    have hodd : ((2 : ℤ) ^ p - 1) % 2 = 1 := by
      obtain ⟨q, rfl⟩ := Nat.exists_eq_succ_of_ne_zero hp.ne'
      rw [pow_succ]
      omega
    rw [hquotient]
    refine roundEven_of_up (by push_cast; linarith) (by push_cast; linarith) ?_
    push_cast
    rcases hinv.eq_or_lt with heq | hlt
    · left
      exact ⟨by rw [heq]; linarith, hodd⟩
    · right
      linarith
  rw [roundTo, hulp, hround, sub_add_cancel, hpow]
  push_cast
  rfl

end Bits

end Haarp.Base
