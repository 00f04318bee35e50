import Mathlib.Data.Rat.Floor
import Mathlib.Tactic.FieldSimp
import Mathlib.Tactic.Linarith
import Mathlib.Tactic.LinearCombination
import Mathlib.Tactic.NormNum

/-!
# Conversions of C between floating point and integers

Floating-point values are rationals. A conversion to an integer type drops the fraction; it is
undefined in C when the result is not a value of the type, and has no value here.
-/

namespace CConv

/-- The conversion to an integer: the fraction is dropped. -/
def trunc (x : ℚ) : ℤ := if 0 ≤ x then ⌊x⌋ else ⌈x⌉

/-- The conversion to `u32`. -/
def toU32 (x : ℚ) : Option (BitVec 32) :=
  if 0 ≤ trunc x ∧ trunc x < 2 ^ 32 then some (BitVec.ofInt 32 (trunc x)) else none

/-- The conversion to `u32` as the processor makes it: a value that is not one of the type becomes
the nearest one. -/
def satU32 (x : ℚ) : BitVec 32 := BitVec.ofInt 32 (max 0 (min (2 ^ 32 - 1) (trunc x)))

def toS32 (x : ℚ) : Option ℤ :=
  if -2 ^ 31 ≤ trunc x ∧ trunc x < 2 ^ 31 then some (trunc x) else none

/-- The division; a division by zero gives no number. -/
def fdiv (x y : ℚ) : Option ℚ := if y = 0 then none else some (x / y)

/-- `llround`: to the nearest integer, a half away from zero. -/
def llround (x : ℚ) : ℤ := if 0 ≤ x then ⌊x + 1 / 2⌋ else -⌊-x + 1 / 2⌋

/-- An integer as a `float`, which has 24 significant bits: to the nearest, a half to the even
one. -/
def toFloat (n : ℕ) : ℕ :=
  let ulp := 2 ^ (n.log2 - 23)
  if ulp < 2 * (n % ulp) ∨ (ulp = 2 * (n % ulp) ∧ n / ulp % 2 = 1) then (n / ulp + 1) * ulp
  else n / ulp * ulp

theorem toFloat_le (n : ℕ) : toFloat n ≤ 2 * n := by
  rcases Nat.eq_zero_or_pos n with rfl | hpos
  · decide
  set ulp := 2 ^ (n.log2 - 23) with hulp
  have hle : ulp ≤ n :=
    (Nat.pow_le_pow_right (by decide) (Nat.sub_le _ _)).trans (Nat.log2_self_le hpos.ne')
  have hdiv := Nat.div_mul_le_self n ulp
  simp only [toFloat, ← hulp]
  split
  · rw [Nat.add_mul, Nat.one_mul]
    omega
  · omega

/-- An integer in a register that is narrower than the word written to it. -/
theorem setWidth_ofInt {v w : ℕ} (h : w ≤ v) (n : ℤ) :
    (BitVec.ofInt v n).setWidth w = BitVec.ofInt w n := by
  apply BitVec.eq_of_toNat_eq
  have hdvd : ((2 ^ w : ℕ) : ℤ) ∣ ((2 ^ v : ℕ) : ℤ) := by
    exact_mod_cast Nat.pow_dvd_pow 2 h
  have hv := Int.emod_nonneg n (show ((2 ^ v : ℕ) : ℤ) ≠ 0 by positivity)
  rw [BitVec.toNat_setWidth, BitVec.toNat_ofInt, BitVec.toNat_ofInt, ← Int.emod_emod_of_dvd n hdvd,
    Int.toNat_emod hv (by positivity), Int.toNat_natCast]

theorem trunc_of_nonneg {x : ℚ} (h : 0 ≤ x) : trunc x = ⌊x⌋ := if_pos h

theorem trunc_nonneg {x : ℚ} (h : 0 ≤ x) : 0 ≤ trunc x := by
  rw [trunc_of_nonneg h]
  exact Int.floor_nonneg.mpr h

theorem trunc_nonpos {x : ℚ} (h : x ≤ 0) : trunc x ≤ 0 := by
  rw [trunc]
  split
  · next h0 => rw [le_antisymm h h0, Int.floor_zero]
  · exact Int.ceil_le.mpr (by exact_mod_cast h)

theorem trunc_abs (x : ℚ) : trunc |x| = |trunc x| := by
  rcases le_total 0 x with h | h
  · rw [abs_of_nonneg h, abs_of_nonneg (trunc_nonneg h)]
  · rw [abs_of_nonpos h, abs_of_nonpos (trunc_nonpos h), trunc_of_nonneg (neg_nonneg.mpr h),
      Int.floor_neg, trunc]
    split
    · next h0 => rw [le_antisymm h h0, Int.floor_zero, Int.ceil_zero]
    · rfl

theorem abs_trunc_sub_le (x : ℚ) : |(trunc x : ℚ) - x| ≤ 1 := by
  have h1 := Int.floor_le x
  have h2 := Int.lt_floor_add_one x
  have h3 := Int.le_ceil x
  have h4 := Int.ceil_lt_add_one x
  rw [trunc, abs_le]
  split
  · constructor <;> linarith
  · constructor <;> linarith

/-- A value in units of `b * d`, without the fraction, is at most one unit away. -/
theorem abs_trunc_mul_sub_le {a b d : ℚ} (hab : b * a = 1) (hd : d ≠ 0) (v : ℚ) :
    |trunc (v * a / d) * b * d - v| ≤ |b| * |d| := by
  have hv : v = v * a / d * b * d := by
    calc v = v * (b * a) := by rw [hab, mul_one]
      _ = v * a / d * b * d := by field_simp
  calc |trunc (v * a / d) * b * d - v| = |(trunc (v * a / d) - v * a / d) * (b * d)| := by
        congr 1
        linear_combination -hv
    _ = |(trunc (v * a / d) : ℚ) - v * a / d| * (|b| * |d|) := by rw [abs_mul, abs_mul]
    _ ≤ 1 * (|b| * |d|) :=
        mul_le_mul_of_nonneg_right (abs_trunc_sub_le _) (by positivity)
    _ = |b| * |d| := one_mul _

theorem abs_trunc_mul_div_sub_le {a : ℚ} (ha : 0 < a) (v : ℚ) :
    |trunc (v * a) / a - v| ≤ 1 / a := by
  have h := abs_trunc_mul_sub_le (one_div_mul_cancel ha.ne') one_ne_zero v
  rw [div_one, mul_one, mul_one_div, abs_one, mul_one, abs_of_pos (one_div_pos.mpr ha)] at h
  exact h

theorem toNat_satU32 (x : ℚ) : ((satU32 x).toNat : ℤ) = max 0 (min (2 ^ 32 - 1) (trunc x)) := by
  rw [satU32, BitVec.toNat_ofInt]
  omega

theorem toNat_satU32_of_nonneg {x : ℚ} (h : 0 ≤ x) :
    ((satU32 x).toNat : ℤ) = min (2 ^ 32 - 1) ⌊x⌋ := by
  have hfloor := Int.floor_nonneg.mpr h
  rw [toNat_satU32, trunc_of_nonneg h, max_eq_right (by omega)]

/-- Where C defines the conversion the processor makes that one. -/
theorem satU32_of_toU32 {x : ℚ} {w : BitVec 32} (h : toU32 x = some w) : satU32 x = w := by
  simp only [toU32, Option.ite_none_right_eq_some, Option.some.injEq] at h
  obtain ⟨⟨h0, hlt⟩, rfl⟩ := h
  rw [satU32, min_eq_right (by omega), max_eq_right h0]

theorem satU32_eq_zero_iff (x : ℚ) : satU32 x = 0 ↔ x < 1 := by
  rw [← BitVec.toNat_inj, ← Int.ofNat_inj, toNat_satU32]
  rcases lt_or_ge x 0 with hneg | hnonneg
  · have := trunc_nonpos hneg.le
    refine iff_of_true ?_ (by linarith)
    simp
    omega
  · have hfloor := Int.floor_nonneg.mpr hnonneg
    have hlt : ⌊x⌋ < 1 ↔ x < 1 := by rw [Int.floor_lt, Int.cast_one]
    rw [trunc_of_nonneg hnonneg, ← hlt]
    simp
    omega

/-- Dropping the fraction and taking the absolute value reaches a positive integer exactly when the
value does. -/
theorem le_abs_trunc (n : ℤ) (x : ℚ) : n ≤ |trunc x| ↔ (n : ℚ) ≤ |x| := by
  by_cases h : 0 ≤ x
  · rw [abs_of_nonneg (trunc_nonneg h), abs_of_nonneg h, trunc_of_nonneg h, Int.le_floor]
  · have hle : ⌈x⌉ ≤ 0 := Int.ceil_le.mpr (by push_cast; linarith)
    rw [trunc, if_neg h, abs_of_nonpos hle, abs_of_neg (not_le.mp h)]
    constructor
    · intro hc
      have := Int.ceil_le.mp (show ⌈x⌉ ≤ -n by omega)
      push_cast at this
      linarith
    · intro hc
      have : ⌈x⌉ ≤ -n := Int.ceil_le.mpr (by push_cast; linarith)
      omega

theorem llround_nonneg {x : ℚ} (h : 0 ≤ x) : 0 ≤ llround x := by
  rw [llround, if_pos h]
  exact Int.floor_nonneg.mpr (by linarith)

theorem llround_neg (x : ℚ) : llround (-x) = -llround x := by
  rcases lt_trichotomy x 0 with h | rfl | h
  · rw [llround, if_pos (by linarith), llround, if_neg (not_le.mpr h), neg_neg]
  · norm_num [llround]
  · rw [llround, if_neg (by linarith), llround, if_pos h.le, neg_neg]

theorem abs_llround_sub_le (x : ℚ) : |(llround x : ℚ) - x| ≤ 1 / 2 := by
  have h1 := Int.floor_le (x + 1 / 2)
  have h2 := Int.lt_floor_add_one (x + 1 / 2)
  have h3 := Int.floor_le (-x + 1 / 2)
  have h4 := Int.lt_floor_add_one (-x + 1 / 2)
  rw [llround, abs_le]
  split
  · constructor <;> linarith
  · push_cast
    constructor <;> linarith

end CConv
