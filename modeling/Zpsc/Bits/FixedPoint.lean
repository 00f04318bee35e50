import Mathlib.Algebra.Order.Ring.Abs
import Mathlib.Tactic.Linarith
import Zpsc.Bits.NumericStd

/-!
# Fixed-point products of signed vectors

The full product of two signed vectors, a slice of it, and what a signed vector of `w` bits can
hold.
-/

namespace Bits

/-! ## Products -/

theorem toInt_sresize {w v : ℕ} (x : BitVec w) (h : w ≤ v) : (sresize v x).toInt = x.toInt := by
  rw [sresize, if_pos h]
  exact BitVec.toInt_signExtend_of_le h

theorem abs_toInt_le {w : ℕ} (x : BitVec (w + 1)) : |x.toInt| ≤ 2 ^ w := by
  have hlo := BitVec.le_toInt x
  have hhi := BitVec.toInt_lt (x := x)
  rw [Nat.add_sub_cancel] at hlo hhi
  exact abs_le.mpr ⟨hlo, hhi.le⟩

/-- The product of two numbers fits the sum of their widths. -/
theorem toInt_mul_sresize {w v : ℕ} (x : BitVec (w + 1)) (y : BitVec (v + 1)) :
    (sresize (w + 1 + (v + 1)) x * sresize (w + 1 + (v + 1)) y).toInt = x.toInt * y.toInt := by
  have habs : |x.toInt * y.toInt| ≤ 2 ^ w * 2 ^ v := by
    rw [abs_mul]
    exact mul_le_mul (abs_toInt_le x) (abs_toInt_le y) (abs_nonneg _) (by positivity)
  obtain ⟨hlo, hhi⟩ := abs_le.mp habs
  have hpow : ((2 ^ (w + 1 + (v + 1)) : ℕ) : ℤ) = 4 * (2 ^ w * 2 ^ v) := by
    push_cast
    ring
  have hpos : (0 : ℤ) < 2 ^ w * 2 ^ v := by positivity
  rw [BitVec.toInt_mul, toInt_sresize x (by omega), toInt_sresize y (by omega)]
  refine Int.bmod_eq_of_le ?_ ?_ <;> rw [hpow] <;> omega

/-- A slice of a vector: a division by a power of 2, of which some bits are kept. -/
theorem toInt_slice {n s w : ℕ} (x : BitVec n) (h : s + w ≤ n) :
    (x.extractLsb' s w).toInt = (x.toInt / 2 ^ s).bmod (2 ^ w) := by
  obtain ⟨k, rfl⟩ : ∃ k, n = s + w + k := ⟨n - (s + w), by omega⟩
  have hnat : ((x.toNat >>> s : ℕ) : ℤ) = (x.toNat : ℤ) / 2 ^ s := by
    rw [Nat.shiftRight_eq_div_pow]
    push_cast
    rfl
  rw [BitVec.toInt_extractLsb', hnat, BitVec.toInt_eq_toNat_cond]
  split
  · rfl
  · have hpow : (((2 ^ (s + w + k) : ℕ) : ℤ)) = 2 ^ s * (2 ^ k * (2 ^ w : ℕ)) := by
      push_cast
      ring
    rw [hpow, Int.sub_mul_ediv_left _ _ (by positivity), Int.sub_mul_bmod_self_right]

/-! ## The range of a width -/

/-- The number of a signed vector of `w` bits that is nearest to `z`. -/
def clampS (w : ℕ) (z : ℤ) : ℤ := max (-2 ^ (w - 1)) (min z (2 ^ (w - 1) - 1))

/-! ## Scaling a number that has wrapped

A number `d` that is out of a signed range of `2 * H` numbers by one lap, times `g`, divided by `F`
and rounded down, before and after it wraps. -/

section Wrapped

variable {H F d g q r : ℤ}

/-- A multiple of `m` that is at least 1 and less than `2 * m` is `m`. -/
theorem eq_of_dvd_of_lt {m x : ℤ} (hdvd : m ∣ x) (h1 : 1 ≤ x) (h2 : x < 2 * m) : x = m := by
  obtain ⟨k, rfl⟩ := hdvd
  have hm : 0 < m := by linarith
  have hk0 : 0 < k := (mul_pos_iff_of_pos_left hm).mp (by linarith)
  have hk2 : k < 2 := lt_of_mul_lt_mul_left (by linarith : m * k < m * 2) hm.le
  rw [show k = 1 by omega, mul_one]

/-- A number above the range: the two quotients are laps apart only for the number next to the range
and a factor of 1 or -1. -/
theorem lap_above (hH : 0 < H) (hF : 0 < F) (h1 : H ≤ d) (h2 : d < 2 * H) (hg : g ≠ 0)
    (hq : q = d * g / F) (hr : r = (d - 2 * H) * g / F) (hlo : -H ≤ q) (hhi : q ≤ H)
    (hdvd : 2 * H ∣ q - r) : d = H ∧ (g = F ∧ q = H ∨ g = -F ∧ q = -H) := by
  have hq0 : q * F ≤ d * g := hq ▸ Int.ediv_mul_le _ hF.ne'
  have hq1 : d * g < (q + 1) * F := hq ▸ Int.lt_ediv_add_one_mul_self _ hF
  have hr0 : r * F ≤ (d - 2 * H) * g := hr ▸ Int.ediv_mul_le _ hF.ne'
  have hr1 : (d - 2 * H) * g < (r + 1) * F := hr ▸ Int.lt_ediv_add_one_mul_self _ hF
  rcases lt_or_gt_of_ne hg with hneg | hpos
  · have hY : 0 < (d - 2 * H) * g := mul_pos_of_neg_of_neg (by linarith) hneg
    have hX : d * g < 0 := mul_neg_of_pos_of_neg (by linarith) hneg
    have hq_neg : q < 0 := hq ▸ Int.ediv_neg_of_neg_of_pos hX hF
    have hr_nonneg : 0 ≤ r := hr ▸ Int.ediv_nonneg hY.le hF.le
    have hr_le : r ≤ -q := by
      have hXY : (2 * d - 2 * H) * g ≤ 0 :=
        mul_nonpos_of_nonneg_of_nonpos (by linarith) hneg.le
      exact le_of_mul_le_mul_right (by linarith : r * F ≤ -q * F) hF
    have hlap : r - q = 2 * H :=
      eq_of_dvd_of_lt (by simpa using (dvd_neg.mpr hdvd)) (by linarith) (by linarith)
    have hqH : q = -H := by linarith
    have hrH : r = H := by linarith
    rw [hqH] at hq0
    rw [hrH] at hr0
    -- `H * F` is between the two products
    have hdH : d = H := by
      have hle : d * -g ≤ (2 * H - d) * -g := by linarith
      have hd := le_of_mul_le_mul_right hle (neg_pos.mpr hneg)
      linarith
    rw [hdH] at hq0 hr0
    have hgF : g = -F := mul_left_cancel₀ hH.ne' (by linarith : H * g = H * -F)
    exact ⟨hdH, .inr ⟨hgF, hqH⟩⟩
  · have hY : (d - 2 * H) * g < 0 := mul_neg_of_neg_of_pos (by linarith) hpos
    have hX : 0 < d * g := mul_pos (by linarith) hpos
    have hq_nonneg : 0 ≤ q := hq ▸ Int.ediv_nonneg hX.le hF.le
    have hr_neg : r < 0 := hr ▸ Int.ediv_neg_of_neg_of_pos hY hF
    have hr_ge : -q - 1 ≤ r := by
      have hXY : 0 ≤ (2 * d - 2 * H) * g := mul_nonneg (by linarith) hpos.le
      have hlt := lt_of_mul_lt_mul_right (by linarith : -(q + 1) * F < (r + 1) * F) hF.le
      linarith
    have hlap : q - r = 2 * H := eq_of_dvd_of_lt hdvd (by linarith) (by linarith)
    have hqH : q = H := by linarith
    have hrH : r = -H := by linarith
    rw [hqH] at hq0 hq1
    rw [hrH] at hr0 hr1
    have hdH : d = H := by
      by_contra hne
      have hgt : H + 1 ≤ d := by omega
      have hlt : (H + 1) * g < (H + 1) * F :=
        (mul_le_mul_of_nonneg_right hgt hpos.le).trans_lt hq1
      have hgF : g < F := lt_of_mul_lt_mul_left hlt (by linarith)
      have hge : (2 * H - d) * g ≤ (H - 1) * g :=
        mul_le_mul_of_nonneg_right (by linarith) hpos.le
      have hle : (H - 1) * g ≤ (H - 1) * F := mul_le_mul_of_nonneg_left hgF.le (by omega)
      linarith
    rw [hdH] at hq0 hr0
    have hgF : g = F := mul_left_cancel₀ hH.ne' (by linarith : H * g = H * F)
    exact ⟨hdH, .inl ⟨hgF, hqH⟩⟩

/-- A number below the range: the two quotients are never laps apart. -/
theorem lap_below (hF : 0 < F) (h1 : -(2 * H) < d) (h2 : d < -H) (hg : g ≠ 0)
    (hq : q = d * g / F) (hr : r = (d + 2 * H) * g / F) (hlo : -H ≤ q) (hhi : q ≤ H) :
    ¬ 2 * H ∣ q - r := by
  intro hdvd
  have hq0 : q * F ≤ d * g := hq ▸ Int.ediv_mul_le _ hF.ne'
  have hq1 : d * g < (q + 1) * F := hq ▸ Int.lt_ediv_add_one_mul_self _ hF
  have hr0 : r * F ≤ (d + 2 * H) * g := hr ▸ Int.ediv_mul_le _ hF.ne'
  have hr1 : (d + 2 * H) * g < (r + 1) * F := hr ▸ Int.lt_ediv_add_one_mul_self _ hF
  rcases lt_or_gt_of_ne hg with hneg | hpos
  · have hX : 0 < d * g := mul_pos_of_neg_of_neg (by linarith) hneg
    have hY : (d + 2 * H) * g < 0 := mul_neg_of_pos_of_neg (by linarith) hneg
    have hq_nonneg : 0 ≤ q := hq ▸ Int.ediv_nonneg hX.le hF.le
    have hr_neg : r < 0 := hr ▸ Int.ediv_neg_of_neg_of_pos hY hF
    have hr_ge : -q - 1 ≤ r := by
      have hXY : 0 < (2 * d + 2 * H) * g := mul_pos_of_neg_of_neg (by linarith) hneg
      have hlt := lt_of_mul_lt_mul_right (by linarith : -(q + 1) * F < (r + 1) * F) hF.le
      linarith
    have hlap : q - r = 2 * H := eq_of_dvd_of_lt hdvd (by linarith) (by linarith)
    have hqH : q = H := by linarith
    have hrH : r = -H := by linarith
    rw [hqH] at hq1
    rw [hrH] at hr1
    have hgF : -g < F := by
      have hle : (H + 1) * -g ≤ -d * -g :=
        mul_le_mul_of_nonneg_right (by linarith) (neg_nonneg.mpr hneg.le)
      exact lt_of_mul_lt_mul_left (by linarith : (H + 1) * -g < (H + 1) * F) (by linarith)
    have hge : (d + 2 * H) * -g ≤ (H - 1) * -g :=
      mul_le_mul_of_nonneg_right (by linarith) (neg_nonneg.mpr hneg.le)
    have hle : (H - 1) * -g ≤ (H - 1) * F := mul_le_mul_of_nonneg_left hgF.le (by omega)
    linarith
  · have hX : d * g < 0 := mul_neg_of_neg_of_pos (by linarith) hpos
    have hY : 0 < (d + 2 * H) * g := mul_pos (by linarith) hpos
    have hq_neg : q < 0 := hq ▸ Int.ediv_neg_of_neg_of_pos hX hF
    have hr_nonneg : 0 ≤ r := hr ▸ Int.ediv_nonneg hY.le hF.le
    have hr_lt : r < -q := by
      have hXY : (2 * d + 2 * H) * g < 0 := mul_neg_of_neg_of_pos (by linarith) hpos
      exact lt_of_mul_lt_mul_right (by linarith : r * F < -q * F) hF.le
    have hlap : r - q = 2 * H :=
      eq_of_dvd_of_lt (by simpa using (dvd_neg.mpr hdvd)) (by linarith) (by linarith)
    linarith

end Wrapped

end Bits
