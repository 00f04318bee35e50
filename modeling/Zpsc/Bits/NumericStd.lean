import Mathlib.Tactic.Common
import Mathlib.Tactic.Ring

/-!
# Vectors of `numeric_std`

The operations of `ieee.numeric_std` that have no counterpart on `BitVec`, and the assembly of a
vector whose bits are assigned one by one.
-/

namespace Bits

/-- The vector whose bit `j` is `f j`. -/
def ofBits : (w : ℕ) → (ℕ → Bool) → BitVec w
  | 0, _ => 0#0
  | w + 1, f => BitVec.cons (f w) (ofBits w f)

@[simp] theorem getLsbD_ofBits (w : ℕ) (f : ℕ → Bool) (j : ℕ) :
    (ofBits w f).getLsbD j = (decide (j < w) && f j) := by
  induction w with
  | zero => simp [ofBits]
  | succ w ih =>
    rw [ofBits, BitVec.getLsbD_cons, ih]
    by_cases h : j = w
    · simp [h]
    · by_cases h' : j < w
      · simp [h, h', show j < w + 1 by omega]
      · simp [h, h', show ¬ j < w + 1 by omega]

@[simp] theorem getElem_ofBits {w : ℕ} (f : ℕ → Bool) {j : ℕ} (h : j < w) :
    (ofBits w f)[j] = f j := by
  rw [← BitVec.getLsbD_eq_getElem, getLsbD_ofBits]
  simp [h]

theorem getLsbD_31 (x : BitVec 32) : x.getLsbD 31 = decide (2 ^ 31 ≤ x.toNat) := by
  rw [← BitVec.msb_eq_getLsbD_last, BitVec.msb_eq_decide]

/-- `abs` of a `signed`: the most negative value is its own absolute value. -/
def sabs {w : ℕ} (x : BitVec w) : BitVec w := if x.msb then -x else x

/-- `x >= y` on `signed`. -/
def sge {w : ℕ} (x y : BitVec w) : Bool := y.sle x

/-- `resize` of a `signed`: sign extension, or, to a smaller width, the sign bit and the low
bits. -/
def sresize {w : ℕ} (w' : ℕ) (x : BitVec w) : BitVec w' :=
  if w ≤ w' then x.signExtend w'
  else ofBits w' fun j => if j + 1 = w' then x.msb else x.getLsbD j

theorem ofBits_getLsbD {w : ℕ} (x : BitVec w) (w' : ℕ) : ofBits w' x.getLsbD = x.setWidth w' := by
  apply BitVec.eq_of_getLsbD_eq
  intro j hj
  simp [hj]

theorem ofBits_congr {w : ℕ} {f g : ℕ → Bool} (h : ∀ j, j < w → f j = g j) :
    ofBits w f = ofBits w g := by
  apply BitVec.eq_of_getLsbD_eq
  intro j hj
  simp [hj, h j hj]

theorem sresize_narrow {w w' : ℕ} (h : w' + 1 < w) (x : BitVec w) :
    sresize (w' + 1) x = BitVec.cons x.msb (x.setWidth w') := by
  rw [sresize, if_neg (by omega), ofBits, if_pos rfl, ← ofBits_getLsbD]
  congr 1
  exact ofBits_congr fun j hj => if_neg (by omega)

/-- `resize` to a smaller width keeps the low bits and the sign. -/
theorem toInt_sresize_narrow {w w' : ℕ} (h : w' + 1 < w) (x : BitVec w) :
    (sresize (w' + 1) x).toInt = x.toInt % 2 ^ w' - if x.toInt < 0 then 2 ^ w' else 0 := by
  have hmod : x.toInt % 2 ^ w' = (x.toNat % 2 ^ w' : ℕ) := by
    have hdvd : ((2 : ℤ) ^ w') ∣ ((2 ^ w : ℕ) : ℤ) := by
      push_cast
      exact pow_dvd_pow 2 (by omega)
    rw [BitVec.toInt_eq_toNat_bmod, ← Int.emod_emod_of_dvd _ hdvd, Int.bmod_emod,
      Int.emod_emod_of_dvd _ hdvd]
    push_cast
    rfl
  have hneg : x.toInt < 0 ↔ x.msb = true := by
    rw [BitVec.toInt_neg_iff, BitVec.msb_eq_true_iff_two_mul_ge]
  rw [sresize_narrow h, BitVec.toInt_eq_msb_cond, BitVec.msb_cons, BitVec.toNat_cons', hmod,
    BitVec.toNat_setWidth, Nat.shiftLeft_eq]
  by_cases hm : x.msb = true
  · rw [if_pos hm, if_pos (hneg.mpr hm), hm, Bool.toNat_true]
    push_cast
    ring
  · rw [if_neg hm, if_neg (mt hneg.mp hm), Bool.eq_false_iff.mpr hm]
    simp

/-- A vector has a set bit: the reduction operator `or`. -/
def orReduce {w : ℕ} (x : BitVec w) : Bool := x != 0#w

theorem orReduce_of_getLsbD {w : ℕ} {x : BitVec w} {j : ℕ} (h : x.getLsbD j = true) :
    orReduce x = true := by
  rw [orReduce, bne_iff_ne]
  rintro rfl
  simp at h

end Bits
