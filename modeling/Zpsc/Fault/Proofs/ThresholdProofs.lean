import Zpsc.Fault.Threshold
import Mathlib.Algebra.Order.Group.Int
import Mathlib.Tactic.Positivity

/-!
# When the analog checks compare absolute values

`abs` of `numeric_std` is the absolute value but for the most negative vector, which stays negative
(`toInt_sabs_eq`). A reading at negative full scale is therefore below every other threshold, and
every other reading is above a threshold at negative full scale.
-/

namespace Bits

theorem toInt_sabs_eq {w : ℕ} (x : BitVec w) :
    (sabs x).toInt = if x = BitVec.intMin w then (BitVec.intMin w).toInt else |x.toInt| := by
  rw [Int.abs_eq_natAbs]
  exact BitVec.toInt_abs_eq_natAbs

/-- No other vector has the absolute value of the most negative one. -/
theorem abs_toInt_lt {w : ℕ} (hw : 0 < w) {x : BitVec w} (hx : x ≠ BitVec.intMin w) :
    |x.toInt| < 2 ^ (w - 1) := by
  have hne : x.toInt ≠ -2 ^ (w - 1) := by
    intro h
    exact hx (BitVec.eq_of_toInt_eq (h.trans (BitVec.toInt_intMin_of_pos hw).symm))
  have hle := BitVec.le_toInt x
  have hlt := BitVec.toInt_lt (x := x)
  rw [abs_lt]
  omega

end Bits

namespace Zpsc.FaultBlock

open Bits

theorem overThresh_iff {w : ℕ} (x t : BitVec w) :
    overThresh x t = true ↔ (sabs t).toInt ≤ (sabs x).toInt := by
  rw [overThresh, sge, BitVec.sle, decide_eq_true_iff]

/-- The test compares the absolute values exactly when the reading and the threshold are both at
negative full scale or neither is. -/
theorem overThresh_eq_iff {w : ℕ} (hw : 0 < w) (x t : BitVec w) :
    overThresh x t = decide (|t.toInt| ≤ |x.toInt|) ↔
      (x = BitVec.intMin w ↔ t = BitVec.intMin w) := by
  have hpos : (0 : ℤ) < 2 ^ (w - 1) := by positivity
  have hx0 := abs_nonneg x.toInt
  have ht0 := abs_nonneg t.toInt
  rw [Bool.eq_iff_iff, overThresh_iff, decide_eq_true_iff, toInt_sabs_eq, toInt_sabs_eq,
    BitVec.toInt_intMin_of_pos hw]
  by_cases hx : x = BitVec.intMin w
  · by_cases ht : t = BitVec.intMin w
    · simp [hx, ht]
    · have hlt := abs_toInt_lt hw ht
      rw [if_pos hx, if_neg ht, hx, BitVec.toInt_intMin_of_pos hw, abs_neg, abs_of_pos hpos]
      exact iff_of_false (by omega) fun h => ht (h.mp rfl)
  · by_cases ht : t = BitVec.intMin w
    · have hlt := abs_toInt_lt hw hx
      rw [if_neg hx, if_pos ht, ht, BitVec.toInt_intMin_of_pos hw, abs_neg, abs_of_pos hpos]
      exact iff_of_false (by omega) fun h => hx (h.mpr rfl)
    · simp [hx, ht]

namespace AnalogBit

theorem width_pos (a : AnalogBit) : 0 < a.width := by
  cases a <;> decide

theorem cond_bit (s : Block) (i : In) (a : AnalogBit) :
    cond s i a.bit = (a.made s i && overThresh (a.reading i) (a.thresh i)) := by
  cases a <;> rfl

/-- An analog check that is made compares the absolute values exactly when the reading and the
threshold are both at negative full scale or neither is. -/
theorem exact_iff (s : Block) (i : In) (a : AnalogBit) :
    a.Exact s i ↔
      (a.made s i = true →
        (a.reading i = BitVec.intMin a.width ↔ a.thresh i = BitVec.intMin a.width)) := by
  rw [← overThresh_eq_iff a.width_pos, Exact, cond_bit]
  cases a.made s i <;> simp

/-- All registers clear, at an evaluation of the checks. -/
def evaluating : Block where
  dff0 := false
  dff1 := false
  ten_khz_pulse := true
  re := false
  re_reg := false
  clear_pulse := false
  dac_setpoint_reg_new := 0
  dac_setpoint_reg_old := 0
  dac_change_flag := false
  digcntrl_on1_last := false
  startup_state := false
  run_state := false
  cnt := fun _ => 0
  fault_reg := 0
  fault_live := 0
  fault_reg_lat := 0
  fault_reg_lat_mask := 0
  error_reg_mask := 0

/-- The inputs of a channel whose first DCCT reads `x` against the limit `t`. -/
def dcctIn (x t : BitVec 20) : In where
  reset := false
  tenkhz_trig := false
  dig_cntrl := ⟨false, false, false, false, false, false, false⟩
  fault_params :=
    { clear := false, enable := 0, ovc1_thresh := t, ovc2_thresh := 0, ovv_thresh := 0
      err1_thresh := 0, err2_thresh := 0, ignd_thresh := 0, ovc1_cntlim := 0, ovc2_cntlim := 0
      ovv_cntlim := 0, err1_cntlim := 0, err2_cntlim := 0, ignd_cntlim := 0, dcct_cntlim := 0
      flt1_cntlim := 0, flt2_cntlim := 0, flt3_cntlim := 0, on_cntlim := 0 }
  dcct_adcs := ⟨x, 0⟩
  mon_adcs := ⟨0, 0, 0⟩
  rsts := 0
  dcct_fault := false
  ac_on_out := false
  park := false
  dac_setpoint := 0
  evr_flt_in := false

/-- A DCCT at negative full scale does not exceed a limit of 1000. -/
theorem fullScale_not_exact : ¬ ovc1.Exact evaluating (dcctIn 0x80000 1000) := by
  rw [Exact]
  decide

end AnalogBit

end Zpsc.FaultBlock
