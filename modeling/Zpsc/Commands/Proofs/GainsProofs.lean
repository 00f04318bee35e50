import Zpsc.Commands.Gains
import Zpsc.Commands.Proofs.ConfinedProofs
import Zpsc.Dac.Proofs.CalibrationProofs

/-!
# When a gain message means what it says

`GAIN20BITFRACT` is one less than a unit of the gain, so a positive gain comes out one step too low
unless truncation would have dropped more; a negative gain does not survive the conversion to `u32`.
A gain of 1 takes one code from every positive setpoint.
-/

namespace Zpsc.Commands

open CConv Effects

/-! ## The handler -/

/-- Where the processor's product is exact, the handler does what `gain_settings` says. -/
theorem gain_settings_of_chan_settings {φ F : Type} [FlashChip φ] [Fpu F] (stack : Stack) (c : Chan)
    {msg : PscMsg.Buf} (len : BitVec 32) (s : Psc φ) {m : GainMsg} {g : ℚ}
    (hm : ChanMsg.ofAddr (msgWord msg 0).toNat = .gain m)
    (hw : toU32 (g * GAIN20BITFRACT) =
      some (Fpu.toU32 (Fpu.single (msgWord msg 1) * Fpu.lit GAIN20BITFRACT : F))) :
    gain_settings s.regs.regFile c m g =
      some ((chan_settings F stack c.u32 msg len : Sw φ Unit).final s).regs.regFile := by
  have hset : (chan_settings F stack c.u32 msg len : Sw φ Unit) =
      Xil_Out32 (chanReg c.u32 m.reg.offset)
        (Fpu.toU32 (Fpu.single (msgWord msg 1) * Fpu.lit GAIN20BITFRACT : F)) := by
    simp only [chan_settings, hm]
    rfl
  rw [hset, chanReg_eq_chanAddr, gain_settings, hw]
  exact congrArg some (Bus.regFile_out32 _ _ _).symm

/-! ## The register -/

theorem appliedGain_out32 (rf : RegFile) (c : Chan) (m : GainMsg) (w : BitVec 32) :
    appliedGain (rf.out32 (chanAddr c m.reg) w) c m = w.extractLsb' 0 24 := by
  unfold appliedGain
  rw [RegFile.out32_chan, if_pos ⟨rfl, rfl⟩]
  have hw : m.reg.width = 32 := by cases m <;> rfl
  rw [hw, BitVec.setWidth_eq]

theorem toInt_low24 {n : ℤ} (h0 : 0 ≤ n) (h1 : n < 2 ^ 23) :
    ((BitVec.ofInt 32 n).extractLsb' 0 24).toInt = n := by
  have hn : (BitVec.ofInt 32 n).toNat = n.toNat := by
    rw [BitVec.toNat_ofInt]
    omega
  rw [BitVec.toInt_eq_toNat_cond, BitVec.extractLsb'_toNat, hn, Nat.shiftRight_zero]
  omega

/-- The message succeeds if the product is not negative, and then the product is applied. -/
theorem gainMeans_iff_trunc (rf : RegFile) (c : Chan) (m : GainMsg) {g : ℚ}
    (hg : trunc (g * GAIN20BITFRACT) < 2 ^ 23) :
    GainMeans rf c m g ↔
      0 ≤ trunc (g * GAIN20BITFRACT) ∧ trunc (g * GAIN20BITFRACT) = trunc (g * 2 ^ 20) := by
  unfold GainMeans gain_settings toU32
  by_cases h0 : 0 ≤ trunc (g * GAIN20BITFRACT)
  · rw [if_pos ⟨h0, by omega⟩]
    constructor
    · rintro ⟨rf', hrf, hap⟩
      obtain rfl := Option.some.inj hrf
      rw [appliedGain_out32, toInt_low24 h0 hg] at hap
      exact ⟨h0, hap⟩
    · rintro ⟨-, heq⟩
      refine ⟨_, rfl, ?_⟩
      rw [appliedGain_out32, toInt_low24 h0 hg, heq]
  · rw [if_neg fun h => h0 h.1]
    constructor
    · rintro ⟨rf', hrf, -⟩
      exact absurd hrf (by simp)
    · rintro ⟨h, -⟩
      exact absurd h h0

/-! ## The arithmetic -/

theorem trunc_lt_of_lt {x : ℚ} {n : ℤ} (hn : 0 < n) (h : x < n) : trunc x < n := by
  unfold trunc
  split
  · exact Int.floor_lt.mpr h
  · rename_i hx
    have : ⌈x⌉ ≤ 0 := Int.ceil_le.mpr (by push_cast; linarith)
    omega

/-- Subtracting a non-negative number keeps the floor when the fraction covers it. -/
theorem floor_sub_eq_iff {y g : ℚ} (hg : 0 ≤ g) : ⌊y - g⌋ = ⌊y⌋ ↔ g ≤ Int.fract y := by
  have hlt := Int.lt_floor_add_one y
  rw [Int.floor_eq_iff, Int.fract]
  constructor
  · rintro ⟨h, -⟩
    linarith
  · intro h
    exact ⟨by linarith, by linarith⟩

theorem trunc_neg {x : ℚ} (h : x < 0) : trunc x = ⌈x⌉ := if_neg (not_le.mpr h)

theorem trunc_nonneg_iff_of_neg {x : ℚ} (h : x < 0) : 0 ≤ trunc x ↔ -1 < x := by
  rw [trunc_neg h]
  constructor
  · intro hc
    by_contra hle
    have : ⌈x⌉ ≤ -1 := Int.ceil_le.mpr (by push_cast; linarith)
    omega
  · intro hlt
    have : (-1 : ℤ) < ⌈x⌉ := Int.lt_ceil.mpr (by push_cast; linarith)
    omega

theorem gainMeans_iff (rf : RegFile) (c : Chan) (m : GainMsg) {g : ℚ} (hg : g ≤ 8 - 1 / 2 ^ 20) :
    GainMeans rf c m g ↔ GainFits g := by
  have hsub : g * GAIN20BITFRACT = g * 2 ^ 20 - g := by
    rw [GAIN20BITFRACT]
    ring
  have hlt : trunc (g * GAIN20BITFRACT) < 2 ^ 23 := by
    refine trunc_lt_of_lt (by norm_num) ?_
    rw [GAIN20BITFRACT]
    push_cast
    linarith
  rw [gainMeans_iff_trunc rf c m hlt, hsub, GainFits]
  split
  · rename_i h0
    have hx : 0 ≤ g * 2 ^ 20 - g := by linarith
    rw [trunc_of_nonneg hx, trunc_of_nonneg (show 0 ≤ g * 2 ^ 20 by linarith), floor_sub_eq_iff h0]
    exact and_iff_right (Int.floor_nonneg.mpr hx)
  · rename_i h0
    have hy : g * 2 ^ 20 < 0 := by linarith
    have hx : g * 2 ^ 20 - g < 0 := by linarith
    constructor
    · rintro ⟨h, heq⟩
      rw [heq] at h
      exact (trunc_nonneg_iff_of_neg hy).mp h
    · intro h
      have h1 := (trunc_nonneg_iff_of_neg hy).mpr h
      have h2 := (trunc_nonneg_iff_of_neg hx).mpr (by linarith)
      have h3 : ⌈g * 2 ^ 20⌉ ≤ 0 := Int.ceil_le.mpr (by push_cast; linarith)
      have h4 : ⌈g * 2 ^ 20 - g⌉ ≤ 0 := Int.ceil_le.mpr (by push_cast; linarith)
      rw [trunc_neg hy] at h1 ⊢
      rw [trunc_neg hx] at h2 ⊢
      exact ⟨h2, by omega⟩

/-! ## The DAC with a gain of 1 -/

/-- The gain that the message 1.0 sets. -/
def UNITY : BitVec 24 := 1048575

theorem toInt_unity : UNITY.toInt = 1048575 := by decide

/-- The scaled setpoint: a positive one loses a code. -/
theorem toInt_scaled_unity (raw : BitVec 20) :
    ((Bits.sresize 44 raw * Bits.sresize 44 UNITY).extractLsb' 20 20).toInt =
      if raw.toInt ≤ 0 then raw.toInt else raw.toInt - 1 := by
  have hlo := BitVec.le_toInt raw
  have hhi := BitVec.toInt_lt (x := raw)
  norm_num at hlo hhi
  rw [GainOffset.toInt_extract_scale, GainOffset.toInt_product, toInt_unity,
    Int.bmod_eq_of_le (by norm_num; omega) (by norm_num; omega)]
  split <;> omega

theorem calibrate_unity (n : Bool) {d : DacCntrl} (hgain : d.gain = UNITY) (hoff : d.offset = 0)
    {raw : BitVec 20} (hraw : InConverterRange n raw) :
    GainOffset.calibrate n d raw = raw ↔ raw.toInt ≤ 0 := by
  have hs := toInt_scaled_unity raw
  -- The result has the sign of the setpoint and is in the range, so it is not limited.
  have hcal : GainOffset.calibrate n d raw =
      (Bits.sresize 44 raw * Bits.sresize 44 UNITY).extractLsb' 20 20 := by
    simp only [GainOffset.calibrate, hgain, hoff, BitVec.ofNat_eq_ofNat, BitVec.sub_zero]
    rw [GainOffset.saturate_of_fits]
    generalize (Bits.sresize 44 raw * Bits.sresize 44 UNITY).extractLsb' 20 20 = x at hs
    cases n with
    | true =>
      simp only [if_true, BitVec.msb_eq_toInt, decide_eq_decide]
      split at hs <;> omega
    | false =>
      obtain ⟨hlo, hhi⟩ := hraw rfl
      simp only [Bool.false_eq_true, if_false]
      split at hs <;> omega
  rw [hcal, ← BitVec.toInt_inj, hs]
  split <;> omega

theorem gain_settings_one (rf : RegFile) (c : Chan) :
    gain_settings rf c .DAC_SETPT_GAIN_MSG 1 =
      some (rf.out32 (chanAddr c .dac_setpt_gain) 1048575) := by
  have h : toU32 (1 * GAIN20BITFRACT) = some 1048575 := by
    have ht : trunc (1 * GAIN20BITFRACT) = 1048575 := by
      rw [trunc_of_nonneg (by norm_num [GAIN20BITFRACT]), GAIN20BITFRACT, one_mul]
      exact Int.floor_intCast 1048575
    rw [toU32, ht]
    rfl
  rw [gain_settings, h]
  rfl

/-- The gain messages, and the DAC with a gain of 1 and no offset. -/
theorem gain_messages_iff (rf : RegFile) (c : Chan) :
    (∀ (m : GainMsg) (g : ℚ), -8 ≤ g → g ≤ 8 - 1 / 2 ^ 20 → (GainMeans rf c m g ↔ GainFits g)) ∧
    ∃ rf', gain_settings rf c .DAC_SETPT_GAIN_MSG 1 = some rf' ∧
      (rf.chan c .dac_setpt_offset = 0 → ∀ (s : PsIo.SetpointRegs) (i : PsIo.In), i.regs = rf' →
        ∀ (n : Bool) (raw : BitVec 20), InConverterRange n raw →
          (GainOffset.calibrate n (PsIo.dacCntrl s i c) raw = raw ↔ raw.toInt ≤ 0)) := by
  refine ⟨fun m g _ hg => gainMeans_iff rf c m hg, ?_⟩
  refine ⟨_, gain_settings_one rf c, fun hoff s i hi n raw hraw => calibrate_unity n ?_ ?_ hraw⟩
  · have h := appliedGain_out32 rf c .DAC_SETPT_GAIN_MSG 1048575
    simp only [PsIo.dacCntrl, hi]
    exact h
  · simp only [PsIo.dacCntrl, hi]
    rw [RegFile.out32_chan, if_neg (by simp), hoff]
    rfl

/-- A gain of `2^-21`, and a setpoint of -5. -/
theorem gain_messages_iff_small :
    GainMeans RegFile.zeros .ps1 .VOLT_GAIN_MSG (1 / 2 ^ 21) ∧
      ∃ rf', gain_settings RegFile.zeros .ps1 .DAC_SETPT_GAIN_MSG 1 = some rf' ∧
        GainOffset.calibrate true
          (PsIo.dacCntrl ⟨fun _ => 0, fun _ => false⟩
            ⟨rf', fun _ => false, fun _ => false, false⟩ .ps1) (-5) = -5 := by
  refine ⟨?_, ?_⟩
  · refine ((gain_messages_iff _ _).1 _ _ (by norm_num) (by norm_num)).mpr ?_
    rw [GainFits, if_pos (by norm_num), Int.fract]
    have : ⌊(1 / 2 ^ 21 * 2 ^ 20 : ℚ)⌋ = 0 := Int.floor_eq_zero_iff.mpr (by norm_num)
    rw [this]
    norm_num
  · obtain ⟨rf', h1, h2⟩ := (gain_messages_iff RegFile.zeros .ps1).2
    exact ⟨rf', h1, (h2 rfl _ _ rfl true (-5) (by simp [InConverterRange])).mpr (by decide)⟩

/-- A gain of 1 sets 1048575 units, not 1048576. -/
theorem gain_one_short : ¬ GainMeans RegFile.zeros .ps1 .DAC_SETPT_GAIN_MSG 1 := by
  rw [gainMeans_iff _ _ _ (by norm_num), GainFits, if_pos (by norm_num)]
  exact not_le.mpr (Int.fract_lt_one _)

end Zpsc.Commands
