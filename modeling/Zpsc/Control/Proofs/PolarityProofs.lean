import Zpsc.Control.Proofs.SetDacProofs

/-!
# Polarity in `Set_dac` and in the FPGA

Whatever the mode, a call of `Set_dac` writes one value to the setpoint register, `newSetpt`
(`callOk_at`). `Set_dac` shifts the polarity register by the number of the channel, which starts at
1, while the FPGA counts its bits from 0, so the two agree only where neighbouring bits do.
-/

namespace Zpsc.Control

open CConv Clocked

variable {e : Env} {c : Chan} {amps : ℚ}

/-! ## A call of `Set_dac` -/

/-- The writes to the setpoint register have the value `new`. -/
def SetptWrites (new : ℤ) (ws : List (ChanReg × BitVec 32)) : Prop :=
  ∀ v, (ChanReg.dac_setpt, v) ∈ ws → v = BitVec.ofInt 32 new

theorem setptWrites_linear {s : SmoothEnv} {cur new : ℤ} {ws : List (ChanReg × BitVec 32)}
    (h : Calc_WriteLinearSmooth s cur new = some ws) : SetptWrites new ws := by
  simp only [Calc_WriteLinearSmooth, Option.bind_eq_bind, Option.bind_eq_some_iff, Option.pure_def,
    Option.some.injEq] at h
  obtain ⟨r, -, dy, -, dypp, -, rfl⟩ := h
  intro v hv
  simpa [smoothWrites] using hv

theorem setptWrites_cosine {s : SmoothEnv} {cur new : ℤ} {ws : List (ChanReg × BitVec 32)}
    (h : Calc_WriteRaisedCosineSmooth s cur new = some ws) : SetptWrites new ws := by
  simp only [Calc_WriteRaisedCosineSmooth, Option.bind_eq_bind, Option.bind_eq_some_iff,
    Option.pure_def, Option.ite_none_left_eq_some, Option.some.injEq] at h
  obtain ⟨d, -, n, -, -, rfl⟩ := h
  intro v hv
  simpa using hv

theorem setptWrites_calcSmooth {m : BitVec 32} {cur new : ℤ} {ws : List (ChanReg × BitVec 32)}
    (h : calcSmooth e c m cur new = some ws) : SetptWrites new ws := by
  unfold calcSmooth at h
  split at h
  · exact setptWrites_cosine h
  · exact setptWrites_linear h

/-- What a call of `Set_dac` is about to do, with `p` in the polarity register. -/
def StageOk (e : Env) (p : BitVec 8) (c : Chan) (amps : ℚ) : Stage → Prop
  | .idle | .undefined => True
  | .mode c' a | .polarity c' a _ => c' = c ∧ a = amps
  | .cur c' new | .dipole c' new _ => c' = c ∧ newSetpt e c (p.setWidth 32) amps = some new
  | .writes c' ws =>
    c' = c ∧ ∃ new, newSetpt e c (p.setWidth 32) amps = some new ∧ SetptWrites new ws

theorem access_stageOk {p : BitVec 8} {st : Stage} {rf : RegFile} (cur : Chan → BitVec 20)
    (hp : rf.glob .polarity = p) (h : StageOk e p c amps st) :
    StageOk e p c amps (access e rf cur st).1 := by
  cases st with
  | idle => trivial
  | mode c' a => exact h
  | polarity c' a m =>
    obtain ⟨rfl, rfl⟩ := h
    simp only [access, hp]
    split
    · trivial
    · next new hnew =>
      split_ifs
      · exact ⟨rfl, hnew⟩
      · refine ⟨rfl, new, hnew, ?_⟩
        intro v hv
        simpa using hv
      · trivial
  | cur c' new => exact h
  | dipole c' new cur' =>
    obtain ⟨rfl, hnew⟩ := h
    simp only [access]
    split
    · trivial
    · next ws hws => exact ⟨rfl, new, hnew, setptWrites_calcSmooth hws⟩
  | writes c' ws =>
    cases ws with
    | nil => trivial
    | cons x ws =>
      obtain ⟨rfl, new, hnew, hws⟩ := h
      exact ⟨rfl, new, hnew, fun v hv => hws v (List.mem_cons_of_mem x hv)⟩
  | undefined => trivial

theorem access_glob (rf : RegFile) (cur : Chan → BitVec 20) (st : Stage) (g : GlobReg) :
    (access e rf cur st).2.glob g = rf.glob g := by
  cases st with
  | writes c' ws =>
    cases ws with
    | nil => rfl
    | cons x ws => exact RegFile.out32_glob rf c' x.1 x.2 g
  | polarity c' a m =>
    simp only [access]
    split
    · rfl
    · split_ifs <;> rfl
  | dipole c' new cur' =>
    simp only [access]
    split <;> rfl
  | idle => rfl
  | mode c' a => rfl
  | cur c' new => rfl
  | undefined => rfl

theorem callOk_at (e : Env) (c : Chan) (amps : ℚ) (rf : RegFile) (cur : ℕ → Chan → BitVec 20)
    (n : ℕ) :
    StageOk e (rf.glob .polarity) c amps (setDacCall e rf c amps cur n).1 ∧
      (setDacCall e rf c amps cur n).2.glob .polarity = rf.glob .polarity := by
  induction n with
  | zero => exact ⟨⟨rfl, rfl⟩, rfl⟩
  | succ n ih => exact ⟨access_stageOk (cur n) ih.2 ih.1, (access_glob _ _ _ _).trans ih.2⟩

theorem newSetpt_of_writesSetpt {rf : RegFile} {v : BitVec 32} (h : WritesSetpt e rf c amps v) :
    ∃ new, newSetpt e c ((rf.glob .polarity).setWidth 32) amps = some new ∧
      v = BitVec.ofInt 32 new := by
  obtain ⟨cur, n, ws, hst⟩ := h
  have hok := (callOk_at e c amps rf cur n).1
  rw [hst] at hok
  obtain ⟨-, new, hnew, hws⟩ := hok
  exact ⟨new, hnew, hws v (List.mem_cons_self ..)⟩

/-- In jump mode the setpoint is the third access. -/
theorem writesSetpt_jump (rf : RegFile) {new : ℤ} (hmode : rf.chan c .dac_opmode = 3#2)
    (hnew : newSetpt e c ((rf.glob .polarity).setWidth 32) amps = some new) :
    WritesSetpt e rf c amps (BitVec.ofInt 32 new) := by
  refine ⟨fun _ _ => 0, 2, [], ?_⟩
  show (access e rf (fun _ => 0) (.polarity c amps ((rf.chan c .dac_opmode).setWidth 32))).1 = _
  simp only [access, hnew, hmode]
  rfl

/-! ## The two bits -/

theorem trunc_neg_iff (x : ℚ) : trunc x < 0 ↔ x ≤ -1 := by
  rw [trunc]
  split
  · next h =>
    have := Int.floor_nonneg.mpr h
    constructor
    · intro hlt
      omega
    · intro hle
      linarith
  · rw [show (⌈x⌉ < 0 ↔ ⌈x⌉ ≤ -1) by omega, Int.ceil_le]
    norm_num

theorem request_neg_iff (hbits : DacBits e) (hd : (e.scalefactors c).dac_dccts ≠ 0) (amps : ℚ) :
    request e c amps < 0 ↔ NegativeRequest e c amps := by
  have hconv : 10000 ≤ e.CONVVOLTSTODACBITS := by
    rcases hbits with hb | hb <;> rw [hb] <;> norm_num [CONVVOLTSTO18BITS, CONVVOLTSTO20BITS]
  rw [request, trunc_neg_iff, NegativeRequest]
  simp only [limitedAmps]
  set d := (e.scalefactors c).dac_dccts
  rcases lt_or_gt_of_ne hd with hneg | hpos
  · rw [div_le_iff_of_neg hneg, if_neg (show ¬ 0 < d by linarith)]
    by_cases h1 : 99999 / 10000 * d < amps
    · rw [if_pos h1]
      refine ⟨?_, ?_⟩
      · intro h
        nlinarith
      · intro h
        linarith
    · rw [if_neg h1, if_pos (show amps < -10 * d by linarith)]
      refine ⟨fun _ => not_lt.mp h1, ?_⟩
      intro _
      nlinarith
  · rw [div_le_iff₀ hpos, if_pos hpos]
    by_cases h1 : 99999 / 10000 * d < amps
    · rw [if_pos h1]
      refine ⟨?_, ?_⟩
      · intro h
        nlinarith
      · intro h
        nlinarith
    · rw [if_neg h1]
      by_cases h2 : amps < -10 * d
      · rw [if_pos h2]
        refine ⟨?_, ?_⟩
        · intro _
          nlinarith
        · intro _
          nlinarith
      · rw [if_neg h2, neg_one_mul]

theorem toInt_setpt {new : ℤ} (h : -2 ^ 19 ≤ new ∧ new < 2 ^ 19) :
    ((BitVec.ofInt 32 new).setWidth 20).toInt = new := by
  have : (BitVec.ofInt 32 new).setWidth 20 = BitVec.ofInt 20 new := by
    apply BitVec.eq_of_toNat_eq
    simp only [BitVec.toNat_setWidth, BitVec.toNat_ofInt]
    omega
  rw [this, BitVec.toInt_ofInt, Int.bmod_eq_of_le] <;> omega

/-- Software and FPGA agree on the polarity of a request exactly when it is not negative, or the two
bits that they read are equal. -/
theorem polarityAgrees_iff (hbits : DacBits e) (hd : (e.scalefactors c).dac_dccts ≠ 0)
    (p : BitVec 8) (amps : ℚ) :
    PolarityAgrees e p c amps ↔
      ¬ NegativeRequest e c amps ∨ p.getLsbD c.num = p.getLsbD (PsIo.polarityBit c) := by
  have hrange := request_range hbits hd amps
  have hsoft : (p.setWidth 32).getLsbD c.num = p.getLsbD c.num := by
    cases c <;> simp [Chan.num]
  rw [← request_neg_iff hbits hd]
  constructor
  · intro h
    by_contra hno
    push Not at hno
    obtain ⟨hlt, hne⟩ := hno
    -- jump mode shows the disagreement
    set rf : RegFile :=
      { glob := fun g => if hg : g = .polarity then hg ▸ p else 0
        chan := fun _ r => if hr : r = .dac_opmode then hr ▸ 3#2 else 0 } with hrf
    have hp : rf.glob .polarity = p := rfl
    have hnew := newSetpt_eq hbits hd (p.setWidth 32) amps
    obtain ⟨h1, h2⟩ := h rf hp _ (writesSetpt_jump rf rfl hnew)
    have hpol : (PsIo.digCntrl rf c).polarity = p.getLsbD (PsIo.polarityBit c) := rfl
    rw [hpol] at h1 h2
    rw [hsoft] at h1 h2
    cases hb : p.getLsbD (PsIo.polarityBit c)
    · rw [hb, Bool.ne_false_iff] at hne
      have := h2 hb
      rw [if_pos ⟨hne, hlt⟩, toInt_setpt (by norm_num)] at this
      omega
    · rw [hb, ne_eq, Bool.not_eq_true] at hne
      have := h1 hb
      rw [if_neg (by simp [hne]), toInt_setpt hrange] at this
      omega
  · intro h rf hp v hv
    obtain ⟨new, hnew, rfl⟩ := newSetpt_of_writesSetpt hv
    have hp32 : (rf.glob .polarity).setWidth 32 = p.setWidth 32 := congrArg (BitVec.setWidth 32) hp
    rw [hp32, newSetpt_eq hbits hd, Option.some.injEq, hsoft] at hnew
    have hpol : (PsIo.digCntrl rf c).polarity = p.getLsbD (PsIo.polarityBit c) := by
      rw [← hp]
      rfl
    rw [hpol, ← hnew]
    constructor
    · intro hb
      split_ifs with hneg
      · rw [toInt_setpt (by norm_num)]
      · rw [toInt_setpt hrange]
        rcases h with h | h
        · exact not_lt.mp h
        · rw [hb] at h
          exact not_lt.mp fun hlt => hneg ⟨h, hlt⟩
    · intro hb
      split_ifs with hneg
      · rcases h with h | h
        · exact absurd hneg.2 h
        · rw [h, hb] at hneg
          exact absurd hneg.1 Bool.false_ne_true
      · rw [toInt_setpt hrange]

/-- All four channels unipolar, and a request of -1 A to channel 2. -/
theorem unipolar_polarityAgrees : PolarityAgrees unityEnv 0x0F#8 .ps2 (-1) :=
  (polarityAgrees_iff (Or.inr rfl) (by decide) 0x0F#8 (-1)).mpr (Or.inr (by decide))

/-- Only channel 1 is unipolar: `Set_dac` takes its polarity from bit 1 and writes -52428. -/
theorem mixed_not_polarityAgrees : ¬ PolarityAgrees unityEnv 0x01#8 .ps1 (-1) := by
  intro h
  have hnew : newSetpt unityEnv .ps1 ((0x01#8).setWidth 32) (-1) = some (-52428) := by
    decide +kernel
  set rf : RegFile :=
    { glob := fun g => if g = .polarity then 1#_ else 0#_
      chan := fun _ r => if r = .dac_opmode then 3#_ else 0#_ } with hrf
  obtain ⟨h1, -⟩ := h rf rfl _ (writesSetpt_jump rf rfl hnew)
  have h2 := h1 (by decide)
  revert h2
  decide

end Zpsc.Control
