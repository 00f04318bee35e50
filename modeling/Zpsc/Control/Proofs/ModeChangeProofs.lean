import Zpsc.Control.ModeChange
import Zpsc.Control.Proofs.SetDacProofs
import Zpsc.Dac.Proofs.DacCtrlrProofs
import Zpsc.Dac.Proofs.SmoothLinearProofs

/-!
# When a mode change is bumpless

An inactive generator is idle (`flagged_of_reachable`), and an idle one holds its output until the
next tick unless it is a linear ramp that starts (`table_held`, `cosine_held`, `linear_held`). So
the tick after a mode command takes over what the generator of the new mode held before it
(`keepsRaw_iff`).
-/

namespace Zpsc

/-! ## Inactive generators are idle -/

theorem RampTable.step_active {ram : Dpram} {s : Ramp ram} (reset tick : Bool) (mode : BitVec 2)
    (c : DacCntrl) (h : s.state = .UPDATE_DAC → s.ramp_active = true) :
    (step s reset tick mode c).state = .UPDATE_DAC →
      (step s reset tick mode c).ramp_active = true := by
  cases reset with
  | true => simp [step]
  | false =>
    simp only [step, Bool.false_eq_true, if_false]
    cases hst : s.state <;> simp only
    all_goals split <;> simp_all

theorem SmoothLinear.step_active {s : Ramp} (i : In)
    (h : s.state ≠ .IDLE → s.smooth_active = true) :
    (step s i).state ≠ .IDLE → (step s i).smooth_active = true := by
  unfold step
  split
  · simp
  · cases hst : s.state <;> simp only
    case IDLE => split <;> simp
    all_goals
      have hact := h (by rw [hst]; decide)
      try split
    all_goals try split
    all_goals simp [hact]

/-! ## Idle generators hold their output -/

theorem RampTable.step_held {ram : Dpram} {s : Ramp ram} (mode : BitVec 2) (c : DacCntrl)
    (h : s.state ≠ .UPDATE_DAC) :
    (step s false false mode c).state ≠ .UPDATE_DAC ∧
      (step s false false mode c).ramp_dac_setpt = s.ramp_dac_setpt := by
  simp only [step, Bool.false_eq_true, if_false]
  cases hst : s.state <;> simp only
  case IDLE => split <;> simp
  case RUN_RAMP => simp
  case UPDATE_DAC => exact absurd hst h

theorem SmoothCosine.step_held {cordic : Cordic} (s : Ramp cordic) (mode : BitVec 2)
    (cur new : BitVec 20) (inc : BitVec 32) :
    (step s false false mode cur new inc).rampout = s.rampout := by
  simp only [step, Bool.false_eq_true, if_false]
  cases s.state <;> simp only
  split <;> rfl

/-- The first clock of an idle linear ramp in smooth mode: it starts if the setpoint has changed. -/
theorem SmoothLinear.step_idle {s : Ramp} {i : In} (hr : i.reset = false) (hmode : i.mode = 0b00#2)
    (hs : s.state = .IDLE) :
    ((step s i).state = .IDLE ∧ (step s i).new_setpt_prev = i.new_setpt ∨
        (step s i).state = .START_CURVED) ∧
      (step s i).rampout =
        if s.new_setpt_prev ≠ i.new_setpt then i.cur_setpt else s.rampout := by
  by_cases hnew : s.new_setpt_prev = i.new_setpt
  · simp [step, hr, hs, hnew, Ramp.rampout]
  · have hcar : Carries ⟨i.linear_len, i.curved_len, i.dy, i.dy_per_pt⟩ i :=
      ⟨hr, rfl, rfl, rfl, rfl⟩
    rw [if_pos hnew]
    exact ⟨.inr (step_start hcar hmode rfl rfl ⟨hs, hnew⟩).2,
      rampout_start hcar hmode rfl rfl ⟨hs, hnew⟩⟩

theorem SmoothLinear.step_held {s : Ramp} {i : In} (hr : i.reset = false)
    (hs : s.state = .IDLE ∧ s.new_setpt_prev = i.new_setpt ∨
      s.state = .START_CURVED ∧ i.tenkhz_trig = false) :
    (step s i).state = s.state ∧ (step s i).new_setpt_prev = s.new_setpt_prev ∧
      (step s i).rampout = s.rampout := by
  rcases hs with ⟨hst, hnew⟩ | ⟨hst, ht⟩
  · simp [step, hr, hst, hnew, Ramp.rampout]
  · simp [step, hr, hst, ht]

end Zpsc

namespace Zpsc.Control

open Clocked

variable {ram : Dpram} {cordic : Cordic} {e : Env} {s : DacCtrlr.System ram cordic} {rf : RegFile}
  {c : Chan} {m : BitVec 32} {inp : ℕ → DacCtrlr.In} {n : ℕ}

/-- A table or a linear ramp that is about to change its output is active. -/
structure Flagged (s : DacChan ram cordic) : Prop where
  table : s.table.state = .UPDATE_DAC → s.table.ramp_active = true
  linear : s.linear.state ≠ .IDLE → s.linear.smooth_active = true

theorem flagged_of_reachable (h : Reachable s) (c : Chan) : Flagged (s.chan c) := by
  obtain ⟨table, core, is, rfl⟩ := h
  refine run_inv (fun s : DacCtrlr.System ram cordic => ∀ c, Flagged (s.chan c))
    (fun s hs i _ c => ?_) (fun c => ?_) c
  · obtain ⟨ht, hl⟩ := hs c
    exact ⟨RampTable.step_active _ _ _ _ ht, SmoothLinear.step_active _ hl⟩
  · exact ⟨fun h => RampTable.State.noConfusion h, fun h => absurd rfl h⟩

/-! ## The registers after a mode command -/

theorem writeRegs_opmode (e : Env) (rf : RegFile) (c : Chan)
    (hm : m = SMOOTH ∨ m = RAMP ∨ m = JUMP) :
    writeRegs rf c (Set_dacOpmode e c m) = rf.out32 (chanAddr c .dac_opmode) m := by
  rcases hm with rfl | rfl | rfl <;> rfl

/-- What channel `c` sees of the registers from a mode command to the next tick. -/
structure Sees (rf : RegFile) (c : Chan) (m : BitVec 32) (i : DacChan.In) : Prop where
  reset : i.reset = false
  mode : i.dac_cntrl.mode = m.setWidth 2
  setpoint : i.dac_cntrl.setpoint = setptReg rf c
  smoothramp_type : i.smoothramp_type = (rf.glob .smoothramp_type).getLsbD 0

theorem Commanded.sees (h : Commanded e rf c m inp n) (hm : m = SMOOTH ∨ m = RAMP ∨ m = JUMP)
    (s : DacCtrlr.System ram cordic) {t : ℕ} (ht : t ≤ n) :
    Sees rf c m (DacCtrlr.chanIn s (inp t) c) := by
  have hregs := h.regs t ht
  rw [writeRegs_opmode e rf c hm] at hregs
  refine ⟨h.reset t ht, ?_, ?_, ?_⟩
  · simp only [DacCtrlr.chanIn, DacCtrlr.dacCntrl, PsIo.dacCntrl, hregs, RegFile.out32_chan]
    rfl
  · simp only [DacCtrlr.chanIn, DacCtrlr.dacCntrl, PsIo.dacCntrl, hregs, RegFile.out32_chan]
    rfl
  · simp only [DacCtrlr.chanIn, hregs, RegFile.out32_glob]

/-! ## From a command to the next tick -/

section Held

variable (h : Commanded e rf c m inp n)
include h

theorem table_held (hs : (s.chan c).table.state ≠ .UPDATE_DAC) {t : ℕ} (ht : t ≤ n) :
    ((trace DacCtrlr.step s inp t).chan c).table.state ≠ .UPDATE_DAC ∧
      ((trace DacCtrlr.step s inp t).chan c).table.ramp_dac_setpt =
        (s.chan c).table.ramp_dac_setpt := by
  induction t with
  | zero => exact ⟨hs, rfl⟩
  | succ t ih =>
    obtain ⟨ih1, ih2⟩ := ih (by omega)
    rw [← ih2, trace_succ]
    simp only [DacCtrlr.step, DacChan.step, DacCtrlr.chanIn, h.reset t (by omega),
      h.first t (by omega)]
    exact RampTable.step_held _ _ ih1

theorem cosine_held {t : ℕ} (ht : t ≤ n) :
    ((trace DacCtrlr.step s inp t).chan c).cosine.rampout = (s.chan c).cosine.rampout := by
  induction t with
  | zero => rfl
  | succ t ih =>
    rw [← ih (by omega), trace_succ]
    simp only [DacCtrlr.step, DacChan.step, DacCtrlr.chanIn, h.reset t (by omega),
      h.first t (by omega)]
    exact SmoothCosine.step_held _ _ _ _ _

theorem linear_held (hm : m = SMOOTH) (hs : (s.chan c).linear.state = .IDLE) {t : ℕ} (hpos : 1 ≤ t)
    (ht : t ≤ n) :
    let r := ((trace DacCtrlr.step s inp t).chan c).linear
    (r.state = .IDLE ∧ r.new_setpt_prev = setptReg rf c ∨ r.state = .START_CURVED) ∧
      r.rampout =
        if (s.chan c).linear.new_setpt_prev ≠ setptReg rf c then (s.chan c).gain.dac_setpt
        else (s.chan c).linear.rampout := by
  intro r
  induction t, hpos using Nat.le_induction with
  | base =>
    have hsees := h.sees (.inl hm) s (t := 0) (by omega)
    set i := DacChan.linearIn (s.chan c) (DacCtrlr.chanIn s (inp 0) c) with hi
    have hset : setptReg rf c = i.new_setpt := hsees.setpoint.symm
    rw [hset]
    exact SmoothLinear.step_idle hsees.reset (hsees.mode.trans (by rw [hm]; rfl)) hs
  | succ t hpos ih =>
    obtain ⟨ih1, ih2⟩ := ih (by omega)
    set σ := trace DacCtrlr.step s inp t with hσ
    have hsees := h.sees (.inl hm) σ (t := t) (by omega)
    have hr : r = SmoothLinear.step (σ.chan c).linear
        (DacChan.linearIn (σ.chan c) (DacCtrlr.chanIn σ (inp t) c)) := rfl
    obtain ⟨h1, h2, h3⟩ := SmoothLinear.step_held
      (i := DacChan.linearIn (σ.chan c) (DacCtrlr.chanIn σ (inp t) c)) hsees.reset
      (ih1.imp (fun hi => ⟨hi.1, hi.2.trans hsees.setpoint.symm⟩)
        fun hst => ⟨hst, h.first t (by omega)⟩)
    rw [hr, h1, h2, h3]
    exact ⟨ih1, ih2⟩

/-- The next tick takes the output of the generator of the new mode. -/
theorem raw_tick (s : DacCtrlr.System ram cordic) :
    ((trace DacCtrlr.step s inp (n + 1)).chan c).dac_setpt_raw =
      ((trace DacCtrlr.step s inp n).chan c).modeSetpt
        (DacCtrlr.chanIn (trace DacCtrlr.step s inp n) (inp n) c) := by
  rw [trace_succ]
  simp [DacCtrlr.step, DacChan.step, DacCtrlr.chanIn, h.reset n le_rfl, h.tick]

end Held

/-! ## The mode change -/

/-- The tick after a mode command that finds no ramp active takes what the generator of the new mode
holds. -/
theorem raw_eq_held (hs : Reachable s) (hin : Inactive (s.chan c))
    (hm : m = SMOOTH ∨ m = RAMP ∨ m = JUMP) (h : Commanded e rf c m inp n) :
    ((trace DacCtrlr.step s inp (n + 1)).chan c).dac_setpt_raw = held (s.chan c) rf c m n := by
  obtain ⟨ht, hl⟩ := flagged_of_reachable hs c
  have htable : (s.chan c).table.state ≠ .UPDATE_DAC := by
    intro hst
    have := ht hst
    rw [hin.table] at this
    exact Bool.false_ne_true this
  have hlinear : (s.chan c).linear.state = .IDLE := by
    by_contra hst
    have := hl hst
    rw [hin.linear] at this
    exact Bool.false_ne_true this
  have hsees := h.sees hm (trace DacCtrlr.step s inp n) le_rfl
  rw [raw_tick h s, DacChan.modeSetpt, hsees.mode]
  rcases hm with rfl | rfl | rfl
  · -- smooth: the cosine ramp, or the linear one, which may have started
    rw [if_pos (by decide), DacChan.smooth_dac_setpt, hsees.smoothramp_type, cosine_held h le_rfl,
      held, if_neg (show ¬ SMOOTH = JUMP by decide), if_neg (show ¬ SMOOTH = RAMP by decide)]
    split
    · rfl
    · rcases Nat.eq_zero_or_pos n with rfl | hn
      · rfl
      · rw [(linear_held h rfl hlinear hn le_rfl).2]
        by_cases hnew : (s.chan c).linear.new_setpt_prev ≠ setptReg rf c
        · rw [if_pos hnew, if_pos ⟨hn, hnew⟩]
        · rw [if_neg hnew, if_neg fun hh => hnew hh.2]
  · rw [if_neg (by decide), if_pos (by decide), (table_held h htable le_rfl).2]
    rfl
  · rw [if_neg (by decide), if_neg (by decide), if_neg (by decide), hsees.setpoint]
    rfl

/-- A mode command that finds no ramp active is bumpless exactly when the generator of the new mode
holds `dac_setpt_raw`. -/
theorem keepsRaw_iff (hs : Reachable s) (hin : Inactive (s.chan c))
    (hm : m = SMOOTH ∨ m = RAMP ∨ m = JUMP) (h : Commanded e rf c m inp n) :
    KeepsRaw s c inp n ↔ held (s.chan c) rf c m n = (s.chan c).dac_setpt_raw := by
  rw [KeepsRaw, raw_eq_held hs hin hm h]

/-- Channel 1 in jump mode with the setpoint 1000. -/
def jumpRegs : RegFile :=
  (RegFile.zeros.out32 (chanAddr .ps1 .dac_setpt) 1000).out32 (chanAddr .ps1 .dac_opmode) JUMP

def regsIn (rf : RegFile) (tick : Bool) : DacCtrlr.In :=
  ⟨false, tick, ⟨rf, fun _ => false, fun _ => false, false⟩, fun _ => 0⟩

/-- The channels after the first tick. -/
def afterJump : DacCtrlr.System .blank .blank :=
  DacCtrlr.step DacCtrlr.configured (regsIn jumpRegs true)

/-- The inputs after a mode command, with the next tick 10000 clocks after the first. -/
def opmodeIn (m : BitVec 32) (t : ℕ) : DacCtrlr.In :=
  regsIn (writeRegs jumpRegs .ps1 (Set_dacOpmode unityEnv .ps1 m)) (t = 9999)

theorem reachable_afterJump : Reachable afterJump :=
  ⟨fun _ => (), fun _ => (), [regsIn jumpRegs true], rfl⟩

theorem inactive_afterJump : Inactive (afterJump.chan .ps1) :=
  ⟨rfl, rfl, rfl⟩

theorem commanded_opmodeIn (m : BitVec 32) :
    Commanded unityEnv jumpRegs .ps1 m (opmodeIn m) 9999 where
  regs := fun _ _ => rfl
  reset := fun _ _ => rfl
  first := fun t ht => decide_eq_false (by omega)
  tick := rfl

/-- Jump mode again: nothing moves. -/
theorem jump_keepsRaw : KeepsRaw afterJump .ps1 (opmodeIn JUMP) 9999 :=
  (keepsRaw_iff reachable_afterJump inactive_afterJump (.inr (.inr rfl))
    (commanded_opmodeIn JUMP)).mpr (by decide)

/-- From jump mode at 1000 to smooth mode: the linear ramp holds 0. -/
theorem smooth_not_keepsRaw :
    Reachable afterJump ∧ Inactive (afterJump.chan .ps1) ∧
      Commanded unityEnv jumpRegs .ps1 SMOOTH (opmodeIn SMOOTH) 9999 ∧
      ¬ KeepsRaw afterJump .ps1 (opmodeIn SMOOTH) 9999 := by
  refine ⟨reachable_afterJump, inactive_afterJump, commanded_opmodeIn SMOOTH, ?_⟩
  rw [KeepsRaw, raw_eq_held reachable_afterJump inactive_afterJump (.inl rfl)
    (commanded_opmodeIn SMOOTH)]
  decide

end Zpsc.Control
