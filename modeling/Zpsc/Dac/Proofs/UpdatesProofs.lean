import Zpsc.Dac.Proofs.CalibrationProofs
import Zpsc.Dac.Proofs.FramesProofs
import Zpsc.Dac.Proofs.UnipolarProofs
import Zpsc.Dac.Updates

/-!
# Every tick sends its setpoint to the DAC

The gain stage and the SPI engine go by the time since the last tick (`gainPhase`, `spiPhase`): the
stage is done twelve clocks after a tick, when the engine is idle, and the engine is idle again long
before the next tick.
-/

namespace Zpsc

open Bits Clocked

namespace GainOffset

/-- From the fifth clock after a tick to the next tick the stage keeps its output. -/
theorem step_dac_setpt {a : ℕ} {g : Stage} (h : GainPhase a g) (ha : 4 ≤ a)
    (tick numbits : Bool) (raw : BitVec 20) (c : DacCntrl) :
    (step g false tick numbits raw c).dac_setpt = g.dac_setpt := by
  rcases h with ⟨hs, -⟩ | ⟨-, ⟨-, ha'⟩ | ⟨-, ha'⟩ | ⟨-, -, ha'⟩ | ⟨-, -, ha'⟩ | ⟨hs, -⟩⟩
  · cases tick <;> simp [step, hs]
  · omega
  · omega
  · omega
  · omega
  · simp only [step, hs]
    split_ifs <;> rfl

end GainOffset

namespace Ad5781

/-- The registers for the control bits. -/
theorem step_ctrl_bits (n : ℕ) (s : Spi) {i : In} (hr : i.reset = false) :
    (step n s i).bin2sc_reg = i.dac_ctrl_bits.getLsbD 4 ∧
      (step n s i).rbuf_reg = i.dac_ctrl_bits.getLsbD 3 ∧
      (step n s i).dac_tri_reg = i.dac_ctrl_bits.getLsbD 2 ∧
      (step n s i).sdo_dis_reg = i.dac_ctrl_bits.getLsbD 1 ∧
      (step n s i).op_gnd_reg = i.dac_ctrl_bits.getLsbD 0 := by
  cases hs : s.present_state <;> simp [step, stepData, hr, hs] <;> split_ifs <;> simp

/-- A start that finds the engine idle sets it to work. -/
theorem step_started (n : ℕ) {s : Spi} {i : In} (hr : i.reset = false)
    (hs : s.present_state = .IDLE) (hi : i.start = true) :
    (step n s i).present_state ≠ .IDLE := by
  simp only [step, hr, hs, hi, Bool.false_eq_true, if_false, if_true]
  split_ifs <;> exact State.noConfusion

theorem left_ctrl {s : Spi} (hs : s.present_state = .SEND_CTRL_REG) : left 5 s = 544 := by
  rw [left, hs]
  rfl

theorem left_setpoint {s : Spi} (hs : s.present_state = .SEND_SETPOINT) : left 5 s = 277 := by
  rw [left, hs]
  rfl

/-- The times of the two frames of a start: the data for the second one is loaded 268 clocks after
the start, and the engine is idle again after 545. -/
theorem twoFrames_times {inp : ℕ → In} (hreset : ResetFirst inp) (s : Spi) {t : ℕ} (ht : 0 < t)
    (hidle : (regs 5 s inp t).present_state = .IDLE) (hinit : (regs 5 s inp t).init_count = 2)
    (hstart : (inp t).start = true) :
    frames 5 s inp t (t + 545) =
        [ctrlFrame (regs 5 s inp (t + 1)), setpointFrame (regs 5 s inp (t + 268))] ∧
      (regs 5 s inp (t + 545)).present_state = .IDLE := by
  obtain ⟨v, u, htv, hvu, hu, hbusy, hv, hframes, -⟩ := twoFrames hreset s t ht hidle hinit hstart
  have hleft := left_ctrl (ctrl_succ hreset ht hidle hinit hstart)
  have hcount : ∀ k ≤ 544, left 5 (regs 5 s inp (t + 1 + k)) + k = 544 := by
    intro k hk
    rw [← hleft]
    exact (jobs hreset s ⟨by decide, by decide⟩).left_add (by omega) (hleft.symm ▸ hk)
  have hend : (regs 5 s inp (t + 1 + 544)).present_state = .IDLE := by
    refine (left_eq_zero_iff hreset (by omega)).mp ?_
    have := hcount 544 le_rfl
    omega
  have hule : u ≤ t + 1 + 544 := by
    by_contra hlt
    exact hbusy (t + 1 + 544) (by omega) (by omega) hend
  obtain ⟨k, rfl⟩ := Nat.exists_eq_add_of_le (show t + 1 ≤ v by omega)
  obtain ⟨j, rfl⟩ := Nat.exists_eq_add_of_le (show t + 1 ≤ u by omega)
  have hk := hcount k (by omega)
  have hj := hcount j (by omega)
  rw [left_setpoint hv] at hk
  rw [left_idle hu] at hj
  obtain rfl : k = 267 := by omega
  obtain rfl : j = 544 := by omega
  exact ⟨hframes, hend⟩

end Ad5781

namespace DacChan

variable {ram : Dpram} {cordic : Cordic} {s : DacChan ram cordic} {inp : ℕ → In} {t t₀ v b : ℕ}

theorem regs_step (s : DacChan ram cordic) (inp : ℕ → In) (v : ℕ) :
    regs s inp (v + 1) = step (regs s inp v) (inp v) := rfl

theorem regs_spi (s : DacChan ram cordic) (inp : ℕ → In) (v : ℕ) :
    (regs s inp v).spi = Ad5781.regs spiClkDiv s.spi (spiInputs s inp) v :=
  trace_proj (fun s => s.spi) spiIn (fun _ _ => rfl) s inp v

section Run

variable (h : Paced inp)
include h

theorem spi_reset (s : DacChan ram cordic) : Ad5781.ResetFirst (spiInputs s inp) :=
  ⟨h.dac_reset, h.no_dac_reset⟩

/-! ## The phases -/

/-- The clocks since the last tick out of reset. -/
def since (inp : ℕ → In) (v : ℕ) : ℕ := sinceTick 2000 (accepted inp) v

theorem accepted_eq (hv : 0 < v) : accepted inp v = (inp v).tenkhz_trig := by
  rw [accepted, h.no_reset v hv, Bool.not_false, Bool.and_true]

theorem accepted_ticks : TicksApart 2000 (accepted inp) := by
  intro t t' htt' ht ht'
  rw [accepted, Bool.and_eq_true] at ht ht'
  exact h.apart t t' htt' ht.1 ht'.1

theorem since_tick (hv : accepted inp v = true) : 1999 ≤ since inp v := by
  have := le_sinceTick (accepted_ticks h) hv
  rw [since]
  omega

theorem since_after {k : ℕ} (ht : accepted inp t = true) (hk : k < 2000) :
    since inp (t + 1 + k) = k :=
  sinceTick_after (accepted_ticks h) ht hk

theorem gainPhase (hg : s.gain.state = .IDLE) (hv : 0 < v) :
    GainOffset.GainPhase (since inp v) (regs s inp v).gain := by
  induction v, hv using Nat.le_induction with
  | base =>
    have hsince : since inp 1 = 2001 := by
      simp [since, sinceTick, accepted, h.reset]
    have hone : (regs s inp 1).gain = { s.gain with done := false } := by
      show (step s (inp 0)).gain = _
      simp [step, GainOffset.step, h.reset]
    refine .inl ⟨?_, .inr ⟨?_, ?_⟩⟩
    · rw [hone]
      exact hg
    · rw [hone]
    · rw [hsince]
      omega
  | succ v hv ih =>
    have hstep := GainOffset.step_gainPhase ih (inp v).tenkhz_trig (inp v).dac_numbits_sel
      (fun ht => by have := since_tick h ((accepted_eq h hv).trans ht); omega)
      (regs s inp v).dac_setpt_raw (inp v).dac_cntrl
    rw [since, sinceTick, accepted_eq h hv, regs_step, step, h.no_reset v hv]
    exact hstep

/-- `done` comes twelve clocks after a tick. -/
theorem done_iff (hg : s.gain.state = .IDLE) (hv : 0 < v) :
    (regs s inp v).gain.done = true ↔ since inp v = 11 := by
  rcases gainPhase h hg hv with ⟨-, ⟨hd, ha⟩ | ⟨hd, ha⟩⟩ | ⟨hd, hrest⟩
  · exact iff_of_true hd ha
  · rw [hd]
    exact iff_of_false Bool.false_ne_true (by omega)
  · rw [hd]
    refine iff_of_false Bool.false_ne_true ?_
    omega

theorem spiPhase (hg : s.gain.state = .IDLE) (hv : 0 < v) :
    Ad5781.SpiPhase (since inp v) (regs s inp v).spi := by
  induction v, hv using Nat.le_induction with
  | base =>
    obtain ⟨hs, hc⟩ := Ad5781.step_reset s.spi (i := spiInputs s inp 0) h.dac_reset
    exact ⟨hc, fun hne => absurd hs hne⟩
  | succ v hv ih =>
    have hstep := Ad5781.step_spiPhase ih (spiInputs s inp v) (accepted inp v)
      (fun hd => (done_iff h hg hv).mp hd) (since_tick h)
    rw [since, sinceTick]
    exact hstep

theorem spi_idle (hg : s.gain.state = .IDLE) (hv : 0 < v)
    (hsince : since inp v < 12 ∨ 600 < since inp v) :
    (regs s inp v).spi.present_state = .IDLE := by
  by_contra hne
  have := (spiPhase h hg hv).2 hne
  omega

/-! ## The pass of the gain and offset stage -/

theorem gain_step (hv : 0 < v) :
    (regs s inp (v + 1)).gain =
      GainOffset.step (regs s inp v).gain false (inp v).tenkhz_trig (inp v).dac_numbits_sel
        (regs s inp v).dac_setpt_raw (inp v).dac_cntrl := by
  rw [regs_step, step, h.no_reset v hv]

variable (hg : s.gain.state = .IDLE) (ht : 0 < t) (htick : (inp t).tenkhz_trig = true)
include ht htick

theorem taken : accepted inp t = true := (accepted_eq h ht).trans htick

include hg

/-- The fifth clock of a pass leaves the calibrated setpoint. -/
theorem pass_ends : (regs s inp (t + 5)).gain.dac_setpt = calibrated s inp t := by
  have hidle : (regs s inp t).gain.state = .IDLE := by
    have hsince := since_tick h (taken h ht htick)
    rcases gainPhase h hg ht with ⟨hs, -⟩ | ⟨-, hrest⟩
    · exact hs
    · omega
  have h1 : (regs s inp (t + 1)).gain.state = .APPLY_OFFSETS ∧
      (regs s inp (t + 1)).dac_setpt_raw = (regs s inp t).modeSetpt (inp t) := by
    rw [gain_step h ht, regs_step, step, h.no_reset t ht, htick]
    simp [GainOffset.step, hidle]
  have h2 : (regs s inp (t + 2)).gain.state = .APPLY_GAINS ∧
      (regs s inp (t + 2)).gain.dac_setpt_oc =
        (regs s inp t).modeSetpt (inp t) - (inp (t + 1)).dac_cntrl.offset := by
    rw [gain_step h (by omega)]
    simp [GainOffset.step, h1]
  have h3 : (regs s inp (t + 3)).gain.state = .SCALE ∧
      (regs s inp (t + 3)).gain.dac_setpt_oc = (regs s inp (t + 2)).gain.dac_setpt_oc ∧
      (regs s inp (t + 3)).gain.dac_setpt_fs =
        sresize 44 (regs s inp (t + 2)).gain.dac_setpt_oc *
          sresize 44 (inp (t + 2)).dac_cntrl.gain := by
    rw [gain_step h (by omega)]
    simp [GainOffset.step, h2]
  have h4 : (regs s inp (t + 4)).gain.state = .CHECKFORSAT ∧
      (regs s inp (t + 4)).gain.dac_setpt_oc = (regs s inp (t + 3)).gain.dac_setpt_oc ∧
      (regs s inp (t + 4)).gain.dac_setpt =
        (regs s inp (t + 3)).gain.dac_setpt_fs.extractLsb' 20 20 := by
    rw [gain_step h (by omega)]
    simp [GainOffset.step, h3]
  have h5 : (regs s inp (t + 5)).gain.dac_setpt =
      (GainOffset.saturate (inp (t + 4)).dac_numbits_sel (regs s inp (t + 4)).gain).dac_setpt := by
    rw [gain_step h (by omega)]
    simp [GainOffset.step, h4]
  rw [h5, calibrated, GainOffset.calibrate]
  apply BitVec.eq_of_toInt_eq
  rw [GainOffset.toInt_saturate, GainOffset.toInt_saturate, h4.2.1, h4.2.2, h3.2.1, h3.2.2, h2.2]

/-- Until the next tick the output of the stage stays. -/
theorem gain_holds (hv : t + 5 ≤ v) (hvt : v ≤ t + 2000) :
    (regs s inp v).gain.dac_setpt = calibrated s inp t := by
  refine hold (P := fun v => (regs s inp v).gain.dac_setpt = calibrated s inp t) hv ?_
    (pass_ends h hg ht htick)
  intro w hw hwv ih
  obtain ⟨k, rfl⟩ := Nat.exists_eq_add_of_le (show t + 1 ≤ w by omega)
  have hphase := gainPhase (s := s) h hg (show 0 < t + 1 + k by omega)
  rw [since_after h (taken h ht htick) (by omega)] at hphase
  rw [gain_step h (by omega), GainOffset.step_dac_setpt hphase (by omega), ih]

/-! ## The registers between the stage and the engine -/

theorem data_in_reg_eq :
    0b0#1 ++ 0b001#3 ++ (regs s inp (t + 280)).spi.data_in_reg = setpointWord s inp t := by
  have hin : (regs s inp (t + 280)).spi.data_in_reg = (regs s inp (t + 279)).dac_data := by
    rw [regs_step]
    show (Ad5781.step spiClkDiv _ _).data_in_reg = _
    rw [Ad5781.step_data_in_reg]
    exact if_neg (by simp [spiIn, h.no_dac_reset (t + 279) (by omega)])
  have hdata : (regs s inp (t + 279)).dac_data =
      if (inp (t + 278)).dac_numbits_sel then (regs s inp (t + 278)).dac_setpt_wlim
      else (regs s inp (t + 278)).dac_setpt_wlim.extractLsb' 0 18 ++ 0#2 := rfl
  have hwlim : (regs s inp (t + 278)).dac_setpt_wlim =
      if (inp (t + 277)).dig_cntrl.polarity ∧ (regs s inp (t + 277)).gain.dac_setpt.toInt < 0 then 0
      else (regs s inp (t + 277)).gain.dac_setpt := rfl
  rw [gain_holds h hg ht htick (by omega) (by omega)] at hwlim
  rw [hin, hdata, hwlim]
  rfl

omit hg htick in
theorem ctrlFrame_eq :
    Ad5781.ctrlFrame (regs s inp (t + 13)).spi = ctrlWord inp t := by
  obtain ⟨h1, h2, h3, h4, h5⟩ := Ad5781.step_ctrl_bits spiClkDiv (regs s inp (t + 12)).spi
    (i := spiInputs s inp (t + 12)) (h.no_dac_reset (t + 12) (by omega))
  have hstep : (regs s inp (t + 13)).spi =
      Ad5781.step spiClkDiv (regs s inp (t + 12)).spi (spiInputs s inp (t + 12)) := rfl
  rw [Ad5781.ctrlFrame, hstep, h1, h2, h3, h4, h5, ctrlWord]
  simp [spiInputs, spiIn]

/-! ## The two frames -/

omit ht htick in
theorem start_iff (hv : 0 < v) : (spiInputs s inp v).start = true ↔ since inp v = 11 :=
  done_iff h hg hv

theorem started : (spiInputs s inp (t + 12)).start = true := by
  rw [start_iff h hg (by omega)]
  exact since_after h (taken h ht htick) (k := 11) (by omega)

theorem idle_before : (regs s inp (t + 12)).spi.present_state = .IDLE := by
  refine spi_idle h hg (by omega) (.inl ?_)
  have hsince : since inp (t + 12) = 11 := since_after h (taken h ht htick) (k := 11) (by omega)
  omega

/-- After the start of an earlier tick the engine is idle only when it counts as initialised. -/
theorem initialised {t' : ℕ} (htt : t + 13 ≤ t')
    (hidle : (regs s inp t').spi.present_state = .IDLE) :
    (regs s inp t').spi.init_count = 2 := by
  have hreset := spi_reset h s
  refine hold (P := fun v => (regs s inp v).spi.present_state = .IDLE →
    (regs s inp v).spi.init_count = 2) htt ?_ ?_ hidle
  · intro v hv _ ih
    rw [regs_spi] at ih
    rw [regs_spi]
    exact Ad5781.idle_init_step (Ad5781.ok hreset s.spi (by omega)).inits
      (hreset.2 v (by omega)) ih
  · intro hs
    have hne := Ad5781.step_started spiClkDiv (hreset.2 (t + 12) (by omega))
      (idle_before h hg ht htick) (started h hg ht htick)
    exact absurd hs hne

omit hg ht htick in
/-- Without a start the engine stays idle. -/
theorem stays_idle (ht : 0 < t) (htv : t ≤ v) (hidle : (regs s inp t).spi.present_state = .IDLE)
    (hnone : ∀ w, t ≤ w → w < v → (spiInputs s inp w).start = false) :
    (regs s inp v).spi.present_state = .IDLE := by
  refine hold (P := fun w => (regs s inp w).spi.present_state = .IDLE) htv ?_ hidle
  intro w hw hwv ih
  exact (Ad5781.step_idle ((spi_reset h s).2 w (by omega)) ih).2 (hnone w hw hwv)

/-- The two frames of a tick that is not the first. -/
theorem two_frames {t' : ℕ} (htt : t < t') (htick' : (inp t').tenkhz_trig = true) :
    Ad5781.frames spiClkDiv s.spi (spiInputs s inp) (t' + 12) (t' + 557) =
        [ctrlWord inp t', setpointWord s inp t'] ∧
      (regs s inp (t' + 557)).spi.present_state = .IDLE := by
  have hreset := spi_reset h s
  have hpos : 0 < t' + 12 := by omega
  have hapart := h.apart t t' htt htick htick'
  have hidle := idle_before h hg (by omega) htick'
  have hinit := initialised h hg ht htick (show t + 13 ≤ t' + 12 by omega) hidle
  have hstart := started h hg (by omega) htick'
  rw [regs_spi] at hidle hinit
  obtain ⟨hframes, hend⟩ := Ad5781.twoFrames_times hreset s.spi hpos hidle hinit hstart
  refine ⟨?_, by rw [regs_spi]; exact hend⟩
  rw [← ctrlFrame_eq h (by omega), ← data_in_reg_eq h hg (show 0 < t' by omega) htick',
    regs_spi s inp (t' + 13), regs_spi s inp (t' + 280)]
  exact hframes

/-- From the start of a tick that is not the first to the start of the next one, the frames are
those of the tick. -/
theorem tick_frames {t' : ℕ} (htt : t < t') (htick' : (inp t').tenkhz_trig = true)
    (hb : t' + 557 ≤ b) (hnext : ∀ u, t' < u → u + 12 < b → (inp u).tenkhz_trig = false) :
    Ad5781.frames spiClkDiv s.spi (spiInputs s inp) (t' + 12) b =
        [ctrlWord inp t', setpointWord s inp t'] ∧
      (regs s inp b).spi.present_state = .IDLE := by
  obtain ⟨hframes, hidle⟩ := two_frames h hg ht htick htt htick'
  have hnone : ∀ w, t' + 557 ≤ w → w < b → (spiInputs s inp w).start = false := by
    intro w hw hwb
    by_contra hstart
    rw [Bool.not_eq_false, start_iff h hg (by omega)] at hstart
    obtain ⟨u, hu, hacc⟩ := exists_tick 2000 (accepted inp) (t := w) (by
      rw [← since, hstart]
      omega)
    rw [← since, hstart] at hu
    rw [accepted_eq h (by omega), hnext u (by omega) (by omega)] at hacc
    cases hacc
  refine ⟨?_, stays_idle h (by omega) hb hidle hnone⟩
  rw [Ad5781.frames, sampled_append (show t' + 12 ≤ t' + 557 by omega) hb, ← Ad5781.frames,
    hframes, sampled_none, List.append_nil]
  intro w hw hwb
  have hs := stays_idle h (by omega) (show t' + 557 ≤ w + 1 by omega) hidle
    fun x hx hxw => hnone x hx (by omega)
  rw [regs_spi] at hs
  rw [Ad5781.frameStarts, hs]
  exact Bool.and_false _

end Run

theorem ticks_last {a u : ℕ} (hau : a ≤ u) (hub : u < b) (hu : (inp u).tenkhz_trig = true)
    (hnone : ∀ v, u < v → v < b → (inp v).tenkhz_trig = false) :
    ticks inp a b = ticks inp a u ++ [u] := by
  have hrest : sampled (fun v => (inp v).tenkhz_trig) id (u + 1) b = [] :=
    sampled_none fun v hv hvb => hnone v hv hvb
  rw [ticks, ticks, sampled_append (show a ≤ u + 1 by omega) (Nat.succ_le_of_lt hub), hrest,
    List.append_nil, sampled_succ hau, if_pos hu]
  rfl

/-- From the start of a tick that is not the first on, the frames are those of the ticks, two for
each tick and in their order. -/
theorem frames_eq (h : Paced inp) (hg : s.gain.state = .IDLE) (ht₀ : 0 < t₀)
    (htick₀ : (inp t₀).tenkhz_trig = true) (htt : t₀ < t) (htick : (inp t).tenkhz_trig = true)
    (hb : t + 12 ≤ b) (hdone : ∀ u, (inp u).tenkhz_trig = true → u + 12 < b → u + 557 ≤ b) :
    Ad5781.frames spiClkDiv s.spi (spiInputs s inp) (t + 12) b =
        (ticks inp t (b - 12)).flatMap (fun u => [ctrlWord inp u, setpointWord s inp u]) ∧
      (regs s inp b).spi.present_state = .IDLE := by
  induction b using Nat.strong_induction_on with
  | h b ih =>
    by_cases hbt : b = t + 12
    · subst hbt
      refine ⟨?_, idle_before h hg (by omega) htick⟩
      rw [Ad5781.frames, ticks, sampled_of_le le_rfl, sampled_of_le (by omega)]
      rfl
    · rcases exists_last_tick (fun v => (inp v).tenkhz_trig) (b - 12) with
        hnone | ⟨u, hub, hu, hbetween⟩
      · exact absurd htick (by simp [hnone t (by omega)])
      · have htu : t ≤ u := by
          by_contra hlt
          have := hbetween t (by omega) (by omega)
          cases htick.symm.trans this
        have hearlier : ∀ v, (inp v).tenkhz_trig = true → v + 12 < u + 12 → v + 557 ≤ u + 12 := by
          intro v hv hvu
          have := h.apart v u (by omega) hv hu
          omega
        obtain ⟨hframes, -⟩ := ih (u + 12) (by omega) (by omega) hearlier
        obtain ⟨hlast, hidle⟩ := tick_frames h hg ht₀ htick₀ (show t₀ < u by omega) hu
          (hdone u hu (by omega)) fun v hv hvb => hbetween v hv (by omega)
        refine ⟨?_, hidle⟩
        rw [ticks_last htu hub hu fun v hv hvb => hbetween v hv hvb, List.flatMap_append,
          List.flatMap_singleton, ← hlast]
        rw [Nat.add_sub_cancel] at hframes
        rw [← hframes]
        exact sampled_append (by omega) (by omega)

/-- What the DAC is sent: after the first tick, each tick sends the control register and the
calibrated setpoint of the generator that is selected at the tick, bit for bit and in the order of
the ticks, and nothing else is sent. -/
theorem ticks_send (h : Paced inp) (hg : s.gain.state = .IDLE) (ht₀ : 0 < t₀)
    (htick₀ : (inp t₀).tenkhz_trig = true) (htt : t₀ < t) (htick : (inp t).tenkhz_trig = true)
    (hb : t + 12 ≤ b) (hdone : ∀ u, (inp u).tenkhz_trig = true → u + 12 < b → u + 557 ≤ b) :
    Ad5781.frames spiClkDiv s.spi (spiInputs s inp) (t + 12) b =
        (ticks inp t (b - 12)).flatMap (fun u => [ctrlWord inp u, setpointWord s inp u]) ∧
      Ad5781.sdoBits spiClkDiv s.spi (spiInputs s inp) (t + 12) b =
        (ticks inp t (b - 12)).flatMap
          fun u => msbFirst (ctrlWord inp u) ++ msbFirst (setpointWord s inp u) := by
  obtain ⟨hframes, hidle⟩ := frames_eq h hg ht₀ htick₀ htt htick hb hdone
  refine ⟨hframes, ?_⟩
  have hfree : Ad5781.Sent [] [] (Ad5781.regs spiClkDiv s.spi (spiInputs s inp) (t + 12)) := by
    rw [← regs_spi, Ad5781.Sent, idle_before h hg (by omega) htick]
    rfl
  have hsent := Ad5781.sent (spi_reset h s) s.spi (by omega) hfree hb
  rw [← regs_spi, Ad5781.Sent, hidle, hframes] at hsent
  simpa [List.flatMap_assoc] using hsent

/-! ## A channel in jump mode -/

def asConfigured : DacChan .blank .blank := configured () ()

/-- The channel of `jumpInputs` with a reset at clock 0 and ticks at the clocks 3 and 2003. -/
def twoTicks (t : ℕ) : In :=
  { jumpInputs t with
    reset := t = 0
    tenkhz_trig := t = 3 || t = 2003
    dac_cntrl := { (jumpInputs t).dac_cntrl with reset := t = 0 } }

theorem tick_twoTicks : (twoTicks t).tenkhz_trig = true ↔ t = 3 ∨ t = 2003 := by
  simp [twoTicks]

theorem paced_twoTicks : Paced twoTicks where
  reset := rfl
  dac_reset := rfl
  no_reset t ht := decide_eq_false ht.ne'
  no_dac_reset t ht := decide_eq_false ht.ne'
  apart := by
    intro t t' htt ht ht'
    rw [tick_twoTicks] at ht ht'
    omega

/-- The second tick sends the control register and the 18-bit limit. -/
theorem ticks_send_twoTicks :
    Ad5781.frames spiClkDiv asConfigured.spi (spiInputs asConfigured twoTicks) 2015 2560 =
      [0x200000#24, 0x17FFFC#24] := by
  have hdone : ∀ u, (twoTicks u).tenkhz_trig = true → u + 12 < 2560 → u + 557 ≤ 2560 := by
    intro u hu _
    rw [tick_twoTicks] at hu
    omega
  have hticks : ticks twoTicks 2003 2548 = [2003] := by
    have hlast : ∀ v, 2003 < v → v < 2548 → (twoTicks v).tenkhz_trig = false := by
      intro v hv _
      rw [← Bool.not_eq_true, tick_twoTicks]
      omega
    rw [ticks_last (le_refl 2003) (by omega) (tick_twoTicks.mpr (.inr rfl)) hlast, ticks,
      sampled_of_le le_rfl, List.nil_append]
  have hsend := (ticks_send (s := asConfigured) paced_twoTicks rfl
    (show 0 < 3 by omega) (tick_twoTicks.mpr (.inl rfl)) (show 3 < 2003 by omega)
    (tick_twoTicks.mpr (.inr rfl)) (show 2003 + 12 ≤ 2560 by omega) hdone).1
  have hset : setpointWord asConfigured twoTicks 2003 = 0x17FFFC#24 := by
    decide +kernel
  have hctrl : ctrlWord twoTicks 2003 = 0x200000#24 := by
    decide +kernel
  rw [hsend, show 2560 - 12 = 2548 from rfl, hticks, List.flatMap_singleton, hset, hctrl]

end DacChan

end Zpsc
