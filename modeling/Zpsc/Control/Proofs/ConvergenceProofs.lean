import Zpsc.Control.Convergence
import Zpsc.Control.Proofs.LinearSmoothProofs
import Zpsc.Control.Proofs.SetDacProofs
import Zpsc.Dac.Proofs.BumplessProofs
import Zpsc.Dac.Proofs.DacCtrlrProofs

/-!
# Convergence of smooth ramps

The invariant of a run has two parts. `RampOk`: the ramp is at rest at the setpoint register, or the
register has just changed and the parameters for the new value are there (`Armed`), or it is on its
way (`OnRamp`). `SwOk`: whatever the software is about to do for the channel is harmless to that.
-/

namespace Zpsc.Control

open Bits Clocked CConv SmoothLinear

variable {ram : Dpram} {cordic : Cordic} {e : Env} {w : World ram cordic} {i : World.In} {c : Chan}

/-- Linear ramps are selected in the FPGA. -/
def LinearSel (w : World ram cordic) : Prop := (w.regs.glob .smoothramp_type).getLsbD 0 = false

/-! ## The FPGA in one clock -/

def rampIn (w : World ram cordic) (i : World.In) (c : Chan) : SmoothLinear.In :=
  (w.hw.chan c).linearIn (DacCtrlr.chanIn w.hw (w.hwIn i) c)

theorem ramp_step : (w.step e i).ramp c = SmoothLinear.step (w.ramp c) (rampIn w i c) := rfl

/-- The ramp of every channel but the second reads the registers of its channel. -/
theorem carries_rampIn (hc : c ≠ .ps2) : Carries (rampParams w.regs c) (rampIn w i c) := by
  refine ⟨rfl, rfl, rfl, rfl, ?_⟩
  cases c <;> first | rfl | exact absurd rfl hc

theorem ramp_step_of_rest (h : AtRest w c) :
    (w.step e i).ramp c = { w.ramp c with smooth_active := false } := by
  have hprev : (rampIn w i c).new_setpt = (w.ramp c).new_setpt_prev := h.2.symm
  have hreset : (rampIn w i c).reset = false := rfl
  rw [ramp_step, SmoothLinear.step, hreset]
  simp only [h.1, hprev, ne_eq, not_true_eq_false, false_and, if_false, Bool.false_eq_true]

theorem rampout_step_of_rest (h : AtRest w c) :
    ((w.step e i).ramp c).rampout = (w.ramp c).rampout := by
  rw [ramp_step_of_rest h]
  rfl

theorem AtRest.step (h : AtRest w c) (hset : (w.step e i).setpt c = w.setpt c) :
    AtRest (w.step e i) c := by
  refine ⟨?_, ?_⟩
  · rw [ramp_step_of_rest h]
    exact h.1
  · rw [ramp_step_of_rest h, hset]
    exact h.2

theorem new_setpt_prev_step {r : Ramp} {j : SmoothLinear.In} (hs : r.state ≠ .IDLE)
    (hr : j.reset = false) : (SmoothLinear.step r j).new_setpt_prev = r.new_setpt_prev := by
  rw [SmoothLinear.step, hr]
  cases hst : r.state
  case IDLE => exact absurd hst hs
  all_goals simp only [Bool.false_eq_true, if_false]
  all_goals first | rfl | (split <;> first | rfl | (split <;> rfl))

theorem new_setpt_prev_idle {r : Ramp} {j : SmoothLinear.In} (hs : r.state = .IDLE)
    (hr : j.reset = false) : (SmoothLinear.step r j).new_setpt_prev = j.new_setpt := by
  rw [SmoothLinear.step, hr]
  simp only [hs, Bool.false_eq_true, if_false]
  split <;> rfl

theorem setpt_of_regs {w' : World ram cordic} (h : w'.regs = w.regs) : w'.setpt c = w.setpt c := by
  rw [World.setpt, h, World.setpt]

theorem mode_of_regs {w' : World ram cordic} (h : w'.regs = w.regs) : w'.mode c = w.mode c := by
  rw [World.mode, h, World.mode]

theorem setpt_of_out32 {w' : World ram cordic} {c' : Chan} {r : ChanReg} {v : BitVec 32}
    (h : w'.regs = w.regs.out32 (chanAddr c' r) v) (hne : ¬ (c' = c ∧ r = .dac_setpt)) :
    w'.setpt c = w.setpt c := by
  rw [World.setpt, h, RegFile.out32_chan, if_neg fun hh => hne ⟨hh.1.symm, hh.2.symm⟩, World.setpt]

theorem mode_of_out32 {w' : World ram cordic} {c' : Chan} {r : ChanReg} {v : BitVec 32}
    (h : w'.regs = w.regs.out32 (chanAddr c' r) v) (hne : r ≠ .dac_opmode) :
    w'.mode c = w.mode c := by
  rw [World.mode, h, RegFile.out32_chan, if_neg fun hh => hne hh.2.symm, World.mode]

/-- The registers that the output path of a channel reads keep their values. -/
structure SameOut (rf rf' : RegFile) (c : Chan) : Prop where
  glob : rf'.glob = rf.glob
  offset : rf'.chan c .dac_setpt_offset = rf.chan c .dac_setpt_offset
  gain : rf'.chan c .dac_setpt_gain = rf.chan c .dac_setpt_gain

/-- A gain stage that holds the results for its input keeps them. -/
theorem gain_step_of_flat {g : GainOffset.Stage} (tick : Bool) {numbits : Bool} {raw : BitVec 20}
    {d : DacCntrl} (hoc : g.dac_setpt_oc = raw - d.offset)
    (hfs : g.dac_setpt_fs = sresize 44 g.dac_setpt_oc * sresize 44 d.gain)
    (hset : g.dac_setpt = g.dac_setpt_fs.extractLsb' 20 20)
    (hsat : if numbits then g.dac_setpt.msb = g.dac_setpt_oc.msb
      else -131072 ≤ g.dac_setpt.toInt ∧ g.dac_setpt.toInt ≤ 131071) :
    (GainOffset.step g false tick numbits raw d).dac_setpt_oc = g.dac_setpt_oc ∧
      (GainOffset.step g false tick numbits raw d).dac_setpt_fs = g.dac_setpt_fs ∧
      (GainOffset.step g false tick numbits raw d).dac_setpt = g.dac_setpt := by
  have hkeep : GainOffset.saturate numbits g = g := GainOffset.saturate_of_fits hsat
  simp only [GainOffset.step, Bool.false_eq_true, if_false]
  cases hst : g.state
  case IDLE => cases tick <;> exact ⟨rfl, rfl, rfl⟩
  case APPLY_OFFSETS => exact ⟨hoc.symm, rfl, rfl⟩
  case APPLY_GAINS => exact ⟨rfl, hfs.symm, rfl⟩
  case SCALE => exact ⟨rfl, rfl, hset.symm⟩
  case CHECKFORSAT => simp only [hkeep, and_self]
  case MULT_DLY => simp only []; split <;> exact ⟨rfl, rfl, rfl⟩

/-- The output path stays settled while the ramp is at rest in smooth mode. -/
theorem Settled.step (h : Settled w c) (hrest : AtRest w c) (hmode : w.mode c = 0)
    (hlin : LinearSel w)
    (hout : SameOut w.regs (w.step e i).regs c) :
    Settled (w.step e i) c ∧
      ((w.step e i).hw.chan c).gain.dac_setpt = (w.hw.chan c).gain.dac_setpt := by
  obtain ⟨hoc, hfs, hset⟩ := gain_step_of_flat (g := (w.hw.chan c).gain) i.tenkhz_trig
    (d := DacCtrlr.dacCntrl w.hw (w.hwIn i) c) h.oc h.fs h.dac_setpt h.sat
  change ((w.step e i).hw.chan c).gain.dac_setpt_oc = _ at hoc
  change ((w.step e i).hw.chan c).gain.dac_setpt_fs = _ at hfs
  change ((w.step e i).hw.chan c).gain.dac_setpt = _ at hset
  have hraw : ((w.step e i).hw.chan c).dac_setpt_raw = (w.hw.chan c).dac_setpt_raw := by
    show (if i.tenkhz_trig then (w.hw.chan c).modeSetpt (DacCtrlr.chanIn w.hw (w.hwIn i) c)
      else (w.hw.chan c).dac_setpt_raw) = _
    have hsel : (w.hw.chan c).modeSetpt (DacCtrlr.chanIn w.hw (w.hwIn i) c) =
        (w.ramp c).rampout := by
      have hm : (DacCtrlr.chanIn w.hw (w.hwIn i) c).dac_cntrl.mode = 0b00#2 := hmode
      have hl : (DacCtrlr.chanIn w.hw (w.hwIn i) c).smoothramp_type = false := hlin
      rw [DacChan.modeSetpt, if_pos hm, DacChan.smooth_dac_setpt, hl]
      rfl
    rw [hsel, ← h.raw, ite_self]
  have hwlim : ((w.step e i).hw.chan c).dac_setpt_wlim = (w.hw.chan c).gain.dac_setpt :=
    if_neg h.polarity
  have hrdbk : ((w.step e i).hw.chan c).dac_data_rdbk = (w.hw.chan c).gain.dac_setpt := by
    show (if (w.regs.glob .resolution).getLsbD 0 then (w.hw.chan c).dac_setpt_wlim
      else sresize 20 ((w.hw.chan c).dac_setpt_wlim.extractLsb' 0 18)) = _
    rw [h.wlim]
    exact h.bits
  refine ⟨?_, hset⟩
  constructor
  · rw [hraw, rampout_step_of_rest hrest]
    exact h.raw
  · rw [hoc, hraw, hout.offset]
    exact h.oc
  · rw [hfs, hoc, hout.gain]
    exact h.fs
  · rw [hset, hfs]
    exact h.dac_setpt
  · rw [hset, hoc, hout.glob]
    exact h.sat
  · rw [hwlim, hset]
  · rw [hset, PsIo.digCntrl, hout.glob]
    exact h.polarity
  · rw [hrdbk, hset]
  · rw [hset, hout.glob]
    exact h.bits

theorem Settled.currsetpt_step (h : Settled w c) (hrest : AtRest w c) (hmode : w.mode c = 0)
    (hlin : LinearSel w)
    (hout : SameOut w.regs (w.step e i).regs c) :
    (w.step e i).currsetpt c = w.currsetpt c := by
  obtain ⟨h', hset⟩ := h.step (e := e) (i := i) hrest hmode hlin hout
  show ((w.step e i).hw.chan c).dac_data_rdbk = (w.hw.chan c).dac_data_rdbk
  rw [h'.rdbk, h.rdbk, hset]

/-! ## The parameters of a command -/

/-- With the parameters in the registers a run from `cur` ends at the setpoint register, up to
rounding. -/
def LandsNear (rf : RegFile) (c : Chan) (cur : BitVec 20) : Prop :=
  ∃ err : ℤ,
    (rampParams rf c).level (startLevel cur) (rampParams rf c).last =
      startLevel (rf.chan c .dac_setpt) + err ∧
    2 * |err| ≤ (rampParams rf c).curved_len.toNat ^ 2 + (rampParams rf c).linear_len.toNat

/-- The registers of a parameter of the linear ramp. -/
def IsParam : ChanReg → Prop
  | .dac_smooth_linear_len | .dac_smooth_curved_len | .dac_smooth_dy_lo | .dac_smooth_dy_hi
  | .dac_smooth_dy_per_pt_lo | .dac_smooth_dy_per_pt_hi => True
  | _ => False

/-- The writes of a usable ramp: the parameters, then the setpoint, and they make it land. -/
theorem writes_of_usable {s : SmoothEnv} {cur new : BitVec 20} {r : LinearSmooth}
    (hr : linearSmooth s cur.toInt new.toInt = some r) (hu : Usable cur.toInt new.toInt r)
    (rf : RegFile) (c : Chan) :
    ∃ init v, Calc_WriteLinearSmooth s cur.toInt new.toInt = some (init ++ [(.dac_setpt, v)]) ∧
      (∀ x ∈ init, IsParam x.1) ∧
      LandsNear (writeRegs rf c (init ++ [(.dac_setpt, v)])) c cur := by
  obtain ⟨dy, dypp, hws, hlevel⟩ := calc_write_shape hr
  obtain ⟨hp, hv⟩ := rampParams_writeRegs rf c r.linear_pts r.curved_pts dy dypp
    (BitVec.ofInt 32 new.toInt)
  have hcut := hu.curved
  have hlin := hu.linear
  have hlands : LandsNear (writeRegs rf c
      (smoothWrites r.linear_pts r.curved_pts dy dypp (BitVec.ofInt 32 new.toInt))) c cur := by
    refine ⟨drift (new.toInt - cur.toInt) r.curved_pts.toNat r.linear_pts.toNat, ?_, ?_⟩
    · rw [hp, hv.trans (setWidth_ofInt_toInt new), hlevel,
        travel_eq_drift hu.short (by push_cast; linarith) (by push_cast; omega), startLevel,
        startLevel]
      ring
    · rw [hp]
      exact two_mul_abs_drift_le (linearSmooth_eq hr).1
  refine ⟨(smoothWrites r.linear_pts r.curved_pts dy dypp (BitVec.ofInt 32 new.toInt)).take 6,
    BitVec.ofInt 32 new.toInt, hws, ?_, hlands⟩
  simp [smoothWrites, IsParam]

/-! ## The software -/

/-- The writes that are left for channel `c` are harmless: they change the mode only, or keep the
setpoint, or are those of a usable ramp. -/
def WritesOk (w : World ram cordic) (c : Chan) (ws : List (ChanReg × BitVec 32)) : Prop :=
  (∀ x ∈ ws, x.1 = .dac_opmode ∨ x.1 = .fofb_scalefactor) ∨
  (∃ v : BitVec 32, ws = [(.dac_setpt, v)] ∧ v.setWidth 20 = w.setpt c) ∨
  ∃ init v, ws = init ++ [(.dac_setpt, v)] ∧ (∀ x ∈ init, IsParam x.1) ∧ w.mode c = 0 ∧
    AtRest w c ∧ Settled w c ∧ LandsNear (writeRegs w.regs c ws) c (w.hw.chan c).gain.dac_setpt

/-- What the software is about to do for channel `c` is harmless. -/
def SwOk (e : Env) (w : World ram cordic) (c : Chan) : Stage → Prop
  | .idle => True
  | .mode c' amps => c' = c → SetptOk e w c amps
  | .polarity c' amps dac_mode => c' = c → dac_mode = (w.mode c).setWidth 32 ∧ SetptOk e w c amps
  | .cur c' new => c' = c → w.mode c = 0 ∧ SmoothOk e w c new ∧ -2 ^ 19 ≤ new ∧ new < 2 ^ 19
  | .dipole c' new cur => c' = c → w.mode c = 0 ∧ SmoothOk e w c new ∧ -2 ^ 19 ≤ new ∧
      new < 2 ^ 19 ∧ cur = (w.currsetpt c).toInt
  | .writes c' ws => c' = c → WritesOk w c ws
  | .undefined => True

/-- The software writes at most one register in a clock. -/
theorem swStep_regs (e : Env) (w : World ram cordic) (a : SwAct) :
    (w.swStep e a).2 = w.regs ∨
      ∃ c' x ws, w.sw = .writes c' (x :: ws) ∧ (w.swStep e a).1 = .writes c' ws ∧
        (w.swStep e a).2 = w.regs.out32 (chanAddr c' x.1) x.2 := by
  cases a with
  | none => exact Or.inl rfl
  | command cmd =>
    left
    rw [World.swStep]
    cases w.sw <;> rfl
  | access =>
    simp only [World.swStep]
    cases hsw : w.sw with
    | idle => exact Or.inl rfl
    | mode c' amps => exact Or.inl rfl
    | polarity c' amps m =>
      left
      simp only [access]
      split
      · rfl
      · split_ifs <;> rfl
    | cur c' n => exact Or.inl rfl
    | dipole c' n cur =>
      left
      simp only [access]
      split <;> rfl
    | writes c' ws =>
      cases ws with
      | nil => exact Or.inl rfl
      | cons x ws => exact Or.inr ⟨c', x, ws, rfl, rfl, rfl⟩
    | undefined => exact Or.inl rfl

theorem sameOut_of_eq {rf rf' : RegFile} (h : rf' = rf) : SameOut rf rf' c := by
  rw [h]
  exact ⟨rfl, rfl, rfl⟩

theorem sameOut_out32 {rf : RegFile} {c' : Chan} {r : ChanReg} {v : BitVec 32}
    (h : c' = c → r ≠ .dac_setpt_offset ∧ r ≠ .dac_setpt_gain) :
    SameOut rf (rf.out32 (chanAddr c' r) v) c := by
  refine ⟨funext fun g => RegFile.out32_glob rf c' r v g, ?_, ?_⟩
  · rw [RegFile.out32_chan, if_neg fun hh => (h hh.1.symm).1 hh.2.symm]
  · rw [RegFile.out32_chan, if_neg fun hh => (h hh.1.symm).2 hh.2.symm]

theorem SmoothOk.step {new : ℤ} (h : SmoothOk e w c new) (hmode : w.mode c = 0)
    (hlin : LinearSel w) (hregs : (w.step e i).regs = w.regs) :
    SmoothOk e (w.step e i) c new := by
  have hset := setpt_of_regs (c := c) hregs
  have hcur := h.settled.currsetpt_step (e := e) (i := i) h.rest hmode hlin (sameOut_of_eq hregs)
  refine ⟨h.rest.step hset, (h.settled.step h.rest hmode hlin (sameOut_of_eq hregs)).1, ?_⟩
  rw [hregs, hcur]
  exact h.usable

theorem SetptOk.step {amps : ℚ} (h : SetptOk e w c amps)
    (hlin : LinearSel w) (hregs : (w.step e i).regs = w.regs) :
    SetptOk e (w.step e i) c amps := by
  obtain ⟨new, hnew, hjump, hsmooth⟩ := h
  have hset := setpt_of_regs (c := c) hregs
  have hmode := mode_of_regs (c := c) hregs
  refine ⟨new, by rw [hregs]; exact hnew, ?_, ?_⟩
  · rw [hmode, hset]
    exact hjump
  · rw [hmode]
    exact fun hm => (hsmooth hm).step hm hlin hregs

theorem WritesOk.head {x : ChanReg × BitVec 32} {ws : List (ChanReg × BitVec 32)}
    (h : WritesOk w c (x :: ws)) : x.1 ≠ .dac_setpt_offset ∧ x.1 ≠ .dac_setpt_gain := by
  rcases h with h | ⟨v, hws, -⟩ | ⟨init, v, hws, hinit, -⟩
  · rcases h x (List.mem_cons_self ..) with hx | hx <;> rw [hx] <;> decide
  · rw [(List.cons.inj hws).1]
    simp
  · cases init with
    | nil =>
      rw [(List.cons.inj hws).1]
      simp
    | cons y init =>
      rw [(List.cons.inj hws).1]
      have hy := hinit y (List.mem_cons_self ..)
      constructor <;> rintro hy' <;> rw [hy'] at hy <;> exact hy

/-- No access touches what the output path reads. -/
theorem sameOut_step (h : SwOk e w c w.sw) : SameOut w.regs (w.step e i).regs c := by
  rcases swStep_regs e w i.sw with hregs | ⟨c', x, ws, hsw, -, hregs⟩
  · exact sameOut_of_eq hregs
  · show SameOut w.regs (w.swStep e i.sw).2 c
    rw [hregs]
    refine sameOut_out32 ?_
    intro hc'
    rw [hsw] at h
    exact (h hc').head

theorem WritesOk.keep {ws : List (ChanReg × BitVec 32)} (h : WritesOk w c ws)
    (hlin : LinearSel w) (hregs : (w.step e i).regs = w.regs) :
    WritesOk (w.step e i) c ws := by
  have hset := setpt_of_regs (c := c) hregs
  have hmode := mode_of_regs (c := c) hregs
  rcases h with h | ⟨v, hws, hv⟩ | ⟨init, v, hws, hinit, hm, hrest, hsettled, hlands⟩
  · exact Or.inl h
  · exact Or.inr (Or.inl ⟨v, hws, by rw [hset]; exact hv⟩)
  · obtain ⟨hsettled', hgain⟩ := hsettled.step (e := e) (i := i) hrest hm hlin (sameOut_of_eq hregs)
    refine Or.inr (Or.inr ⟨init, v, hws, hinit, hmode.trans hm, hrest.step hset, hsettled', ?_⟩)
    rw [hregs, hgain]
    exact hlands

theorem WritesOk.tail {x : ChanReg × BitVec 32} {ws : List (ChanReg × BitVec 32)}
    (h : WritesOk w c (x :: ws)) (hlin : LinearSel w)
    (hregs : (w.step e i).regs = w.regs.out32 (chanAddr c x.1) x.2) :
    WritesOk (w.step e i) c ws := by
  have hout : SameOut w.regs (w.step e i).regs c := by
    rw [hregs]
    exact sameOut_out32 fun _ => h.head
  rcases h with h | ⟨v, hws, -⟩ | ⟨init, v, hws, hinit, hm, hrest, hsettled, hlands⟩
  · exact Or.inl fun y hy => h y (List.mem_cons_of_mem x hy)
  · rw [(List.cons.inj hws).2]
    exact Or.inl fun y hy => absurd hy List.not_mem_nil
  · cases init with
    | nil =>
      rw [(List.cons.inj hws).2]
      exact Or.inl fun y hy => absurd hy List.not_mem_nil
    | cons y init =>
      -- a parameter is written: the registers of mode and setpoint keep their values
      obtain ⟨rfl, rfl⟩ := List.cons.inj hws
      have hx := hinit x (List.mem_cons_self ..)
      have hmode : (w.step e i).mode c = w.mode c := by
        refine mode_of_out32 hregs ?_
        intro hx'
        rw [hx'] at hx
        exact hx
      have hset : (w.step e i).setpt c = w.setpt c := by
        refine setpt_of_out32 hregs ?_
        intro hx'
        rw [hx'.2] at hx
        exact hx
      obtain ⟨hsettled', hgain⟩ := hsettled.step (e := e) (i := i) hrest hm hlin hout
      refine Or.inr (Or.inr ⟨init, v, rfl, fun y hy => hinit y (List.mem_cons_of_mem x hy),
        hmode.trans hm, hrest.step hset, hsettled', ?_⟩)
      rw [hregs, hgain]
      exact hlands

theorem swOk_keep (hlin : LinearSel w) (h : SwOk e w c w.sw)
    (hregs : (w.step e i).regs = w.regs) : SwOk e (w.step e i) c w.sw := by
  have hmode := mode_of_regs (c := c) hregs
  cases hst : w.sw <;> rw [hst] at h
  case idle => trivial
  case mode c' amps => exact fun hc' => (h hc').step hlin hregs
  case polarity c' amps m =>
    intro hc'
    obtain ⟨hm, hok⟩ := h hc'
    exact ⟨by rw [hmode]; exact hm, hok.step hlin hregs⟩
  case cur c' n =>
    intro hc'
    obtain ⟨hm, hok, hn⟩ := h hc'
    exact ⟨hmode.trans hm, hok.step hm hlin hregs, hn⟩
  case dipole c' n cur =>
    intro hc'
    obtain ⟨hm, hok, hn1, hn2, hcur⟩ := h hc'
    refine ⟨hmode.trans hm, hok.step hm hlin hregs, hn1, hn2, ?_⟩
    rw [hok.settled.currsetpt_step hok.rest hm hlin (sameOut_of_eq hregs)]
    exact hcur
  case writes c' ws => exact fun hc' => (h hc').keep hlin hregs
  case undefined => trivial

theorem setWidth_mode_inj {m m' : BitVec 2} (h : m.setWidth 32 = m'.setWidth 32) : m = m' := by
  revert m m'
  decide

/-- Mode commands write the mode, and in FOFB mode the scale factor. -/
theorem opmode_regs {m : BitVec 32} {x : ChanReg × BitVec 32} (hx : x ∈ Set_dacOpmode e c m) :
    x.1 = .dac_opmode ∨ x.1 = .fofb_scalefactor := by
  simp only [Set_dacOpmode] at hx
  split_ifs at hx <;> simp only [List.mem_cons, List.not_mem_nil, or_false] at hx
  · exact Or.inl (by rw [hx])
  · rcases hx with hx | hx
    · exact Or.inr (by rw [hx])
    · exact Or.inl (by rw [hx])
  · exact Or.inl (by rw [hx])

theorem swOk_polarity {amps : ℚ} {m : BitVec 32} (ha : i.sw = .access)
    (hsw : w.sw = .polarity c amps m)
    (hbits : DacBits e)
    (hlin : LinearSel w)
    (hm : m = (w.mode c).setWidth 32) (hok : SetptOk e w c amps) :
    SwOk e (w.step e i) c (w.step e i).sw := by
  obtain ⟨new, hnew, hjump, hsmooth⟩ := hok
  obtain ⟨hr1, hr2⟩ := newSetpt_range hbits hnew
  have hstep : w.swStep e i.sw =
      if m = SMOOTH then (.cur c new, w.regs)
      else if m = JUMP then (.writes c [(.dac_setpt, BitVec.ofInt 32 new)], w.regs)
      else (.idle, w.regs) := by
    rw [ha, World.swStep, hsw, access, hnew]
  have hregs : (w.step e i).regs = w.regs := by
    show (w.swStep e i.sw).2 = _
    rw [hstep]
    split_ifs <;> rfl
  have hmode := mode_of_regs (c := c) hregs
  have hset := setpt_of_regs (c := c) hregs
  show SwOk e (w.step e i) c (w.swStep e i.sw).1
  rw [hstep]
  by_cases h0 : m = SMOOTH
  · rw [if_pos h0]
    have hm0 : w.mode c = 0 := setWidth_mode_inj (hm.symm.trans h0)
    exact fun _ => ⟨hmode.trans hm0, (hsmooth hm0).step hm0 hlin hregs, hr1, hr2⟩
  · rw [if_neg h0]
    by_cases h3 : m = JUMP
    · rw [if_pos h3]
      have hm3 : w.mode c = 3 := setWidth_mode_inj (hm.symm.trans h3)
      refine fun _ => Or.inr (Or.inl ⟨_, rfl, ?_⟩)
      rw [hset, setWidth_ofInt (by decide)]
      exact hjump hm3
    · rw [if_neg h3]
      trivial

theorem swOk_dipole {new cur : ℤ} (ha : i.sw = .access) (hsw : w.sw = .dipole c new cur)
    (hlinear : e.smoothramp_type ≠ 1)
    (hlin : LinearSel w) (hm : w.mode c = 0)
    (hok : SmoothOk e w c new) (hn : -2 ^ 19 ≤ new) (hn' : new < 2 ^ 19)
    (hcur : cur = (w.currsetpt c).toInt) : SwOk e (w.step e i) c (w.step e i).sw := by
  obtain ⟨r, hr, hu⟩ := hok.usable
  have hnew : (BitVec.ofInt 20 new).toInt = new := by
    rw [BitVec.toInt_ofInt, Int.bmod_eq_of_le] <;> omega
  rw [← hnew] at hr hu
  obtain ⟨init, v, hws, hinit, hlands⟩ := writes_of_usable hr hu w.regs c
  have hstep : w.swStep e i.sw = (.writes c (init ++ [(.dac_setpt, v)]), w.regs) := by
    rw [ha, World.swStep, hsw, access, calcSmooth, if_neg hlinear, hcur]
    rw [hnew] at hws
    rw [hws]
  have hregs : (w.step e i).regs = w.regs := congrArg Prod.snd hstep
  have hset := setpt_of_regs (c := c) hregs
  have hmode := mode_of_regs (c := c) hregs
  obtain ⟨hsettled', hgain⟩ :=
    hok.settled.step (e := e) (i := i) hok.rest hm hlin (sameOut_of_eq hregs)
  show SwOk e (w.step e i) c (w.swStep e i.sw).1
  rw [hstep]
  refine fun _ => Or.inr (Or.inr ⟨init, v, rfl, hinit, hmode.trans hm, hok.rest.step hset,
    hsettled', ?_⟩)
  rw [hregs, hgain, ← hok.settled.rdbk]
  exact hlands

theorem swOk_access (ha : i.sw = .access)
    (hbits : DacBits e) (hlinear : e.smoothramp_type ≠ 1)
    (hlin : LinearSel w) (h : SwOk e w c w.sw) :
    SwOk e (w.step e i) c (w.step e i).sw := by
  have hnext : (w.step e i).sw = (access e w.regs w.currsetpt w.sw).1 := by
    show (w.swStep e i.sw).1 = _
    rw [ha]
    rfl
  have hregs : (w.step e i).regs = (access e w.regs w.currsetpt w.sw).2 := by
    show (w.swStep e i.sw).2 = _
    rw [ha]
    rfl
  cases hst : w.sw <;> rw [hst] at h hnext hregs
  case idle =>
    rw [hnext]
    trivial
  case mode c' amps =>
    have hmode := mode_of_regs (c := c) hregs
    rw [hnext]
    rintro rfl
    exact ⟨by rw [hmode]; rfl, (h rfl).step hlin hregs⟩
  case polarity c' amps m =>
    by_cases hc' : c' = c
    · subst hc'
      exact swOk_polarity ha hst hbits hlin (h rfl).1 (h rfl).2
    · rw [hnext, access]
      split
      · trivial
      · split_ifs
        · exact fun hh => absurd hh hc'
        · exact fun hh => absurd hh hc'
        · trivial
  case cur c' n =>
    rw [hnext]
    rintro rfl
    obtain ⟨hm, hok, hn1, hn2⟩ := h rfl
    have hmode := mode_of_regs (c := c') hregs
    refine ⟨hmode.trans hm, hok.step hm hlin hregs, hn1, hn2, ?_⟩
    rw [hok.settled.currsetpt_step hok.rest hm hlin (sameOut_of_eq hregs)]
  case dipole c' n cur =>
    by_cases hc' : c' = c
    · subst hc'
      obtain ⟨hm, hok, hn1, hn2, hcur⟩ := h rfl
      exact swOk_dipole ha hst hlinear hlin hm hok hn1 hn2 hcur
    · rw [hnext, access]
      split
      · trivial
      · exact fun hh => absurd hh hc'
  case writes c' ws =>
    cases ws with
    | nil =>
      rw [hnext]
      trivial
    | cons x ws =>
      rw [hnext]
      rintro rfl
      exact (h rfl).tail hlin hregs
  case undefined =>
    rw [hnext]
    trivial

theorem swOk_step (hbits : DacBits e) (hlinear : e.smoothramp_type ≠ 1)
    (hlin : LinearSel w) (h : SwOk e w c w.sw)
    (hcmd : ∀ cmd, w.sw = .idle → i.sw = .command cmd → CmdOk e w c cmd) :
    SwOk e (w.step e i) c (w.step e i).sw := by
  cases ha : i.sw with
  | none =>
    have hs : w.swStep e i.sw = (w.sw, w.regs) := by rw [ha]; rfl
    rw [show (w.step e i).sw = w.sw from congrArg Prod.fst hs]
    exact swOk_keep hlin h (congrArg Prod.snd hs)
  | access => exact swOk_access ha hbits hlinear hlin h
  | command cmd =>
    by_cases hidle : w.sw = .idle
    · have hs : w.swStep e i.sw = (cmd.start e, w.regs) := by rw [ha, World.swStep, hidle]
      have hregs : (w.step e i).regs = w.regs := congrArg Prod.snd hs
      rw [show (w.step e i).sw = cmd.start e from congrArg Prod.fst hs]
      have hok := hcmd cmd hidle ha
      cases cmd with
      | DAC_SETPT c' amps => exact fun hc' => (hok hc').step hlin hregs
      | DAC_OPMODE c' m => exact fun _ => Or.inl fun x hx => opmode_regs hx
    · have hs : w.swStep e i.sw = (w.sw, w.regs) := by
        rw [ha, World.swStep]
        cases hst : w.sw <;> first | rfl | exact absurd hst hidle
      rw [show (w.step e i).sw = w.sw from congrArg Prod.fst hs]
      exact swOk_keep hlin h (congrArg Prod.snd hs)

/-! ## The ramp -/

/-- The registers that a ramp under way reads: its parameters and its target. -/
structure SameRamp (rf rf' : RegFile) (c : Chan) : Prop where
  params : rampParams rf' c = rampParams rf c
  setpt : rf'.chan c .dac_setpt = rf.chan c .dac_setpt

theorem sameRamp_of_eq {rf rf' : RegFile} (h : rf' = rf) : SameRamp rf rf' c := by
  rw [h]
  exact ⟨rfl, rfl⟩

theorem sameRamp_out32 {rf : RegFile} {c' : Chan} {r : ChanReg} {v : BitVec 32}
    (h : c' = c → ¬ IsParam r ∧ r ≠ .dac_setpt) : SameRamp rf (rf.out32 (chanAddr c' r) v) c := by
  have hkeep : ∀ r', (IsParam r' ∨ r' = .dac_setpt) →
      (rf.out32 (chanAddr c' r) v).chan c r' = rf.chan c r' := by
    intro r' hr'
    rw [RegFile.out32_chan, if_neg]
    rintro ⟨hc, rfl⟩
    obtain ⟨h1, h2⟩ := h hc.symm
    exact hr'.elim h1 h2
  refine ⟨?_, hkeep _ (Or.inr rfl)⟩
  simp only [rampParams]
  rw [hkeep .dac_smooth_linear_len (Or.inl trivial), hkeep .dac_smooth_curved_len (Or.inl trivial),
    hkeep .dac_smooth_dy_hi (Or.inl trivial), hkeep .dac_smooth_dy_lo (Or.inl trivial),
    hkeep .dac_smooth_dy_per_pt_hi (Or.inl trivial),
    hkeep .dac_smooth_dy_per_pt_lo (Or.inl trivial)]

theorem sameRamp_same {rf : RegFile} {v : BitVec 32} (h : v.setWidth 20 = rf.chan c .dac_setpt) :
    SameRamp rf (rf.out32 (chanAddr c .dac_setpt) v) c := by
  have hchan : (rf.out32 (chanAddr c .dac_setpt) v).chan c = rf.chan c := by
    funext r
    rw [RegFile.out32_chan]
    by_cases hr : r = .dac_setpt
    · subst hr
      rw [if_pos ⟨rfl, rfl⟩]
      exact h
    · rw [if_neg fun hh => hr hh.2]
  constructor
  · simp only [rampParams, hchan]
  · rw [hchan]

/-- While the ramp is not at rest no access touches what it reads. -/
theorem sameRamp_step (h : SwOk e w c w.sw) (hrest : ¬ AtRest w c) :
    SameRamp w.regs (w.step e i).regs c := by
  rcases swStep_regs e w i.sw with hregs | ⟨c', x, ws, hsw, -, hregs⟩
  · exact sameRamp_of_eq hregs
  · show SameRamp w.regs (w.swStep e i.sw).2 c
    rw [hregs]
    by_cases hc' : c' = c
    · subst hc'
      rw [hsw] at h
      rcases h rfl with hmode | ⟨v, hws, hv⟩ | ⟨init, v, -, -, -, hr, -⟩
      · refine sameRamp_out32 ?_
        intro _
        rcases hmode x (List.mem_cons_self ..) with hx | hx <;> rw [hx] <;> simp [IsParam]
      · rw [(List.cons.inj hws).1]
        exact sameRamp_same hv
      · exact absurd hr hrest
    · exact sameRamp_out32 fun hh => absurd hh hc'

section Runs

variable {inp : ℕ → World.In} {t : ℕ}

/-- The ramp is at rest, and shows the setpoint register up to rounding. -/
def Resting (e : Env) (w : World ram cordic) (inp : ℕ → World.In) (c : Chan) (t : ℕ) : Prop :=
  AtRest (at_ e w inp t) c ∧ ∃ err, Rounding e w inp c t err ∧
    ((at_ e w inp t).ramp c).setpt_last =
      BitVec.ofInt 96 (startLevel ((at_ e w inp t).setpt c) + err)

/-- The setpoint register has changed, with the parameters for it. -/
structure Armed (w : World ram cordic) (c : Chan) : Prop where
  idle : (w.ramp c).state = .IDLE
  changed : (w.ramp c).new_setpt_prev ≠ w.setpt c
  mode : w.mode c = 0
  lands : LandsNear w.regs c (w.hw.chan c).gain.dac_setpt
  sw : w.sw = .writes c []

/-- The ramp that started at clock `t0` is under way. -/
structure Under (e : Env) (w : World ram cordic) (inp : ℕ → World.In) (c : Chan) (t t0 : ℕ) :
    Prop where
  lt : t0 < t
  started : Started e w inp c t0
  since : ∀ u, t0 < u → u < t → ¬ Started e w inp c u
  state : ((at_ e w inp t).ramp c).state ≠ .IDLE
  target : ((at_ e w inp t).ramp c).new_setpt_prev = (at_ e w inp t).setpt c
  params : rampParams (at_ e w inp t).regs c = rampParams (at_ e w inp t0).regs c
  lands : ∃ cur err, OnRamp (rampParams (at_ e w inp t).regs c) (startLevel cur)
      ((at_ e w inp t).ramp c) ∧
    (rampParams (at_ e w inp t).regs c).level (startLevel cur)
      (rampParams (at_ e w inp t).regs c).last = startLevel ((at_ e w inp t).setpt c) + err ∧
    2 * |err| ≤ (rampParams (at_ e w inp t).regs c).curved_len.toNat ^ 2 +
      (rampParams (at_ e w inp t).regs c).linear_len.toNat

/-- The invariant of the ramp. -/
def RampOk (e : Env) (w : World ram cordic) (inp : ℕ → World.In) (c : Chan) (t : ℕ) : Prop :=
  Resting e w inp c t ∨ Armed (at_ e w inp t) c ∨ ∃ t0, Under e w inp c t t0

theorem at_succ (t : ℕ) : at_ e w inp (t + 1) = (at_ e w inp t).step e (inp t) := rfl

theorem Rounding.succ {err : ℤ} (h : Rounding e w inp c t err) (hno : ¬ Started e w inp c t) :
    Rounding e w inp c (t + 1) err := by
  rcases h with ⟨t0, ht0, hst, hsince, herr⟩ | ⟨hnone, herr⟩
  · refine Or.inl ⟨t0, by omega, hst, ?_, herr⟩
    intro u hu hut
    rcases Nat.lt_succ_iff_lt_or_eq.mp hut with hlt | rfl
    · exact hsince u hu hlt
    · exact hno
  · refine Or.inr ⟨?_, herr⟩
    intro u hut
    rcases Nat.lt_succ_iff_lt_or_eq.mp hut with hlt | rfl
    · exact hnone u hlt
    · exact hno

/-- The setpoint register changes only with the last write of a usable ramp. -/
theorem armed_of_changed (hsw : SwOk e w c w.sw)
    (hlin : LinearSel w) (hrest : AtRest w c)
    (hset : (w.step e i).setpt c ≠ w.setpt c) : Armed (w.step e i) c := by
  have hout := sameOut_step (i := i) hsw
  rcases swStep_regs e w i.sw with hregs | ⟨c', x, ws, hst, hnext, hregs⟩
  · exact absurd (setpt_of_regs hregs) hset
  · change (w.step e i).regs = _ at hregs
    obtain ⟨rfl, hx⟩ : c' = c ∧ x.1 = .dac_setpt := by
      by_contra hno
      exact hset (setpt_of_out32 hregs hno)
    rw [hst] at hsw
    rcases hsw rfl with hmode | ⟨v, hws, hv⟩ | ⟨init, v, hws, hinit, hm, -, hsettled, hlands⟩
    · rcases hmode x (List.mem_cons_self ..) with h | h <;> rw [hx] at h <;> cases h
    · refine absurd ?_ hset
      rw [World.setpt, hregs, (List.cons.inj hws).1, RegFile.out32_chan, if_pos ⟨rfl, rfl⟩]
      exact hv
    · cases init with
      | cons y init =>
        have hy := hinit y (List.mem_cons_self ..)
        rw [← (List.cons.inj hws).1, hx] at hy
        exact hy.elim
      | nil =>
        obtain ⟨rfl, rfl⟩ := List.cons.inj hws
        have hmode := mode_of_out32 (c := c') hregs (show ChanReg.dac_setpt ≠ .dac_opmode by decide)
        obtain ⟨-, hgain⟩ := hsettled.step (e := e) (i := i) hrest hm hlin hout
        refine ⟨?_, ?_, hmode.trans hm, ?_, hnext⟩
        · rw [ramp_step_of_rest hrest]
          exact hrest.1
        · rw [ramp_step_of_rest hrest]
          exact fun h => hset (h.symm.trans hrest.2)
        · rw [hregs, hgain]
          exact hlands

/-- From rest the ramp stays at rest, or the setpoint register changes. -/
theorem resting_step (hsw : SwOk e (at_ e w inp t) c (at_ e w inp t).sw)
    (hlin : LinearSel (at_ e w inp t))
    (h : Resting e w inp c t) : RampOk e w inp c (t + 1) := by
  obtain ⟨hrest, err, herr, hlast⟩ := h
  have hramp := ramp_step_of_rest (e := e) (i := inp t) hrest
  rw [← at_succ] at hramp
  have hidle : ((at_ e w inp (t + 1)).ramp c).state = .IDLE := by rw [hramp]; exact hrest.1
  have hno : ¬ Started e w inp c t := fun hs => hs.2 hidle
  by_cases hset : (at_ e w inp (t + 1)).setpt c = (at_ e w inp t).setpt c
  · left
    refine ⟨hrest.step hset, err, herr.succ hno, ?_⟩
    rw [hset, hramp]
    exact hlast
  · exact Or.inr (Or.inl (armed_of_changed hsw hlin hrest hset))

theorem armed_step (hc : c ≠ .ps2) (h : Armed (at_ e w inp t) c) : Under e w inp c (t + 1) t := by
  have hregs : (at_ e w inp (t + 1)).regs = (at_ e w inp t).regs := by
    rcases swStep_regs e (at_ e w inp t) (inp t).sw with hregs | ⟨c', x, ws, hsw, -, -⟩
    · exact hregs
    · rw [h.sw] at hsw
      cases hsw
  obtain ⟨hon, hst⟩ := step_start (r := (at_ e w inp t).ramp c)
    (i := rampIn (at_ e w inp t) (inp t) c) (carries_rampIn hc) h.mode rfl rfl ⟨h.idle, h.changed⟩
  rw [← ramp_step (e := e), ← at_succ] at hon hst
  have hprev : ((at_ e w inp (t + 1)).ramp c).new_setpt_prev = (at_ e w inp t).setpt c := by
    rw [at_succ, ramp_step]
    exact new_setpt_prev_idle h.idle rfl
  obtain ⟨err, hlevel, herr⟩ := h.lands
  refine ⟨Nat.lt_succ_self t, ⟨h.idle, by rw [hst]; decide⟩,
    fun u h1 h2 => absurd h2 (by omega), by rw [hst]; decide, ?_, by rw [hregs],
    ((at_ e w inp t).hw.chan c).gain.dac_setpt, err, ?_⟩
  · rw [hprev, World.setpt, World.setpt, hregs]
  · rw [World.setpt, hregs]
    exact ⟨hon, hlevel, herr⟩

theorem under_step (hc : c ≠ .ps2) (hsw : SwOk e (at_ e w inp t) c (at_ e w inp t).sw) {t0 : ℕ}
    (h : Under e w inp c t t0) : RampOk e w inp c (t + 1) := by
  obtain ⟨hparams, hset⟩ := sameRamp_step (i := inp t) hsw fun hr => h.state hr.1
  rw [← at_succ] at hparams hset
  obtain ⟨cur, err, hon, hlevel, herr⟩ := h.lands
  have hon' := step_onRamp hon (carries_rampIn (i := inp t) hc) h.state
  rw [← ramp_step (e := e), ← at_succ] at hon'
  have hprev : ((at_ e w inp (t + 1)).ramp c).new_setpt_prev = (at_ e w inp (t + 1)).setpt c := by
    rw [at_succ, ramp_step, new_setpt_prev_step h.state rfl, ← at_succ, World.setpt, hset]
    exact h.target
  have hset' : (at_ e w inp (t + 1)).setpt c = (at_ e w inp t).setpt c := hset
  have hsince : ∀ u, t0 < u → u < t + 1 → ¬ Started e w inp c u := by
    intro u hu hut
    rcases Nat.lt_succ_iff_lt_or_eq.mp hut with hlt | rfl
    · exact h.since u hu hlt
    · exact fun hs => h.state hs.1
  by_cases hidle : ((at_ e w inp (t + 1)).ramp c).state = .IDLE
  · left
    refine ⟨⟨hidle, hprev⟩, err, Or.inl ⟨t0, Nat.lt_succ_of_lt h.lt, h.started, hsince, ?_⟩, ?_⟩
    · rw [← h.params]
      exact herr
    · obtain ⟨k, -, -, hlast, -, hat⟩ := hon'
      simp only [AtStep, hidle] at hat
      rw [hlast, hat, hlevel, hset']
  · refine Or.inr (Or.inr ⟨t0, Nat.lt_succ_of_lt h.lt, h.started, hsince, hidle, hprev,
      hparams.trans h.params, cur, err, ?_⟩)
    rw [hparams, hset']
    exact ⟨hon', hlevel, herr⟩

theorem glob_at (t : ℕ) : (at_ e w inp t).regs.glob = w.regs.glob := by
  induction t with
  | zero => rfl
  | succ t ih =>
    rw [← ih]
    rcases swStep_regs e (at_ e w inp t) (inp t).sw with hregs | ⟨c', x, ws, -, -, hregs⟩
    · exact congrArg RegFile.glob hregs
    · rw [at_succ]
      show ((at_ e w inp t).swStep e (inp t).sw).2.glob = _
      rw [hregs]
      exact funext fun g => RegFile.out32_glob _ c' x.1 x.2 g

theorem rampOk_at (hc : c ≠ .ps2) (hinit : Initial e w c) (hall : Allowed e w inp c) (t : ℕ) :
    SwOk e (at_ e w inp t) c (at_ e w inp t).sw ∧ RampOk e w inp c t := by
  induction t with
  | zero =>
    refine ⟨?_, Or.inl ⟨hinit.rest, 0, Or.inr ⟨fun u hu => absurd hu (Nat.not_lt_zero u), rfl⟩, ?_⟩⟩
    · rw [show (at_ e w inp 0).sw = .idle from hinit.sw]
      trivial
    · rw [add_zero]
      exact hinit.setpt_last
  | succ t ih =>
    obtain ⟨hsw, hramp⟩ := ih
    have hlin : LinearSel (at_ e w inp t) := by
      rw [LinearSel, glob_at]
      exact hinit.linear
    refine ⟨swOk_step hinit.bits hinit.linear_sw hlin hsw (hall t), ?_⟩
    rcases hramp with hrest | harmed | ⟨t0, hunder⟩
    · exact resting_step hsw hlin hrest
    · exact Or.inr (Or.inr ⟨t, armed_step hc harmed⟩)
    · exact under_step hc hsw hunder

/-- Smooth ramps converge in every run whose commands come when they may. -/
theorem converges_of_allowed (hc : c ≠ .ps2) (hinit : Initial e w c) (hall : Allowed e w inp c) :
    Converges e w inp c := by
  intro t hmode hidle hidle' _
  rcases (rampOk_at hc hinit hall t).2 with ⟨-, err, herr, hlast⟩ | harmed | ⟨t0, hunder⟩
  · refine ⟨err, herr, ?_⟩
    rw [Ramp.rampout, hlast]
    rfl
  · -- the ramp starts in the next clock
    exact absurd hidle' (armed_step hc harmed).state
  · exact absurd hidle hunder.state

end Runs

/-! ## Two commands -/

/-- All registers zero but for unity gain and the 20-bit DAC. -/
def unityRegs : RegFile where
  glob := fun g => if g = .resolution then 1#_ else 0#_
  chan := fun _ r => if r = .dac_setpt_gain then 0x100000#_ else 0#_

def unityWorld : World .blank .blank := ⟨DacCtrlr.configured, unityRegs, .idle⟩

def acting (a : SwAct) : World.In := ⟨true, fun _ => false, fun _ => false, false, fun _ => 0, a⟩

theorem initial_unity : Initial unityEnv unityWorld .ps1 := by
  constructor
  · exact ⟨rfl, rfl⟩
  · decide +kernel
  · rfl
  · decide +kernel
  · decide +kernel
  · exact Or.inr rfl

theorem settled_unity : Settled unityWorld .ps1 := by
  constructor <;> decide +kernel

/-- A command of 1 A to a settled channel. -/
theorem oneAmp_converges :
    Converges unityEnv unityWorld
      (fun t => acting (if t = 0 then .command (.DAC_SETPT .ps1 1) else .access)) .ps1 := by
  refine converges_of_allowed (by decide) initial_unity ?_
  intro t cmd _ hcmd
  by_cases h0 : t = 0
  · subst h0
    obtain rfl := SwAct.command.inj hcmd
    refine fun _ => ⟨52428, by decide +kernel, fun h => absurd h (by decide +kernel), ?_⟩
    intro _
    refine ⟨⟨rfl, rfl⟩, settled_unity, ⟨0, 4999, 52428 / 4999, 52428 / 4999 / 4999⟩,
      by decide +kernel, ?_⟩
    constructor <;> decide +kernel
  · simp only [acting, if_neg h0] at hcmd
    cases hcmd

/-- To jump mode, 1 A, and back to smooth mode. -/
def jumpCmds : ℕ → SwAct
  | 0 => .command (.DAC_OPMODE .ps1 JUMP)
  | 3 => .command (.DAC_SETPT .ps1 1)
  | 8 => .command (.DAC_OPMODE .ps1 SMOOTH)
  | _ => .access

/-- A command in jump mode is not taken back by smooth mode: the ramp stays at 0 with 52428 in the
setpoint register. -/
theorem jump_not_converges :
    Initial unityEnv unityWorld .ps1 ∧
      ¬ Converges unityEnv unityWorld (fun t => acting (jumpCmds t)) .ps1 := by
  refine ⟨initial_unity, ?_⟩
  intro h
  obtain ⟨err, herr, hout⟩ := h 11 (by decide +kernel) (by decide +kernel) (by decide +kernel)
    (by decide +kernel)
  have hidle : ∀ u < 12,
      ((at_ unityEnv unityWorld (fun t => acting (jumpCmds t)) u).ramp .ps1).state = .IDLE := by
    decide +kernel
  have h0 : err = 0 := by
    rcases herr with ⟨t0, ht0, hst, -⟩ | ⟨-, h0⟩
    · exact absurd (hidle (t0 + 1) (by omega)) hst.2
    · exact h0
  rw [h0] at hout
  revert hout
  decide +kernel

end Zpsc.Control
