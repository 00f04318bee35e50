import Zpsc.Adc.Proofs.DcctModuleProofs
import Zpsc.Adc.Proofs.MonModuleProofs
import Zpsc.Snapshot.Acquisition
import Zpsc.Snapshot.Proofs.ReadyProofs
import Zpsc.Timing.Proofs.NcoStepsProofs

/-!
# Every record holds the readings of the trigger before

The triggers leave time for the readings and for a prompt memory, so each finds the writer idle
(`ready`), and the words of its record are taken before the outputs of the ADC modules change.
-/

namespace Zpsc.Acquisition

open Bits Clocked
open AdcGainOffset (Dcct Mon Params)

variable {s : Regs} {inp : ℕ → In} {t u v : ℕ}

/-! ## The parts -/

/-- The inputs of the trigger generator. -/
def ncoIn (i : In) : Nco.In := ⟨i.pl_reset, i.nco_stepsize, i.onehz_trig⟩

theorem regs_sroc_gen (s : Regs) (inp : ℕ → In) (v : ℕ) :
    (regs s inp v).sroc_gen = trace Nco.clk s.sroc_gen (fun v => ncoIn (inp v)) v :=
  trace_proj Regs.sroc_gen (fun _ => ncoIn) (fun _ _ => rfl) s inp v

theorem regs_read_dcct_adcs (s : Regs) (inp : ℕ → In) (v : ℕ) :
    (regs s inp v).read_dcct_adcs = DcctModule.regs s.read_dcct_adcs (dcctInputs s inp) v :=
  trace_proj Regs.read_dcct_adcs dcctIn (fun _ _ => rfl) s inp v

theorem regs_read_mon_adcs (s : Regs) (inp : ℕ → In) (v : ℕ) :
    (regs s inp v).read_mon_adcs = MonModule.regs s.read_mon_adcs (monInputs s inp) v :=
  trace_proj Regs.read_mon_adcs monIn (fun _ _ => rfl) s inp v

/-- The writer from clock `t` on. -/
theorem regs_adc2ddr (s : Regs) (inp : ℕ → In) (t v : ℕ) :
    (regs s inp (t + v)).adc2ddr =
      trace AxiWrite.step (regs s inp t).adc2ddr (writeInputs s inp t) v := by
  have hinputs : (fun w => writeIn (trace step (regs s inp t) (fun v => inp (t + v)) w)
      (inp (t + w))) = writeInputs s inp t := by
    funext w
    rw [writeInputs, regs, regs, trace_add]
  rw [← hinputs, regs, trace_add, ← regs]
  exact trace_proj Regs.adc2ddr writeIn (fun _ _ => rfl) (regs s inp t) _ v

section Run

variable (h : Started s inp)
include h

/-! ## The triggers -/

theorem steps : Nco.Steps (fun v => ncoIn (inp v)) MAX_STEPSIZE := ⟨h.reset, h.no_reset, h.stepsize⟩

theorem trigger_eq (v : ℕ) :
    trigger s inp v = (trace Nco.clk .configured (fun v => ncoIn (inp v)) v).pulse_out := by
  rw [trigger, tenkhz_trig, regs_sroc_gen, h.sroc_gen]

theorem apart : TicksApart 1710 (trigger s inp) := by
  have hticks := Nco.ticksApart (steps h) (n := 1710) (by decide)
  intro t t' htt' ht ht'
  rw [trigger_eq h] at ht ht'
  exact hticks t t' htt' ht ht'

/-- No trigger comes in the first clocks. -/
theorem trigger_late (ht : trigger s inp t = true) : 3 ≤ t := by
  by_contra hlt
  rw [trigger_eq h, Nco.no_pulse_early (steps h) (by omega)] at ht
  cases ht

theorem trigger_pos (ht : trigger s inp t = true) : 0 < t := by
  have := trigger_late h ht
  omega

theorem dcct_paced : DcctModule.Paced (dcctInputs s inp) where
  reset := h.reset
  no_reset := h.no_reset
  apart := by
    intro t t' htt' ht ht'
    have hfar := apart h t t' htt' ht ht'
    rw [Ltc2376.PERIOD]
    omega

theorem mon_paced : MonModule.Paced (monInputs s inp) :=
  ⟨⟨h.reset, h.no_reset⟩, apart h⟩

/-! ## The writer -/

theorem noReset (ht : 0 < t) (w : AxiWrite) : AxiWrite.NoReset w (writeInputs s inp t) :=
  fun _ _ => h.no_reset _ (by omega)

/-- Without triggers the writer stays idle, and a trigger after that is seen. -/
theorem ready_quiet {n : ℕ} (ht : 0 < t) (htu : t < u)
    (hr : AxiWrite.Ready (regs s inp t).adc2ddr n)
    (hnone : ∀ v, t ≤ v → v < u → trigger s inp v = false) :
    AxiWrite.Ready (regs s inp u).adc2ddr n ∧ (regs s inp u).adc2ddr.prev_trigger = false := by
  induction u, htu using Nat.le_induction with
  | base => exact hr.quiet (h.no_reset t ht) (hnone t le_rfl (Nat.lt_succ_self t))
  | succ u htu ih =>
    exact (ih fun v hv hvu => hnone v hv (by omega)).1.quiet (h.no_reset u (by omega))
      (hnone u (by omega) (Nat.lt_succ_self u))

theorem accepts_of_ready {n : ℕ} (ht : trigger s inp t = true)
    (hr : AxiWrite.Ready (regs s inp t).adc2ddr n)
    (hprev : (regs s inp t).adc2ddr.prev_trigger = false) :
    AxiWrite.Accepts (regs s inp t).adc2ddr (writeInputs s inp t 0) :=
  ⟨hr.idle, ht, hprev, h.no_reset t (trigger_pos h ht)⟩

/-- A burst is over before the next trigger. -/
theorem burst_ends {n : ℕ} (ht : trigger s inp t = true) (hmem : Prompt s inp t)
    (hr : AxiWrite.Ready (regs s inp t).adc2ddr n)
    (hprev : (regs s inp t).adc2ddr.prev_trigger = false) :
    ∃ T ≤ 1691, AxiWrite.Running (regs s inp t).adc2ddr (writeInputs s inp t) T ∧
      AxiWrite.Completes (regs s inp t).adc2ddr (writeInputs s inp t) T ∧
      AxiWrite.Ready (regs s inp (t + (T + 1))).adc2ddr (n + 1) := by
  have hacc := accepts_of_ready h ht hr hprev
  have hres := noReset h (trigger_pos h ht) (regs s inp t).adc2ddr
  obtain ⟨T₀, hT₀, hn, hb⟩ := hmem.ends
  obtain ⟨T, hT, hrun, hc⟩ := AxiWrite.completes_by hacc hr.wvalid hres hn hb
  refine ⟨T, hT.trans hT₀, hrun, hc, ?_⟩
  rw [regs_adc2ddr]
  exact hr.burst hacc hres hrun hc

/-- The number of triggers before clock `t`. -/
def triggers (s : Regs) (inp : ℕ → In) (t : ℕ) : ℕ := Nat.count (fun v => trigger s inp v = true) t

omit h in
theorem triggers_next (htu : t < u) (ht : trigger s inp t = true)
    (hnone : ∀ v, t < v → v < u → trigger s inp v = false) :
    triggers s inp u = triggers s inp t + 1 := by
  induction u, htu using Nat.le_induction with
  | base => rw [triggers, Nat.succ_eq_add_one, Nat.count_succ, if_pos ht, triggers]
  | succ u htu ih =>
    have hu : ¬ trigger s inp u = true := by
      rw [hnone u htu (Nat.lt_succ_self u)]
      exact Bool.false_ne_true
    rw [triggers, Nat.count_succ, if_neg hu, ← ih fun v hv hvu => hnone v hv (by omega)]
    rfl

/-- Every trigger finds the writer idle at its slot. -/
theorem ready (hmem : ∀ t, trigger s inp t = true → Prompt s inp t) (ht : trigger s inp t = true) :
    AxiWrite.Ready (regs s inp t).adc2ddr (triggers s inp t) ∧
      (regs s inp t).adc2ddr.prev_trigger = false := by
  induction t using Nat.strong_induction_on with
  | _ t ih =>
    rcases exists_last_tick (trigger s inp) t with hnone | ⟨t', ht', htrig, hbetween⟩
    · -- the first trigger
      have hcount : triggers s inp t = 0 := by
        rw [triggers, Nat.count_iff_forall_not]
        intro v hv
        rw [hnone v hv]
        exact Bool.false_ne_true
      have hone : AxiWrite.Ready (regs s inp 1).adc2ddr 0 := by
        show AxiWrite.Ready (AxiWrite.step s.adc2ddr (writeIn s (inp 0))) 0
        rw [h.adc2ddr]
        exact AxiWrite.ready_reset h.reset
      have hlate := trigger_late h ht
      rw [hcount]
      exact ready_quiet h Nat.one_pos (by omega) hone fun v _ hv => hnone v hv
    · obtain ⟨hr, hprev⟩ := ih t' ht' htrig
      obtain ⟨T, hT, -, -, hready⟩ := burst_ends h htrig (hmem t' htrig) hr hprev
      have hfar := apart h t' t ht' htrig ht
      rw [triggers_next ht' htrig hbetween]
      exact ready_quiet h (by omega) (by omega) hready fun v hv hvt => hbetween v (by omega) hvt

/-! ## The readings -/

/-- The DCCT readings of a trigger at clock `t`. -/
def dcctReadings (s : Regs) (inp : ℕ → In) (t : ℕ) (c : Chan) : DcctAdcs :=
  let word := DcctModule.word s.read_dcct_adcs (dcctInputs s inp) t c
  ⟨DcctModule.calibrated (dcctInputs s inp) t c .dcct0 (word .dcct0),
    DcctModule.calibrated (dcctInputs s inp) t c .dcct1 (word .dcct1)⟩

/-- The monitor readings of a trigger at clock `t`. -/
def monReadings (s : Regs) (inp : ℕ → In) (t : ℕ) (c : Chan) : MonAdcsCal :=
  let e := MonModule.lastClock s.read_mon_adcs (monInputs s inp) t
  monAdcs fun q => MonModule.calibrated (monInputs s inp) e c q
    (MonModule.words s.read_mon_adcs (monInputs s inp) e c q)

theorem readAt (ht : trigger s inp t = true) :
    ReadAt s inp t (dcctReadings s inp t) (monReadings s inp t) := by
  have hpos := trigger_pos h ht
  have hconv := MonModule.converts (mon_paced h) s.read_mon_adcs hpos ht
  have hwords := DcctModule.words (dcct_paced h) s.read_dcct_adcs hpos ht
  have hreads := MonModule.reads (mon_paced h) s.read_mon_adcs hconv.conversion
  exact ⟨⟨_, hwords, fun _ => rfl⟩, _, _, hconv.ge, hconv.le, hreads, fun _ => rfl⟩

section Next

variable (ht : trigger s inp t = true) (ht' : trigger s inp u = true) (htu : t < u)
  (hnone : ∀ v, t < v → v < u → trigger s inp v = false)
include ht ht' htu hnone

omit h ht ht' htu in
/-- The next trigger is the first one after clock `t`. -/
theorem next_le {w : ℕ} (hw : t < w) (htrig : trigger s inp w = true) : u ≤ w := by
  by_contra hlt
  rw [hnone w hw (by omega)] at htrig
  cases htrig

/-- The DCCT readings of a trigger are out at the next one, and for 684 clocks after it. -/
theorem dcct_adcs_eq (hv : v ≤ 684) : (writeInputs s inp u v).dcct_adcs = dcctReadings s inp t := by
  have hfar := apart h t u htu ht ht'
  have hlast := Ltc2376.lastClock_bounds (fun v => DcctModule.adcIn .ps1 (dcctInputs s inp v)) t
  have hle : DcctModule.lastClock (dcctInputs s inp) t ≤ t + 725 := hlast.2
  funext c
  show DcctModule.dcct_out (regs s inp (u + v)).read_dcct_adcs c = _
  rw [regs_read_dcct_adcs]
  refine (DcctModule.out_eq (dcct_paced h) h.dcct_idle (trigger_pos h ht) ht (by omega) ?_).1 c
  intro w hw htrig
  have hge : w + 681 ≤ DcctModule.lastClock (dcctInputs s inp) w :=
    (Ltc2376.lastClock_bounds (fun v => DcctModule.adcIn .ps1 (dcctInputs s inp v)) w).1
  have := next_le hnone hw htrig
  omega

/-- The monitor readings of a trigger are out at the next one, and for 1690 clocks after it. -/
theorem mon_adcs_eq (hv : v ≤ 1690) : (writeInputs s inp u v).mon_adcs = monReadings s inp t := by
  have hfar := apart h t u htu ht ht'
  have hle := (MonModule.converts (mon_paced h) s.read_mon_adcs (trigger_pos h ht) ht).le
  funext c
  show monAdcs (MonModule.mon_adcs (regs s inp (u + v)).read_mon_adcs c) = _
  rw [regs_read_mon_adcs, monReadings]
  refine congrArg monAdcs (funext ?_)
  refine (MonModule.out_eq (mon_paced h) h.mon_idle (trigger_pos h ht) ht (by omega) ?_ c).1
  intro w hw htrig
  have := next_le hnone hw htrig
  omega

end Next

/-! ## The records -/

/-- With a prompt memory every trigger but the first writes one whole record, to the slot after the
one before, and the record holds the readings of the trigger before: all eight DCCTs and all
monitors of one and the same trigger. -/
theorem records_last_readings (hmem : ∀ t, trigger s inp t = true → Prompt s inp t)
    (ht : trigger s inp t = true) (ht' : trigger s inp u = true) (htu : t < u)
    (hnone : ∀ v, t < v → v < u → trigger s inp v = false) :
    ∃ d m, ReadAt s inp t d m ∧ Records s inp u
      (Nat.count (fun v => trigger s inp v = true) u % AxiWrite.SLOTS) d m := by
  obtain ⟨hr, hprev⟩ := ready h hmem ht'
  have hacc := accepts_of_ready h ht' hr hprev
  have hres := noReset h (trigger_pos h ht') (regs s inp u).adc2ddr
  have hslot : (regs s inp u).adc2ddr.datacnt.toNat = triggers s inp u % AxiWrite.SLOTS := hr.count
  refine ⟨dcctReadings s inp t, monReadings s inp t, readAt h ht, hacc, ?_, ?_⟩
  · intro v huv hrun
    obtain ⟨w, rfl⟩ := Nat.exists_eq_add_of_le huv.le
    rw [Nat.add_sub_cancel_left] at hrun
    have hk := AxiWrite.kept hr hacc hres (show 0 < w by omega) hrun
    rw [regs_adc2ddr, hk.ring.awaddr hk.busy, hk.addr_base, hr.addr, hslot]
    rfl
  · obtain ⟨T, hT, hrun, hc, -⟩ := burst_ends h ht' (hmem u ht') hr hprev
    have hn := ((AxiWrite.completes_iff hacc hr.wvalid hres hrun).mp hc).1
    refine ⟨T, hrun, hc, ?_⟩
    rw [AxiWrite.beats_eq hr hacc hres (hmem u ht').last hrun hc]
    refine List.map_congr_left ?_
    intro k hk
    have hk' : k < 40 := List.mem_range.mp hk
    have hcnt : (regs s inp u).adc2ddr.datacnt =
        BitVec.ofNat 32 (Nat.count (fun v => trigger s inp v = true) u % AxiWrite.SLOTS) := by
      apply BitVec.eq_of_toNat_eq
      rw [hslot, BitVec.toNat_ofNat, triggers]
      have := Nat.mod_lt (Nat.count (fun v => trigger s inp v = true) u)
        (show 0 < AxiWrite.SLOTS by decide)
      rw [AxiWrite.SLOTS] at this ⊢
      omega
    rw [hcnt]
    refine congrArg (·, _) (AxiWrite.record_congr _ hk' ?_ ?_)
    · intro hlow
      have hload : Nat.nth (AxiWrite.Loads (writeInputs s inp u)) k < 685 :=
        Nat.nth_lt_of_lt_count (hlow.trans_le (hmem u ht').dccts)
      exact dcct_adcs_eq h ht ht' htu hnone (by omega)
    · intro _
      have hload : Nat.nth (AxiWrite.Loads (writeInputs s inp u)) k < T :=
        Nat.nth_lt_of_lt_count (hk'.trans_le hn)
      exact mon_adcs_eq h ht ht' htu hnone (by omega)

end Run

/-! ## A run -/

/-- The device as it is configured. -/
def powerUp : Regs := ⟨.configured, DcctModule.powerUp, MonModule.powerUp, AxiWrite.powerUp⟩

/-- Steps of `2 ^ 20` and a memory that is always ready. -/
def steady (t : ℕ) : In where
  pl_reset := t = 0
  nco_stepsize := 0x100000
  onehz_trig := false
  numbits_sel := false
  dcct_params := fun _ => ⟨fun _ => 0x100000, fun _ => 0⟩
  dcct_adc_sdo := fun _ => true
  numchan_sel := true
  mon_params := fun _ => ⟨fun _ => 0x100000, fun _ => 0⟩
  mon_adc_sdo := fun _ => true
  awready := true
  wready := true
  bvalid := true
  dig_cntrl := fun _ => ⟨false, false, false, false, false, false, false⟩
  dig_stat := fun _ => ⟨false, false, false, false, false⟩
  fault_stat := fun _ => ⟨0, 0, false, false, false⟩

theorem started_steady : Started powerUp steady where
  sroc_gen := rfl
  adc2ddr := rfl
  dcct_idle := fun _ => ⟨rfl, rfl⟩
  mon_idle := fun _ => ⟨rfl, rfl⟩
  reset := rfl
  no_reset := by
    intro t ht
    exact decide_eq_false (by omega)
  stepsize := fun _ => show (0x100000 : BitVec 32).toNat ≤ 1256573 by decide

theorem count_steady (t n : ℕ) :
    n ≤ Nat.count (AxiWrite.Loads (writeInputs powerUp steady t)) (2 + n) := by
  have hload : ∀ v < n, AxiWrite.Loads (writeInputs powerUp steady t) (2 + v) :=
    fun v _ => ⟨⟨1, by omega, Nat.one_pos, rfl⟩, rfl⟩
  rw [Nat.count_add, Nat.count_of_forall hload]
  exact Nat.le_add_left _ _

theorem prompt_steady (t : ℕ) : Prompt powerUp steady t where
  dccts := le_trans (by decide) (count_steady t 683)
  ends := ⟨42, by decide, count_steady t 40, rfl⟩
  last := fun _ _ _ => rfl

/-- The phase after a number of steps. -/
theorem acc_steady (v : ℕ) :
    (trace Nco.clk .configured (fun v => ncoIn (steady v)) (v + 1)).acc.toNat =
      v * 2 ^ 20 % 2 ^ 32 := by
  induction v with
  | zero => rfl
  | succ v ih =>
    have hacc := Nco.acc_step (steps started_steady) v.succ_pos
    rw [Nat.succ_eq_add_one] at hacc
    have hresync : (ncoIn (steady (v + 1))).resync_pulse = false := rfl
    have hstep : (ncoIn (steady (v + 1))).step_size.toNat = 2 ^ 20 := rfl
    rw [hacc, hresync, if_neg Bool.false_ne_true, BitVec.toNat_add, ih, hstep]
    omega

/-- The triggers are at the clocks `2051, 6147, ...`. -/
theorem trigger_steady (v : ℕ) :
    trigger powerUp steady (v + 4) = true ↔ v % 4096 = 2047 := by
  rw [trigger_eq started_steady, Nco.pulse_add_three (steps started_steady), Nco.topBit, Nco.topBit,
    getLsbD_31, getLsbD_31, acc_steady, acc_steady]
  simp only [Bool.and_eq_true, Bool.not_eq_true', decide_eq_true_eq, decide_eq_false_iff_not]
  omega

/-- The second record holds the readings of the first trigger. -/
theorem records_last_readings_steady :
    ∃ d m, ReadAt powerUp steady 2051 d m ∧ Records powerUp steady 6147
      (Nat.count (fun v => trigger powerUp steady v = true) 6147 % AxiWrite.SLOTS) d m := by
  refine records_last_readings started_steady (fun t _ => prompt_steady t)
    ((trigger_steady 2047).mpr rfl) ((trigger_steady 6143).mpr rfl) (by decide) ?_
  intro v hv hv'
  obtain ⟨w, rfl⟩ := Nat.exists_eq_add_of_le' (show 4 ≤ v by omega)
  rw [← Bool.not_eq_true, trigger_steady]
  omega

end Zpsc.Acquisition
