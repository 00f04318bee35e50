import Zpsc.Fault.Reaction
import Zpsc.Fault.Proofs.InterlockProofs
import Zpsc.Snapshot.Proofs.AcquisitionProofs

/-!
# A bad reading switches its supply off

The evaluations of a fault block are the triggers, three clocks later (`evalAt_iff`), and each finds
the readings of the trigger before.
-/

namespace Zpsc.Reaction

open Clocked FaultBlock
open Acquisition (Started ReadAt dcctReadings monReadings)

variable {s : Regs} {inp : ℕ → In} {c : Chan} {a : Check} {τ : ℕ → ℕ} {K k n u v : ℕ}

theorem regs_acquisition (s : Regs) (inp : ℕ → In) (v : ℕ) :
    (regs s inp v).acquisition =
      Acquisition.regs s.acquisition (acquisitionInputs s inp) v :=
  trace_proj Regs.acquisition acquisitionIn (fun _ _ => rfl) s inp v

theorem regs_blocks (s : Regs) (inp : ℕ → In) (c : Chan) (v : ℕ) :
    (regs s inp v).interlock.blocks c =
      trace FaultBlock.step (s.interlock.blocks c) (blockInputs s inp c) v :=
  trace_proj (fun s => s.interlock.blocks c)
    (fun s i => (Top.interlockIn s.interlock (topIn s i)).blk c) (fun _ _ => rfl) s inp v

theorem tenkhz_trig_eq (s : Regs) (inp : ℕ → In) (c : Chan) (v : ℕ) :
    (blockInputs s inp c v).tenkhz_trig = trigger s inp v := by
  show Acquisition.tenkhz_trig (regs s inp v).acquisition = _
  rw [regs_acquisition]
  rfl

section Run

variable (h : Started s.acquisition (acquisitionInputs s inp))
include h

/-! ## The evaluations -/

theorem no_reset (hv : 0 < v) : (blockInputs s inp c v).reset = false := h.no_reset v hv

theorem evalAt_iff (v : ℕ) :
    EvalAt (s.interlock.blocks c) (blockInputs s inp c) (v + 3) ↔ trigger s inp v = true := by
  have hpulse : (trace FaultBlock.step (s.interlock.blocks c) (blockInputs s inp c)
      (v + 3)).ten_khz_pulse =
        if (blockInputs s inp c v).reset then false else (blockInputs s inp c v).tenkhz_trig := by
    have h1 : (blockInputs s inp c (v + 1)).reset = false := no_reset h (by omega)
    have h2 : (blockInputs s inp c (v + 2)).reset = false := no_reset h (by omega)
    simp [trace, FaultBlock.step, h1, h2]
  have h3 : (blockInputs s inp c (v + 3)).reset = false := no_reset h (by omega)
  rw [EvalAt, hpulse, tenkhz_trig_eq, h3]
  rcases Nat.eq_zero_or_pos v with rfl | hv
  · have hno : ¬ trigger s inp 0 = true := by
      intro ht
      exact absurd (Acquisition.trigger_pos h ht) (lt_irrefl 0)
    simp [hno]
  · have h0 : (blockInputs s inp c v).reset = false := no_reset h hv
    simp [h0]

omit h in
theorem Consecutive.mono (hτ : Consecutive s inp τ n) (hk : k ≤ v) (hv : v ≤ n) : τ k ≤ τ v := by
  induction v, hk using Nat.le_induction with
  | base => exact le_rfl
  | succ v hk ih => exact (ih (by omega)).trans (hτ.lt v (by omega)).le

/-- One evaluation per trigger. -/
theorem evals_eq (c : Chan) (hτ : Consecutive s inp τ (n + 1)) (hk : k ≤ n) :
    evals (s.interlock.blocks c) (blockInputs s inp c) (τ 1 + 3) (τ (k + 1) + 4) = k := by
  induction k with
  | zero => exact evals_start _ _ _
  | succ k ih =>
    have hle : τ 1 ≤ τ (k + 1) := hτ.mono (by omega) (by omega)
    have hlt := hτ.lt (k + 1) (by omega)
    -- no evaluation comes between the triggers
    have hquiet : evals (s.interlock.blocks c) (blockInputs s inp c) (τ 1 + 3)
        (τ (k + 1 + 1) + 3) = k := by
      refine hold (P := fun w => evals (s.interlock.blocks c) (blockInputs s inp c) (τ 1 + 3) w = k)
        (t := τ (k + 1) + 4) (by omega) ?_ (ih (by omega))
      intro w hw hwt hevals
      obtain ⟨v, rfl⟩ := Nat.exists_eq_add_of_le' (show 3 ≤ w by omega)
      have hnone := hτ.between (k + 1) (by omega) v (by omega) (by omega)
      have hno : ¬ EvalAt (s.interlock.blocks c) (blockInputs s inp c) (v + 3) := by
        rw [evalAt_iff h, hnone]
        exact Bool.false_ne_true
      rw [evals_succ _ _ (by omega), hevals, if_neg hno, Nat.add_zero]
    have heval : EvalAt (s.interlock.blocks c) (blockInputs s inp c) (τ (k + 1 + 1) + 3) :=
      (evalAt_iff h _).mpr (hτ.comes (k + 1 + 1) (by omega))
    rw [show τ (k + 1 + 1) + 4 = τ (k + 1 + 1) + 3 + 1 by omega, evals_succ _ _ (by omega), hquiet,
      if_pos heval]

/-! ## What an evaluation finds -/

omit h in
theorem cond_eq (b : Block) (i : FaultBlock.In) (a : Check) :
    cond b i a.bit = a.found i.fault_params i.dcct_adcs i.mon_adcs := by
  cases a <;> rfl

/-- The evaluation of a trigger finds the readings of the trigger before. -/
theorem condAt_eq (c : Chan) (a : Check) (hτ : Consecutive s inp τ n) (hk : k + 1 ≤ n) :
    condAt (s.interlock.blocks c) (blockInputs s inp c) (τ (k + 1) + 3) a.bit =
      a.found ((inp (τ (k + 1) + 3)).fault_params c)
        (dcctReadings s.acquisition (acquisitionInputs s inp) (τ k) c)
        (monReadings s.acquisition (acquisitionInputs s inp) (τ k) c).toMonAdcs := by
  have hdcct := Acquisition.dcct_adcs_eq h (hτ.comes k (by omega)) (hτ.comes (k + 1) hk)
    (hτ.lt k hk) (hτ.between k hk) (show 3 ≤ 684 by omega)
  have hmon := Acquisition.mon_adcs_eq h (hτ.comes k (by omega)) (hτ.comes (k + 1) hk)
    (hτ.lt k hk) (hτ.between k hk) (show 3 ≤ 1690 by omega)
  have hdcct' : (blockInputs s inp c (τ (k + 1) + 3)).dcct_adcs =
      dcctReadings s.acquisition (acquisitionInputs s inp) (τ k) c := by
    rw [← hdcct]
    show DcctModule.dcct_out (regs s inp (τ (k + 1) + 3)).acquisition.read_dcct_adcs c = _
    rw [regs_acquisition]
    rfl
  have hmon' : (blockInputs s inp c (τ (k + 1) + 3)).mon_adcs =
      (monReadings s.acquisition (acquisitionInputs s inp) (τ k) c).toMonAdcs := by
    rw [← hmon]
    show (Acquisition.monAdcs (MonModule.mon_adcs
      (regs s inp (τ (k + 1) + 3)).acquisition.read_mon_adcs c)).toMonAdcs = _
    rw [regs_acquisition]
    rfl
  rw [condAt, cond_eq, hdcct', hmon']
  rfl

omit h in
/-- A trigger between two of the sequence is one of them. -/
theorem Consecutive.exists_eq (hτ : Consecutive s inp τ n) {i j : ℕ} (hij : i ≤ j) (hj : j ≤ n)
    (hv : τ i < v) (hv' : v ≤ τ j) (htrig : trigger s inp v = true) :
    ∃ k, i ≤ k ∧ k + 1 ≤ j ∧ v = τ (k + 1) := by
  induction j, hij using Nat.le_induction with
  | base => omega
  | succ j hij ih =>
    rcases Nat.lt_or_ge (τ j) v with hlt | hge
    · refine ⟨j, hij, le_rfl, ?_⟩
      by_contra hne
      rw [hτ.between j (by omega) v hlt (by omega)] at htrig
      cases htrig
    · obtain ⟨k, hik, hkj, hk⟩ := ih (by omega) hge
      exact ⟨k, hik, by omega, hk⟩

/-- The condition persists when the readings of the triggers are bad from the second one on. -/
theorem persists (c : Chan) (a : Check) (hτ : Consecutive s inp τ (K + 2))
    (hlim : ∀ k, 1 ≤ k → k ≤ K + 1 →
      (a.bit.cntlim ((inp (τ (k + 1) + 3)).fault_params c)).toNat = K)
    (hgood : condAt (s.interlock.blocks c) (blockInputs s inp c) (τ 1 + 3) a.bit = false)
    (hbad : ∀ k, 1 ≤ k → k ≤ K + 1 →
      condAt (s.interlock.blocks c) (blockInputs s inp c) (τ (k + 1) + 3) a.bit = true) :
    Persists (s.interlock.blocks c) (blockInputs s inp c) a.bit (τ 1 + 3) (τ (K + 2) + 3) := by
  -- the evaluations after the first one
  have hk : ∀ v, τ 1 + 3 + 1 ≤ v → v ≤ τ (K + 2) + 3 →
      EvalAt (s.interlock.blocks c) (blockInputs s inp c) v →
      ∃ k, 1 ≤ k ∧ k ≤ K + 1 ∧ v = τ (k + 1) + 3 := by
    intro v hv hv' heval
    obtain ⟨w, rfl⟩ := Nat.exists_eq_add_of_le' (show 3 ≤ v by omega)
    obtain ⟨k, hk1, hkK, rfl⟩ := hτ.exists_eq (show 1 ≤ K + 2 by omega) le_rfl (by omega) (by omega)
      ((evalAt_iff h w).mp heval)
    exact ⟨k, hk1, by omega, rfl⟩
  have hlast := hlim (K + 1) (by omega) le_rfl
  refine ⟨(evalAt_iff h _).mpr (hτ.comes 1 (by omega)), hgood,
    (evalAt_iff h _).mpr (hτ.comes (K + 2) le_rfl), ?_, ?_, ?_, ?_⟩
  · have hlt := hτ.lt 1 (by omega)
    have hle : τ (1 + 1) ≤ τ (K + 2) := hτ.mono (by omega) le_rfl
    omega
  · intro v hv hv' heval
    obtain ⟨k, hk1, hkK, rfl⟩ := hk v hv hv' heval
    exact hbad k hk1 hkK
  · intro v hv hv' heval
    obtain ⟨k, hk1, hkK, rfl⟩ := hk v hv hv' heval
    exact BitVec.eq_of_toNat_eq ((hlim k hk1 hkK).trans hlast.symm)
  · exact (evals_eq h c hτ le_rfl).trans (congrArg (· + 1) hlast.symm)

/-- Readings that are bad for `K + 1` triggers in a row, after a good one, switch the supply off:
six clocks after the trigger that follows them its ON command is off, and stays off until the fault
is released; in dual mode a fault of channel 3 or 4 switches off both. -/
theorem switches_off (hτ : Consecutive s inp τ (K + 2)) :
    ∃ (d : ℕ → Chan → DcctAdcs) (m : ℕ → Chan → MonAdcsCal),
      (∀ k ≤ K + 1, ReadAt s.acquisition (acquisitionInputs s inp) (τ k) (d k) (m k)) ∧
      ∀ (c : Chan) (a : Check),
        (∀ k, 1 ≤ k → k ≤ K + 1 →
          (a.bit.cntlim ((inp (τ (k + 1) + 3)).fault_params c)).toNat = K) →
        a.found ((inp (τ 1 + 3)).fault_params c) (d 0 c) (m 0 c).toMonAdcs = false →
        (∀ k, 1 ≤ k → k ≤ K + 1 →
          a.found ((inp (τ (k + 1) + 3)).fault_params c) (d k c) (m k c).toMonAdcs = true) →
        ∀ u, τ (K + 2) + 6 ≤ u →
          Undisturbed (s.interlock.blocks c) (blockInputs s inp c) a.bit.idx (τ 1 + 3)
            (τ (K + 2) + 3) u →
          (rcom s inp u).getLsbD (Digio.onBit c) = false ∧
            ((inp u).ch34_dualmode = true → c = .ps3 ∨ c = .ps4 →
              (rcom s inp u).getLsbD 8 = false ∧ (rcom s inp u).getLsbD 12 = false) := by
  refine ⟨fun k => dcctReadings s.acquisition (acquisitionInputs s inp) (τ k),
    fun k => monReadings s.acquisition (acquisitionInputs s inp) (τ k), ?_, ?_⟩
  · intro k hk
    exact Acquisition.readAt h (hτ.comes k (by omega))
  · intro c a hlim hgood hbad u hu hund
    have hpers := persists h c a hτ hlim ((condAt_eq h c a hτ (by omega)).trans hgood) ?_
    · refine Interlock.rcom_of_flt_trig ?_
      rw [Interlock.faultStat, regs_blocks]
      exact flt_trig_of_tripped (.inl ⟨a.bit, rfl, hpers⟩) hund (by omega) _
    · intro k hk1 hkK
      exact (condAt_eq h c a hτ (by omega)).trans (hbad k hk1 hkK)

end Run

/-! ## A run -/

/-- Fault blocks and outputs at zero. -/
def powerUp : Regs where
  acquisition := Acquisition.powerUp
  interlock :=
    { blocks := fun _ =>
        { dff0 := false, dff1 := false, ten_khz_pulse := false
          re := false, re_reg := false, clear_pulse := false
          dac_setpoint_reg_new := 0, dac_setpoint_reg_old := 0, dac_change_flag := false
          digcntrl_on1_last := false, startup_state := false, run_state := false
          cnt := fun _ => 0
          fault_reg := 0, fault_live := 0, fault_reg_lat := 0, fault_reg_lat_mask := 0
          error_reg_mask := 0 }
      digio :=
        { on1 := fun _ => ⟨0, false, false, false⟩
          on2 := fun _ => ⟨0, false, false, false⟩
          pwr_delay := ⟨0, 0, false, false, false, false⟩ } }

/-- DCCT readings of 0, a threshold of 1 that is lowered to 0 at clock 7000, and no debouncing. -/
def lowered (t : ℕ) : In where
  acquisition :=
    { Acquisition.steady t with dcct_params := fun _ => ⟨fun _ => 0, fun _ => 0⟩ }
  fault_params := fun _ =>
    ⟨false, 0xFFFF, if t < 7000 then 1 else 0, 1, 1, 1, 1, 1, 0, 0, 0, 0, 0, 0, 0, 0, 0, 0, 0⟩
  dac_setpt := fun _ => 0
  rsts := 0
  ch34_dualmode := true

theorem started_lowered : Started powerUp.acquisition (acquisitionInputs powerUp lowered) where
  sroc_gen := rfl
  adc2ddr := rfl
  dcct_idle := fun _ => ⟨rfl, rfl⟩
  mon_idle := fun _ => ⟨rfl, rfl⟩
  reset := rfl
  no_reset := Acquisition.started_steady.no_reset
  stepsize := Acquisition.started_steady.stepsize

/-- The triggers do not depend on the readings. -/
theorem trigger_lowered (v : ℕ) : trigger powerUp lowered (v + 4) = true ↔ v % 4096 = 2047 := by
  rw [← Acquisition.trigger_steady, Acquisition.trigger_eq Acquisition.started_steady, trigger,
    Acquisition.trigger_eq started_lowered]
  rfl

theorem consecutive_lowered : Consecutive powerUp lowered (fun k => 2051 + 4096 * k) 2 where
  comes := by
    intro k _
    rw [show 2051 + 4096 * k = 2047 + 4096 * k + 4 by omega, trigger_lowered]
    omega
  lt := by
    intro k _
    show 2051 + 4096 * k < 2051 + 4096 * (k + 1)
    omega
  between := by
    intro k _ v hv hv'
    obtain ⟨w, rfl⟩ := Nat.exists_eq_add_of_le' (show 4 ≤ v by omega)
    rw [← Bool.not_eq_true, trigger_lowered]
    omega

theorem fixed_mul_zero (x : BitVec 20) : AdcGainOffset.fixed_mul x (0 : BitVec 24) 4 = 0 := by
  show (Bits.sresize 44 x * 0#44).extractLsb' 20 20 = 0
  rw [BitVec.mul_zero]
  rfl

theorem clear_pulse_lowered (c : Chan) (v : ℕ) :
    (trace FaultBlock.step (powerUp.interlock.blocks c) (blockInputs powerUp lowered c)
      v).clear_pulse = false := by
  suffices h : ∀ b, b = trace FaultBlock.step (powerUp.interlock.blocks c)
      (blockInputs powerUp lowered c) v →
      b.re = false ∧ b.re_reg = false ∧ b.clear_pulse = false from (h _ rfl).2.2
  induction v with
  | zero =>
    rintro b rfl
    exact ⟨rfl, rfl, rfl⟩
  | succ v ih =>
    obtain ⟨hre, hreg, hp⟩ := ih _ rfl
    rintro b rfl
    refine ⟨rfl, hre, ?_⟩
    rw [trace_succ]
    simp only [FaultBlock.step, hre, hreg, hp]
    simp

theorem undisturbed_lowered : Undisturbed (powerUp.interlock.blocks .ps4)
    (blockInputs powerUp lowered .ps4) 0 6150 10246 10249 where
  clear_pulse := fun v _ _ => clear_pulse_lowered .ps4 v
  no_clear := by
    rintro v _ _ ⟨-, hclear⟩
    cases hclear
  no_reset := by
    intro v hv _
    exact no_reset started_lowered (by omega)
  enabled := fun _ _ _ => show (0xFFFF : BitVec 16).getLsbD 0 = true by decide
  interlocking := fun v _ _ => show Interlocking 0 false by decide
  latching := fun v _ _ => clear_pulse_lowered .ps4 v

theorem switches_off_lowered : (rcom powerUp lowered 10249).getLsbD 8 = false ∧
    (rcom powerUp lowered 10249).getLsbD 12 = false := by
  obtain ⟨d, m, hread, hoff⟩ := switches_off (K := 0) started_lowered consecutive_lowered
  have hzero : ∀ k ≤ 1, (d k .ps4).dcct0 = 0 := by
    intro k hk
    obtain ⟨w, -, hd⟩ := (hread k hk).dccts
    rw [hd]
    show -AdcGainOffset.fixed_mul _ (0 : BitVec 24) 4 = 0
    rw [fixed_mul_zero]
    rfl
  refine (hoff .ps4 .ovc1 ?_ ?_ ?_ 10249 (by decide) undisturbed_lowered).2 rfl (.inr rfl)
  · intro k _ _
    rfl
  · rw [Check.found, hzero 0 (by omega)]
    rfl
  · intro k hk1 hkK
    obtain rfl : k = 1 := by omega
    rw [Check.found, hzero 1 le_rfl]
    rfl

end Zpsc.Reaction
