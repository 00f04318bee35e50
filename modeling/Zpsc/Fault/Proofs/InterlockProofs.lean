import Zpsc.Fault.Interlock

/-!
# The interlock switches the supply off

A fault that persists sets its bit of `fault_reg` at the last of its evaluations
(`reg_of_persists`), the bit is latched one clock later and stays latched (`lat_of_undisturbed`),
and the masked latch gates the ON commands (`on_off_of_tripped`).
-/

namespace Zpsc.FaultBlock

open Bits Clocked

variable {s : Block} {inp : ℕ → In}

/-! ## Counting evaluations -/

theorem evals_start (s : Block) (inp : ℕ → In) (t0 : ℕ) : evals s inp t0 (t0 + 1) = 0 := by
  have h : Finset.Ioo t0 (t0 + 1) = ∅ := by
    ext v
    simp only [Finset.mem_Ioo, Finset.notMem_empty, iff_false]
    omega
  simp [evals, h]

theorem evals_succ (s : Block) (inp : ℕ → In) {t0 v : ℕ} (hv : t0 < v) :
    evals s inp t0 (v + 1) = evals s inp t0 v + if EvalAt s inp v then 1 else 0 := by
  have h : Finset.Ioo t0 (v + 1) = insert v (Finset.Ioo t0 v) := by
    ext w
    simp only [Finset.mem_Ioo, Finset.mem_insert]
    omega
  rw [evals, h, Finset.filter_insert]
  split
  · rw [Finset.card_insert_of_notMem (by simp), evals]
  · rw [evals, Nat.add_zero]

/-! ## One clock of a check -/

theorem ofIdx_idx (b : FaultBit) : FaultBit.ofIdx b.idx = some b := by
  cases b <;> rfl

theorem idx_lt (b : FaultBit) : b.idx < 11 := by
  cases b <;> decide

theorem cntWidth_ge (b : FaultBit) : 16 ≤ b.cntWidth := by
  cases b <;> decide

theorem step_fault_reg {s : Block} {i : In} (hr : i.reset = false) {k : ℕ} (hk : k < 16) :
    (step s i).fault_reg.getLsbD k = nextReg s i k := by
  simp [step, hr, hk]

theorem step_no_eval {s : Block} {i : In} (hr : i.reset = false) (ht : s.ten_khz_pulse = false)
    (b : FaultBit) :
    (step s i).cnt b = s.cnt b ∧
      (step s i).fault_reg.getLsbD b.idx = s.fault_reg.getLsbD b.idx := by
  have hk := idx_lt b
  refine ⟨by simp [step, hr, ht], ?_⟩
  rw [step_fault_reg hr (by omega), nextReg, if_neg (by omega), ofIdx_idx]
  simp [ht]

theorem step_eval {s : Block} {i : In} (hr : i.reset = false) (ht : s.ten_khz_pulse = true)
    (b : FaultBit) :
    (step s i).cnt b = evalCnt s i b ∧
      (step s i).fault_reg.getLsbD b.idx = evalReg s i b := by
  have hk := idx_lt b
  refine ⟨by simp [step, hr, ht], ?_⟩
  rw [step_fault_reg hr (by omega), nextReg, if_neg (by omega), ofIdx_idx]
  simp [ht]

theorem toNat_cnt_succ {b : FaultBit} {x : BitVec b.cntWidth} (lim : BitVec 16)
    (h : x.toNat < lim.toNat) : (x + 1).toNat = x.toNat + 1 := by
  have hw : 2 ^ 16 ≤ 2 ^ b.cntWidth := Nat.pow_le_pow_right (by decide) (cntWidth_ge b)
  have hl := lim.isLt
  have h1 : (1 : BitVec b.cntWidth).toNat = 1 := by
    rw [BitVec.ofNat_eq_ofNat, BitVec.toNat_ofNat]
    exact Nat.mod_eq_of_lt (lt_of_lt_of_le (by decide) hw)
  rw [BitVec.toNat_add, h1]
  exact Nat.mod_eq_of_lt (by omega)

/-- An evaluation at which the condition holds: the counter goes up to its limit and no further,
and the bit is set once it was there. -/
theorem eval_true {s : Block} {i : In} {b : FaultBit} (hc : cond s i b = true)
    (hp : s.clear_pulse = false) {n : ℕ}
    (hn : (s.cnt b).toNat = min n (b.cntlim i.fault_params).toNat) :
    (evalCnt s i b).toNat = min (n + 1) (b.cntlim i.fault_params).toNat ∧
      (evalReg s i b = true ↔
        (b.cntlim i.fault_params).toNat ≤ n ∨ s.fault_reg.getLsbD b.idx = true) := by
  set lim := b.cntlim i.fault_params with hlim
  by_cases h : lim.toNat ≤ n
  · have hat : atLimit s i b = true := by
      rw [atLimit, ← hlim, hn, Nat.min_eq_right h]
      exact decide_eq_true rfl
    have hcnt : evalCnt s i b = s.cnt b := by simp [evalCnt, hc, hp, hat]
    refine ⟨?_, by simp [evalReg, hc, hp, hat, h]⟩
    rw [hcnt, hn]
    omega
  · have hat : atLimit s i b = false := by
      rw [atLimit, ← hlim, hn]
      exact decide_eq_false (by omega)
    have hcnt : evalCnt s i b = s.cnt b + 1 := by simp [evalCnt, hc, hp, hat]
    refine ⟨?_, by simp [evalReg, hc, hp, hat, h]⟩
    rw [hcnt, toNat_cnt_succ lim (by omega), hn]
    omega

/-! ## A persistent condition sets its bit -/

/-- Every evaluation from clock `a` up to clock `t` finds the condition, no clear pulse and the
limit `K`, and no reset comes. -/
structure Found (s : Block) (inp : ℕ → In) (b : FaultBit) (K : BitVec 16) (a t : ℕ) : Prop where
  cond : ∀ v, a ≤ v → v ≤ t → EvalAt s inp v → condAt s inp v b = true
  limit : ∀ v, a ≤ v → v ≤ t → EvalAt s inp v → b.cntlim (inp v).fault_params = K
  clear_pulse : ∀ v, a ≤ v → v ≤ t → EvalAt s inp v → (trace step s inp v).clear_pulse = false
  reset : ∀ v, a ≤ v → v ≤ t → (inp v).reset = false

/-- A check that starts at 0: the counter is the number of evaluations so far, up to the limit, and
the bit is set after one more. -/
theorem cnt_of_found {b : FaultBit} {K : BitVec 16} {t0 t : ℕ} (h : Found s inp b K (t0 + 1) t)
    (hcnt0 : (trace step s inp (t0 + 1)).cnt b = 0)
    (hreg0 : (trace step s inp (t0 + 1)).fault_reg.getLsbD b.idx = false) {v : ℕ}
    (hv : t0 + 1 ≤ v) (hvt : v ≤ t + 1) :
    ((trace step s inp v).cnt b).toNat = min (evals s inp t0 v) K.toNat ∧
      ((trace step s inp v).fault_reg.getLsbD b.idx = true ↔
        K.toNat + 1 ≤ evals s inp t0 v) := by
  induction v, hv using Nat.le_induction with
  | base =>
    rw [evals_start, hcnt0, hreg0]
    simp
  | succ v hv ih =>
    obtain ⟨ihc, ihr⟩ := ih (by omega)
    have hr := h.reset v hv (by omega)
    rw [evals_succ s inp (by omega), trace_succ]
    by_cases he : EvalAt s inp v
    · obtain ⟨hcnt, hreg⟩ := step_eval hr he.1 b
      have hlim := h.limit v hv (by omega) he
      obtain ⟨h1, h2⟩ := eval_true (h.cond v hv (by omega) he)
        (h.clear_pulse v hv (by omega) he) (hlim ▸ ihc)
      rw [hlim] at h1 h2
      rw [hcnt, hreg, if_pos he, h2, ihr]
      exact ⟨h1, by omega⟩
    · have ht : (trace step s inp v).ten_khz_pulse = false := by
        by_contra hne
        exact he ⟨by simpa using hne, hr⟩
      obtain ⟨hcnt, hreg⟩ := step_no_eval hr ht b
      rw [hcnt, hreg, if_neg he, Nat.add_zero]
      exact ⟨ihc, ihr⟩

theorem reg_of_persists {b : FaultBit} {t0 t : ℕ} (h : Persists s inp b t0 t)
    (hclear : ∀ v, t0 ≤ v → v ≤ t → (trace step s inp v).clear_pulse = false)
    (hreset : ∀ v, t0 ≤ v → v ≤ t → (inp v).reset = false) :
    (trace step s inp (t + 1)).fault_reg.getLsbD b.idx = true := by
  have hb := h.before
  have hfound : Found s inp b (b.cntlim (inp t).fault_params) (t0 + 1) t :=
    ⟨h.later_true, h.limit, fun v hv hvt _ => hclear v (by omega) hvt,
      fun v hv hvt => hreset v (by omega) hvt⟩
  obtain ⟨hcnt, hreg⟩ := step_eval h.first.2 h.first.1 b
  have hfalse : cond (trace step s inp t0) (inp t0) b = false := h.first_false
  refine (cnt_of_found hfound ?_ ?_ (by omega) le_rfl).2.mpr (by rw [h.count])
  · rw [trace_succ, hcnt]
    simp [evalCnt, hfalse]
  · rw [trace_succ, hreg]
    simp [evalReg, hfalse]

/-- A tripped bit is set in `fault_reg` after clock `t`. -/
theorem reg_of_tripped {i t0 t : ℕ} (h : Tripped s inp i t0 t)
    (hclear : ∀ v, t0 ≤ v → v ≤ t → (trace step s inp v).clear_pulse = false)
    (hreset : ∀ v, t0 ≤ v → v ≤ t → (inp v).reset = false) :
    (trace step s inp (t + 1)).fault_reg.getLsbD i = true := by
  rcases h with ⟨b, rfl, h⟩ | ⟨rfl, rfl, h⟩
  · exact reg_of_persists h hclear hreset
  · rw [trace_succ, step_fault_reg (hreset _ le_rfl le_rfl) (by omega), nextReg, if_pos rfl, h]

/-! ## The latch -/

/-- Without a reset and without a clear pulse a latched or set bit is latched. -/
theorem step_lat {s : Block} {i : In} (hr : i.reset = false) (hp : s.clear_pulse = false) {k : ℕ}
    (hk : k ≤ 12) (h : s.fault_reg.getLsbD k = true ∨ s.fault_reg_lat.getLsbD k = true) :
    (step s i).fault_reg_lat.getLsbD k = true := by
  simpa [step, hr, nextLat, hk, hp, show k < 16 by omega] using h

/-- `clear_pulse` rises two clocks after a rising edge of fault clear, and only then. -/
theorem step_clear_pulse {s : Block} {inp : ℕ → In} {v : ℕ}
    (h : (trace step s inp (v + 2)).clear_pulse = false) (hedge : ¬ ClearEdge inp (v + 1)) :
    (trace step s inp (v + 3)).clear_pulse = false := by
  have hre : (trace step s inp (v + 2)).re = (inp (v + 1)).fault_params.clear := rfl
  have hre_reg : (trace step s inp (v + 2)).re_reg = (inp v).fault_params.clear := rfl
  have hstep : (trace step s inp (v + 3)).clear_pulse =
      (step (trace step s inp (v + 2)) (inp (v + 2))).clear_pulse := rfl
  rw [hstep]
  simp only [step, hre, hre_reg, h]
  by_cases h1 : (inp v).fault_params.clear = false ∧ (inp (v + 1)).fault_params.clear = true
  · exact absurd h1 hedge
  · simp
    intro h2
    by_contra h3
    exact h1 ⟨h2, by simpa using h3⟩

theorem clear_pulse_of_undisturbed {i t0 t u : ℕ} (h : Undisturbed s inp i t0 t u) (ht : t0 ≤ t)
    {v : ℕ} (hv : t0 ≤ v) (hvu : v < u) : (trace step s inp v).clear_pulse = false := by
  rcases Nat.lt_or_ge t v with htv | hvt
  · by_cases hlatch : v ≤ t + 2
    · exact h.latching v htv hlatch
    · refine hold (P := fun v => (trace step s inp v).clear_pulse = false) (t := t + 2) (by omega)
        (fun w hw hwv hp => ?_) (h.latching (t + 2) (by omega) le_rfl)
      obtain ⟨x, rfl⟩ : ∃ x, w = x + 2 := ⟨w - 2, by omega⟩
      exact step_clear_pulse hp (h.no_clear (x + 1) (by omega) (by omega))
  · exact h.clear_pulse v hv hvt

/-- A tripped bit is latched two clocks after its last evaluation and stays latched. -/
theorem lat_of_undisturbed {i t0 t u : ℕ} (htrip : Tripped s inp i t0 t)
    (h : Undisturbed s inp i t0 t u) (ht : t0 ≤ t) (hi : i ≤ 12) {v : ℕ} (hv : t + 2 ≤ v)
    (hvu : v < u) : (trace step s inp v).fault_reg_lat.getLsbD i = true := by
  refine hold (P := fun v => (trace step s inp v).fault_reg_lat.getLsbD i = true) hv
    (fun w hw hwv hlat => ?_) ?_
  · exact step_lat (h.no_reset w (by omega) (by omega))
      (clear_pulse_of_undisturbed h ht (by omega) (by omega)) hi (Or.inr hlat)
  · refine step_lat (h.no_reset (t + 1) (by omega) (by omega))
      (clear_pulse_of_undisturbed h ht (by omega) (by omega)) hi (Or.inl ?_)
    exact reg_of_tripped htrip h.clear_pulse
      fun v hv hvt => h.no_reset v hv (by omega)

theorem getLsbD_interlockMask {i : ℕ} {d : Bool} (h : Interlocking i d) :
    (interlockMask d).getLsbD i = true := by
  obtain ⟨h12, h4, hd⟩ := h
  have hall : ∀ d : Bool, ∀ i : Fin 13, i.val ≠ 4 → (d = true → i.val ≠ 8 ∧ i.val ≠ 9) →
      (interlockMask d).getLsbD i = true := by decide
  exact hall d ⟨i, by omega⟩ h4 hd

/-- From three clocks after the last evaluation on, the fault output of the block is set. -/
theorem flt_trig_of_tripped {i t0 t u : ℕ} (htrip : Tripped s inp i t0 t)
    (h : Undisturbed s inp i t0 t u) (hu : t + 3 ≤ u) (d : Bool) :
    (stat (trace step s inp u) d).flt_trig = true := by
  have ht : t0 ≤ t := by
    rcases htrip with ⟨b, -, hb⟩ | ⟨-, ht, -⟩
    · exact hb.before.le
    · exact ht.le
  obtain ⟨v, rfl⟩ : ∃ v, u = v + 1 := ⟨u - 1, by omega⟩
  have hint := h.interlocking v (by omega) (by omega)
  have hlat := lat_of_undisturbed htrip h ht hint.1 (v := v) (by omega) (by omega)
  refine orReduce_of_getLsbD (j := i) ?_
  rw [trace_succ]
  simp only [step, BitVec.getLsbD_and, hlat, getLsbD_interlockMask hint,
    h.enabled v (by omega) (by omega), Bool.and_self]

end Zpsc.FaultBlock

namespace Zpsc.Interlock

open Clocked FaultBlock

theorem trace_blocks (s : Interlock) (inp : ℕ → In) (c : Chan) (t : ℕ) :
    (trace step s inp t).blocks c =
      trace FaultBlock.step (s.blocks c) (fun v => (inp v).blk c) t := by
  induction t with
  | zero => rfl
  | succ t ih => rw [trace_succ, trace_succ, ← ih]; rfl

/-- A fault output gates the ON command of its channel, and in dual mode those of channels 3
and 4. -/
theorem rcom_of_flt_trig {s : Interlock} {i : In} {c : Chan}
    (h : (s.faultStat i c).flt_trig = true) :
    (s.rcom i).getLsbD (Digio.onBit c) = false ∧
      (i.ch34_dualmode = true → c = .ps3 ∨ c = .ps4 →
        (s.rcom i).getLsbD 8 = false ∧ (s.rcom i).getLsbD 12 = false) := by
  cases c <;> cases hd : i.ch34_dualmode <;>
    simp [rcom, Digio.rcom, Digio.rcomBit, Digio.onBit, digioIn, h, hd]

/-- Interlock safety: once a fault bit of channel `c` has tripped, the channel's ON command is off
from three clocks later on until the fault is released, and in dual mode a fault of channel 3 or 4
switches off both. -/
theorem on_off_of_tripped (s : Interlock) (inp : ℕ → In) (c : Chan) {i t0 t u : ℕ}
    (htrip : Tripped (s.blocks c) (fun v => (inp v).blk c) i t0 t)
    (h : Undisturbed (s.blocks c) (fun v => (inp v).blk c) i t0 t u) (hu : t + 3 ≤ u) :
    ((trace step s inp u).rcom (inp u)).getLsbD (Digio.onBit c) = false ∧
      ((inp u).ch34_dualmode = true → c = .ps3 ∨ c = .ps4 →
        ((trace step s inp u).rcom (inp u)).getLsbD 8 = false ∧
          ((trace step s inp u).rcom (inp u)).getLsbD 12 = false) := by
  apply rcom_of_flt_trig
  rw [faultStat, trace_blocks]
  exact flt_trig_of_tripped htrip h hu _

/-! A run in which the DCCT status input of every channel fails at clock 1, with a limit of 2. -/

/-- The inputs of a fault block; only the DCCT status may be bad. -/
def dcctIn (bad : Bool) : FaultBlock.In where
  reset := false
  tenkhz_trig := true
  dig_cntrl := ⟨true, false, false, false, false, false, false⟩
  fault_params := ⟨false, 0xFFFF, 1, 1, 1, 1, 1, 1, 2, 2, 2, 2, 2, 2, 2, 2, 2, 2, 2⟩
  dcct_adcs := ⟨0, 0⟩
  mon_adcs := ⟨0, 0, 0⟩
  rsts := 0x1
  dcct_fault := !bad
  ac_on_out := true
  park := false
  dac_setpoint := 0
  evr_flt_in := false

def dcctInputs (t : ℕ) : In where
  blk := fun _ => dcctIn (decide (1 ≤ t))
  reset := false
  ch34_dualmode := true
  dig_cntrl := fun _ => ⟨true, false, false, false, false, false, false⟩

/-- Four supplies that are on, with an evaluation in every clock. -/
def runningState : Interlock where
  blocks := fun _ =>
    { dff0 := true, dff1 := true, ten_khz_pulse := true
      re := false, re_reg := false, clear_pulse := false
      dac_setpoint_reg_new := 0, dac_setpoint_reg_old := 0, dac_change_flag := false
      digcntrl_on1_last := true, startup_state := false, run_state := true
      cnt := fun _ => 0
      fault_reg := 0, fault_live := 0, fault_reg_lat := 0, fault_reg_lat_mask := 0
      error_reg_mask := 0 }
  digio :=
    { on1 := fun _ => ⟨500000, true, true, true⟩
      on2 := fun _ => ⟨0, false, false, false⟩
      pwr_delay := ⟨4999999, 0, true, true, true, true⟩ }

theorem dcct_persists :
    Persists (runningState.blocks .ps3) (fun v => (dcctInputs v).blk .ps3) .dcct 0 3 :=
  ⟨by decide +kernel, by decide +kernel, by decide +kernel, by decide, by decide +kernel,
    by decide +kernel, by decide +kernel⟩

theorem dcct_undisturbed :
    Undisturbed (runningState.blocks .ps3) (fun v => (dcctInputs v).blk .ps3) 6 0 3 6 :=
  ⟨⟨by decide +kernel, by decide +kernel, by decide +kernel, by decide +kernel, by decide +kernel⟩,
    by decide +kernel⟩

/-- Channels 3 and 4 are on before the fault and off three clocks after its last evaluation. -/
theorem dcct_on_off :
    ((runningState.rcom (dcctInputs 0)).getLsbD 8 = true ∧
      (runningState.rcom (dcctInputs 0)).getLsbD 12 = true) ∧
    ((trace step runningState dcctInputs 6).rcom (dcctInputs 6)).getLsbD (Digio.onBit .ps3) =
      false ∧
    ((dcctInputs 6).ch34_dualmode = true → (Chan.ps3 = .ps3 ∨ Chan.ps3 = .ps4) →
      ((trace step runningState dcctInputs 6).rcom (dcctInputs 6)).getLsbD 8 = false ∧
        ((trace step runningState dcctInputs 6).rcom (dcctInputs 6)).getLsbD 12 = false) :=
  ⟨by decide +kernel, on_off_of_tripped runningState dcctInputs .ps3
    (Or.inl ⟨.dcct, rfl, dcct_persists⟩) dcct_undisturbed (by decide)⟩

/-- The same run, with a rising edge of fault clear at clock `e`. -/
def clearedInputs (e t : ℕ) : In :=
  { dcctInputs t with
    blk := fun c =>
      let i := (dcctInputs t).blk c
      { i with fault_params := { i.fault_params with clear := decide (e ≤ t) } } }

/-- An edge of fault clear one clock before the last evaluation gives a clear pulse only after it,
in the clock that would have latched the bit: the supplies stay on. -/
theorem cleared_stays_on :
    Tripped (runningState.blocks .ps3) (fun v => (clearedInputs 2 v).blk .ps3) 6 0 3 ∧
      Held (runningState.blocks .ps3) (fun v => (clearedInputs 2 v).blk .ps3) 6 0 3 6 ∧
      ((trace step runningState (clearedInputs 2) 6).rcom (clearedInputs 2 6)).getLsbD
        (Digio.onBit .ps3) = true ∧
      ((trace step runningState (clearedInputs 2) 6).rcom (clearedInputs 2 6)).getLsbD
        (Digio.onBit .ps4) = true := by
  refine ⟨.inl ⟨.dcct, rfl, ?_⟩, ?_, by decide +kernel, by decide +kernel⟩
  · exact ⟨by decide +kernel, by decide +kernel, by decide +kernel, by decide, by decide +kernel,
      by decide +kernel, by decide +kernel⟩
  · exact ⟨by decide +kernel, by decide +kernel, by decide +kernel, by decide +kernel,
      by decide +kernel⟩

end Zpsc.Interlock
