import Zpsc.Fault.Proofs.DebounceProofs

/-!
# Clearing faults

A rising edge of fault clear raises the clear pulse two clocks later, and the next evaluation ends
it. That evaluation clears all bits, latches and counters (`cleared_of_clear_pulse`); without
another edge no later one does, and a condition that persists is counted from 0 (`fault_clear`).
-/

namespace Zpsc.FaultBlock

open Bits Clocked

variable {s : Block} {inp : ℕ → In} {e t : ℕ}

/-! ## The evaluation that sees the pulse -/

theorem exists_idx {k : ℕ} (hk : k ≤ 10) : ∃ b : FaultBit, b.idx = k := by
  have hall : ∀ k : Fin 11, ∃ b ∈ FaultBit.ofIdx k, b.idx = k := by decide
  obtain ⟨b, -, hb⟩ := hall ⟨k, by omega⟩
  exact ⟨b, hb⟩

theorem step_lat_clear {s : Block} {i : In} (hp : s.clear_pulse = true) {k : ℕ} (hk : k ≤ 12) :
    (step s i).fault_reg_lat.getLsbD k = false := by
  cases hr : i.reset with
  | true => simp [step, hr]
  | false => simp [step, hr, nextLat, hk, hp]

/-- An evaluation that sees the clear pulse clears everything, whatever it finds. -/
theorem cleared_of_clear_pulse (heval : EvalAt s inp t)
    (hp : (trace step s inp t).clear_pulse = true) : Cleared (trace step s inp (t + 1)) where
  fault_reg := by
    intro k hk
    obtain ⟨b, rfl⟩ := exists_idx hk
    rw [trace_succ, (step_eval heval.2 heval.1 b).2]
    simp [evalReg, hp]
  fault_reg_lat := by
    intro k hk
    rw [trace_succ, step_lat_clear hp (by omega)]
  cnt := by
    intro b
    rw [trace_succ, (step_eval heval.2 heval.1 b).1]
    simp [evalCnt, hp]

/-! ## The clear pulse -/

/-- The clear pulse is up two clocks after the edge. -/
theorem clear_pulse_of_edge (he : 0 < e) (hedge : ClearEdge inp e) :
    (trace step s inp (e + 2)).clear_pulse = true := by
  obtain ⟨d, rfl⟩ : ∃ d, e = d + 1 := ⟨e - 1, by omega⟩
  have hre : (trace step s inp (d + 2)).re = true := hedge.2
  have hre_reg : (trace step s inp (d + 2)).re_reg = false := hedge.1
  rw [trace_succ]
  simp [step, hre, hre_reg]

/-- The clear pulse stays up until an evaluation is due. -/
theorem clear_pulse_of_waiting (he : 0 < e) (hedge : ClearEdge inp e) (ht : e + 2 ≤ t)
    (hfirst : ∀ v, e + 2 ≤ v → v < t → (trace step s inp v).ten_khz_pulse = false) :
    (trace step s inp t).clear_pulse = true := by
  refine hold (P := fun v => (trace step s inp v).clear_pulse = true) ht (fun v hv hvt hp => ?_)
    (clear_pulse_of_edge he hedge)
  rw [trace_succ]
  simp [step, hfirst v hv hvt, hp]

/-- Without an edge the evaluation ends the clear pulse. -/
theorem clear_pulse_after {v : ℕ} (hpulse : (trace step s inp (v + 2)).ten_khz_pulse = true)
    (hedge : ¬ ClearEdge inp (v + 1)) : (trace step s inp (v + 3)).clear_pulse = false := by
  have hre : (trace step s inp (v + 2)).re = (inp (v + 1)).fault_params.clear := rfl
  have hre_reg : (trace step s inp (v + 2)).re_reg = (inp v).fault_params.clear := rfl
  have hset : ¬ ((inp v).fault_params.clear = false ∧ (inp (v + 1)).fault_params.clear = true) :=
    hedge
  rw [trace_succ]
  simp only [step, hre, hre_reg, hpulse]
  cases h1 : (inp v).fault_params.clear <;> cases h2 : (inp (v + 1)).fault_params.clear <;>
    simp_all

/-- From the evaluation on, without a further edge the clear pulse stays down. -/
theorem clear_pulse_down (ht : e + 2 ≤ t) (hpulse : (trace step s inp t).ten_khz_pulse = true)
    {u : ℕ} (hu : t < u) (hedges : ∀ v, e < v → v < u → ¬ ClearEdge inp v) :
    (trace step s inp u).clear_pulse = false := by
  obtain ⟨d, rfl⟩ : ∃ d, t = d + 2 := ⟨t - 2, by omega⟩
  refine hold (P := fun v => (trace step s inp v).clear_pulse = false) hu (fun v hv hvu hp => ?_)
    (clear_pulse_after hpulse (hedges (d + 1) (by omega) (by omega)))
  obtain ⟨w, rfl⟩ : ∃ w, v = w + 2 := ⟨v - 2, by omega⟩
  exact step_clear_pulse hp (hedges (w + 1) (by omega) (by omega))

theorem no_edge_of_held {v : ℕ} (h : (inp (v - 1)).fault_params.clear = true) :
    ¬ ClearEdge inp v := by
  rintro ⟨h0, -⟩
  rw [h] at h0
  exact Bool.false_ne_true h0.symm

/-! ## The law -/

/-- Fault clear. Every evaluation that sees the clear pulse clears all bits, latches and counters.
After a rising edge of fault clear the first evaluation due sees the pulse. Without a further edge
no later one does; a condition that stays true with the limit `K` sets its bit again at the
`K + 1`-st evaluation after it and not before. Holding fault clear makes no edge. -/
theorem fault_clear (s : Block) (inp : ℕ → In) {e t : ℕ} (he : 0 < e) (hedge : ClearEdge inp e)
    (ht : e + 2 ≤ t)
    (hfirst : ∀ v, e + 2 ≤ v → v < t → (trace step s inp v).ten_khz_pulse = false)
    (heval : EvalAt s inp t) :
    (∀ v, EvalAt s inp v → (trace step s inp v).clear_pulse = true →
      Cleared (trace step s inp (v + 1))) ∧
    (trace step s inp t).clear_pulse = true ∧
    (∀ u, t < u → (∀ v, e < v → v < u → ¬ ClearEdge inp v) →
      (trace step s inp u).clear_pulse = false ∧
      ∀ (b : FaultBit) (K : BitVec 16), EvalAt s inp u →
        (∀ v, t < v → v ≤ u → (inp v).reset = false) →
        (∀ v, t < v → v ≤ u → EvalAt s inp v →
          condAt s inp v b = true ∧ b.cntlim (inp v).fault_params = K) →
        (regAfter s inp b u = true ↔ K.toNat + 1 ≤ evals s inp t (u + 1))) ∧
    ∀ u, t < u → (∀ v, e ≤ v → v < u → (inp v).fault_params.clear = true) →
      (trace step s inp u).clear_pulse = false := by
  have hpulse := clear_pulse_of_waiting he hedge ht hfirst
  have hcleared := cleared_of_clear_pulse heval hpulse
  refine ⟨fun v => cleared_of_clear_pulse, hpulse, ?_, ?_⟩
  · intro u hu hedges
    refine ⟨clear_pulse_down ht heval.1 hu hedges, ?_⟩
    intro b K _ hreset htrue
    have hfound : Found s inp b K (t + 1) u := by
      refine ⟨?_, ?_, ?_, fun v hv hvu => hreset v hv hvu⟩
      · exact fun v hv hvu hv' => (htrue v hv hvu hv').1
      · exact fun v hv hvu hv' => (htrue v hv hvu hv').2
      · exact fun v hv hvu _ =>
          clear_pulse_down ht heval.1 hv fun w hw hwv => hedges w hw (by omega)
    have hidx := idx_lt b
    exact (cnt_of_found hfound (hcleared.cnt b) (hcleared.fault_reg b.idx (by omega)) (by omega)
      le_rfl).2
  · intro u hu hheld
    exact clear_pulse_down ht heval.1 hu fun v hv hvu =>
      no_edge_of_held (hheld (v - 1) (by omega) (by omega))

/-- An over-current that stays, and fault clear raised at clock 30 and held. -/
def clearing (t : ℕ) : In :=
  { calm t with
    dcct_adcs := ⟨1000, 0⟩
    fault_params := { (calm t).fault_params with clear := 30 ≤ t } }

/-- The bit, set before the clear, is set again at the third evaluation after it. -/
theorem fault_clear_run :
    regAfter atRest clearing .ovc1 31 = true ∧ Cleared (trace step atRest clearing 36) ∧
      regAfter atRest clearing .ovc1 43 = false ∧ regAfter atRest clearing .ovc1 47 = true := by
  have hedge : ClearEdge clearing 30 := by decide
  obtain ⟨hclear, hpulse, hagain, -⟩ := fault_clear atRest clearing (e := 30) (t := 35) (by decide)
    hedge (by decide) (by decide +kernel) (by decide +kernel)
  have hedges : ∀ v, 30 < v → v < 48 → ¬ ClearEdge clearing v :=
    fun v hv _ => no_edge_of_held (decide_eq_true (by omega))
  have hover : overThresh 1000#20 1#20 = true := by decide
  have hcount := fun u hu hu' hev =>
    (hagain u hu fun v hv hvu => hedges v hv (Nat.lt_trans hvu hu')).2 .ovc1 2 hev
      (fun _ _ _ => rfl) (fun _ _ _ _ => ⟨hover, rfl⟩)
  refine ⟨by decide +kernel, hclear 35 (by decide +kernel) hpulse, ?_, ?_⟩
  · have h43 := hcount 43 (by decide) (by decide) (by decide +kernel)
    have hn : evals atRest clearing 35 44 = 2 := by decide +kernel
    rw [hn] at h43
    simpa using h43
  · exact (hcount 47 (by decide) (by decide) (by decide +kernel)).mpr (by decide +kernel)

end Zpsc.FaultBlock
