import Zpsc.Fault.Debounce
import Zpsc.Fault.Proofs.InterlockProofs

/-!
# When the debounce law holds

A counter that has not run past its limit is the length of its streak (`Counts`). A limit lowered
below the counter breaks this, and the law with it, at once; nothing else does (`debounced_iff`).
-/

namespace Zpsc.FaultBlock

open Bits Clocked

variable {s : Block} {inp : ℕ → In} {b : FaultBit} {t : ℕ}

/-! ## What a clock does to a check -/

theorem outcome_hit (h : outcome s inp b t = .hit) :
    EvalAt s inp t ∧ condAt s inp t b = true ∧ (trace step s inp t).clear_pulse = false := by
  unfold outcome at h
  split at h
  · exact absurd h (by simp)
  · rename_i hr
    split at h
    · rename_i hp
      split at h
      · rename_i hc
        rw [Bool.and_eq_true, Bool.not_eq_true'] at hc
        exact ⟨⟨hp, by simpa using hr⟩, hc.1, hc.2⟩
      · exact absurd h (by simp)
    · exact absurd h (by simp)

theorem outcome_skip (h : outcome s inp b t = .skip) :
    (inp t).reset = false ∧ (trace step s inp t).ten_khz_pulse = false := by
  unfold outcome at h
  split at h
  · exact absurd h (by simp)
  · rename_i hr
    split at h
    · split at h <;> exact absurd h (by simp)
    · rename_i hp
      exact ⟨by simpa using hr, by simpa using hp⟩

theorem outcome_miss (h : outcome s inp b t = .miss) :
    (inp t).reset = true ∨ EvalAt s inp t ∧
      (condAt s inp t b && !(trace step s inp t).clear_pulse) = false := by
  unfold outcome at h
  split at h
  · rename_i hr
    exact .inl hr
  · rename_i hr
    split at h
    · rename_i hp
      split at h
      · exact absurd h (by simp)
      · rename_i hc
        exact .inr ⟨⟨hp, by simpa using hr⟩, by simpa using hc⟩
    · exact absurd h (by simp)

/-- The counter and the bit after a clock at which the check succeeds. -/
theorem after_hit (h : outcome s inp b t = .hit) :
    ((trace step s inp t).cnt b).toNat = limitAt inp b t ∧
        (trace step s inp (t + 1)).cnt b = (trace step s inp t).cnt b ∧
        regAfter s inp b t = true ∨
      ((trace step s inp t).cnt b).toNat ≠ limitAt inp b t ∧
        (trace step s inp (t + 1)).cnt b = (trace step s inp t).cnt b + 1 ∧
        regAfter s inp b t = (trace step s inp t).fault_reg.getLsbD b.idx := by
  obtain ⟨⟨hp, hr⟩, hc, hcl⟩ := outcome_hit h
  obtain ⟨hcnt, hreg⟩ := step_eval hr hp b
  unfold condAt at hc
  unfold regAfter
  rw [trace_succ, hcnt, hreg]
  by_cases hlim : ((trace step s inp t).cnt b).toNat = limitAt inp b t
  · have hat : atLimit (trace step s inp t) (inp t) b = true := decide_eq_true hlim
    left
    simp [evalCnt, evalReg, hc, hcl, hat, hlim]
  · have hat : atLimit (trace step s inp t) (inp t) b = false := decide_eq_false hlim
    right
    simp [evalCnt, evalReg, hc, hcl, hat, hlim]

theorem after_skip (h : outcome s inp b t = .skip) :
    (trace step s inp (t + 1)).cnt b = (trace step s inp t).cnt b ∧
      regAfter s inp b t = (trace step s inp t).fault_reg.getLsbD b.idx := by
  obtain ⟨hr, hp⟩ := outcome_skip h
  exact step_no_eval hr hp b

/-- A failure clears the bit, and the counter unless it is one that the reset leaves alone. -/
theorem after_miss (h : outcome s inp b t = .miss) :
    regAfter s inp b t = false ∧
      ((trace step s inp (t + 1)).cnt b = 0 ∨
        (inp t).reset = true ∧ cntReset b = false ∧
          (trace step s inp (t + 1)).cnt b = (trace step s inp t).cnt b) := by
  unfold regAfter
  rw [trace_succ]
  rcases outcome_miss h with hr | ⟨⟨hp, hr⟩, hc⟩
  · cases hb : cntReset b with
    | true => simp [step, hr, hb]
    | false => simp [step, hr, hb]
  · obtain ⟨hcnt, hreg⟩ := step_eval hr hp b
    unfold condAt at hc
    rw [hcnt, hreg]
    simp [evalCnt, evalReg, hc]

/-! ## The counter is the streak -/

/-- The bit says whether the streak has exceeded a limit, and until it has, the counter is the
length of the streak. -/
structure Counts (s : Block) (inp : ℕ → In) (b : FaultBit) (t : ℕ) : Prop where
  reg : (trace step s inp t).fault_reg.getLsbD b.idx = true ↔
    Since (outcome s inp b) (Exceeds s inp b) t
  cnt : ¬ Since (outcome s inp b) (Exceeds s inp b) t →
    ((trace step s inp t).cnt b).toNat = streak (outcome s inp b) t

theorem Counts.succ_hit (h : Counts s inp b t) (ho : outcome s inp b t = .hit)
    (hlim : NotUndercut s inp b t) : Counts s inp b (t + 1) := by
  have hsince := since_succ (o := outcome s inp b) (P := Exceeds s inp b) (t := t)
  have hne : outcome s inp b t ≠ .miss := by simp [ho]
  by_cases hb : Since (outcome s inp b) (Exceeds s inp b) t
  · -- the bit is set and a success leaves it
    have hnow := hsince.mpr ⟨hne, .inr hb⟩
    have hreg := h.reg.mpr hb
    refine ⟨iff_of_true ?_ hnow, fun hn => absurd hnow hn⟩
    rcases after_hit ho with ⟨-, -, h1⟩ | ⟨-, -, h1⟩
    · exact h1
    · exact h1.trans hreg
  · have hcnt := h.cnt hb
    have hle := hlim ho hb
    rcases after_hit ho with ⟨heq, -, h1⟩ | ⟨hneq, h2, h1⟩
    · have hex : Exceeds s inp b t := by
        refine ⟨ho, ?_⟩
        rw [streak_hit ho]
        omega
      have hnow := hsince.mpr ⟨hne, .inl hex⟩
      exact ⟨iff_of_true h1 hnow, fun hn => absurd hnow hn⟩
    · have hnex : ¬ Exceeds s inp b t := by
        rintro ⟨-, hlt⟩
        rw [streak_hit ho] at hlt
        omega
      have hnow : ¬ Since (outcome s inp b) (Exceeds s inp b) (t + 1) := by
        rw [hsince]
        tauto
      have hreg : ¬ (trace step s inp t).fault_reg.getLsbD b.idx = true := mt h.reg.mp hb
      refine ⟨iff_of_false (fun hset => hreg (h1.symm.trans hset)) hnow, ?_⟩
      intro _
      have hlt : ((trace step s inp t).cnt b).toNat < (b.cntlim (inp t).fault_params).toNat := by
        unfold limitAt at hle hneq
        omega
      rw [h2, toNat_cnt_succ _ hlt, streak_hit ho, hcnt]

theorem Counts.succ_skip (h : Counts s inp b t) (ho : outcome s inp b t = .skip) :
    Counts s inp b (t + 1) := by
  obtain ⟨h1, h2⟩ := after_skip ho
  have hsince : Since (outcome s inp b) (Exceeds s inp b) (t + 1) ↔
      Since (outcome s inp b) (Exceeds s inp b) t := by
    rw [since_succ]
    have hnex : ¬ Exceeds s inp b t := by
      rintro ⟨hhit, -⟩
      simp [ho] at hhit
    simp [ho, hnex]
  refine ⟨?_, fun hn => ?_⟩
  · rw [hsince, ← h.reg, ← h2]
    rfl
  · rw [h1, streak_skip ho]
    exact h.cnt (mt hsince.mpr hn)

theorem Counts.succ_miss (h : Counts s inp b t) (hidle : ResetsIdle s inp b)
    (ho : outcome s inp b t = .miss) : Counts s inp b (t + 1) := by
  obtain ⟨h1, h2⟩ := after_miss ho
  have hn : ¬ Since (outcome s inp b) (Exceeds s inp b) (t + 1) := by
    rw [since_succ]
    simp [ho]
  refine ⟨iff_of_false ?_ hn, fun _ => ?_⟩
  · intro hset
    have : regAfter s inp b t = true := hset
    simp [h1] at this
  · rw [streak_miss ho]
    rcases h2 with h0 | ⟨hr, hb, hkeep⟩
    · simp [h0]
    · -- a reset that leaves the counter alone comes when the counter is at 0
      rcases hidle t hr with hb' | h0
      · simp [hb] at hb'
      · have hns : ¬ Since (outcome s inp b) (Exceeds s inp b) t := by
          intro hs
          have := streak_pos (fun u hu => hu.1) hs
          omega
        rw [hkeep, h.cnt hns, h0]

theorem Counts.succ (h : Counts s inp b t) (hidle : ResetsIdle s inp b)
    (hlim : NotUndercut s inp b t) : Counts s inp b (t + 1) := by
  cases ho : outcome s inp b t with
  | skip => exact h.succ_skip ho
  | hit => exact h.succ_hit ho hlim
  | miss => exact h.succ_miss hidle ho

theorem counts_zero (hcnt : s.cnt b = 0) (hreg : s.fault_reg.getLsbD b.idx = false) :
    Counts s inp b 0 := by
  refine ⟨iff_of_false ?_ (not_since_zero _ _), fun _ => ?_⟩
  · simp [hreg]
  · simp [hcnt, streak]

theorem counts_of_notUndercut (hcnt : s.cnt b = 0) (hreg : s.fault_reg.getLsbD b.idx = false)
    (hidle : ResetsIdle s inp b) (h : ∀ u < t, NotUndercut s inp b u) : Counts s inp b t := by
  induction t with
  | zero => exact counts_zero hcnt hreg
  | succ t ih => exact (ih fun u hu => h u (by omega)).succ hidle (h t (by omega))

/-! ## The law -/

theorem debounced_of_counts (h : Counts s inp b (t + 1)) : Debounced s inp b t := by
  rintro heval
  refine ⟨?_, h.reg.mp⟩
  intro hex
  refine h.reg.mpr (since_succ.mpr ⟨?_, .inl hex⟩)
  simp [hex.1]

/-- A limit lowered below the counter of a streak that has not exceeded it breaks the law. -/
theorem notUndercut_of_debounced (h : Counts s inp b t) (hd : Debounced s inp b t) :
    NotUndercut s inp b t := by
  intro ho hb
  by_contra hlt
  have hcnt := h.cnt hb
  have hex : Exceeds s inp b t := by
    refine ⟨ho, ?_⟩
    rw [streak_hit ho]
    omega
  have hset := (hd (outcome_hit ho).1).1 hex
  rcases after_hit ho with ⟨heq, -, -⟩ | ⟨-, -, hkeep⟩
  · omega
  · exact hb (h.reg.mp (hkeep.symm.trans hset))

/-- The debounce under changing limits. In a run from a state in which the check is at rest, the law
holds at all evaluations before clock `T` exactly when no evaluation finds the limit below the
length of a streak that has not exceeded it yet. -/
theorem debounced_iff (s : Block) (inp : ℕ → In) (b : FaultBit) (hcnt : s.cnt b = 0)
    (hreg : s.fault_reg.getLsbD b.idx = false) (hidle : ResetsIdle s inp b) (T : ℕ) :
    (∀ t < T, Debounced s inp b t) ↔ ∀ t < T, NotUndercut s inp b t := by
  constructor
  · intro h t
    induction t using Nat.strong_induction_on with
    | _ t ih =>
      intro ht
      have hcounts := counts_of_notUndercut hcnt hreg hidle (fun u hu => ih u hu (by omega))
      exact notUndercut_of_debounced hcounts (h t ht)
  · intro h t ht
    exact debounced_of_counts
      (counts_of_notUndercut hcnt hreg hidle fun u hu => h u (by omega))

/-- All registers clear, as after power-up. -/
def atRest : Block where
  dff0 := false
  dff1 := false
  ten_khz_pulse := false
  re := false
  re_reg := false
  clear_pulse := false
  dac_setpoint_reg_new := 0
  dac_setpoint_reg_old := 0
  dac_change_flag := false
  digcntrl_on1_last := false
  startup_state := false
  run_state := false
  cnt := fun _ => 0
  fault_reg := 0
  fault_live := 0
  fault_reg_lat := 0
  fault_reg_lat_mask := 0
  error_reg_mask := 0

/-- The inputs of a channel at rest, with a trigger every four clocks. -/
def calm (t : ℕ) : In where
  reset := false
  tenkhz_trig := t % 4 = 0
  dig_cntrl := ⟨false, false, true, false, false, false, false⟩
  fault_params := ⟨false, 0xFFFF, 1, 1, 1, 1, 1, 1, 2, 2, 2, 2, 2, 2, 2, 2, 2, 2, 2⟩
  dcct_adcs := ⟨0, 0⟩
  mon_adcs := ⟨0, 0, 0⟩
  rsts := 0
  dcct_fault := true
  ac_on_out := false
  park := false
  dac_setpoint := 0
  evr_flt_in := false

/-- An over-current that stays, with a limit that changes at clock 12. -/
def overCurrent (before after : BitVec 16) (t : ℕ) : In :=
  { calm t with
    dcct_adcs := ⟨1000, 0⟩
    fault_params :=
      { (calm t).fault_params with ovc1_cntlim := if t < 12 then before else after } }

/-- With a limit that is raised the law holds, at an evaluation after the change too. -/
theorem debounced_raised :
    EvalAt atRest (overCurrent 3 5) 19 ∧ Debounced atRest (overCurrent 3 5) .ovc1 19 ∧
    EvalAt atRest (overCurrent 3 5) 23 ∧ Debounced atRest (overCurrent 3 5) .ovc1 23 := by
  have hall := (debounced_iff atRest (overCurrent 3 5) .ovc1 rfl rfl
    (fun _ h => absurd h Bool.false_ne_true) 24).mpr (by decide +kernel)
  refine ⟨by decide +kernel, hall 19 (by decide), by decide +kernel, hall 23 (by decide)⟩

/-- At the fourth evaluation the limit is 1 and the counter, which is at 3, runs on. -/
theorem lowered_not_debounced : ¬ Debounced atRest (overCurrent 5 1) .ovc1 15 := by
  intro h
  have heval : EvalAt atRest (overCurrent 5 1) 15 := by decide +kernel
  have hset := (h heval).1 (by decide +kernel)
  have hclear : regAfter atRest (overCurrent 5 1) .ovc1 15 = false := by decide +kernel
  rw [hclear] at hset
  exact Bool.false_ne_true hset

end Zpsc.FaultBlock
