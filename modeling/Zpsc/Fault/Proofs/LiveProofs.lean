import Zpsc.Fault.Proofs.DebounceProofs

/-!
# Live bits

After an evaluation the live bits are what it found, but for the loop error bits, which park and a
setpoint change freeze (`live_exact_iff`). The supply-off bit of a unipolar supply is qualified by
`run_state`; an aborted start can leave it set until the next start (`off_qualified_iff`).
-/

namespace Zpsc.FaultBlock

open Bits Clocked

variable {s : Block} {inp : ℕ → In} {t : ℕ}

/-! ## Live bits are live -/

theorem step_live {s : Block} {i : In} (hr : i.reset = false) (ht : s.ten_khz_pulse = true)
    (b : FaultBit) : (step s i).fault_live.getLsbD b.idx = evalLive s i b := by
  have hk := idx_lt b
  simp only [step, hr, Bool.false_eq_true, if_false, getLsbD_ofBits, show b.idx < 16 by omega,
    decide_true, Bool.true_and, nextLive, ht, if_true, show b.idx ≠ 13 by omega, ofIdx_idx]

/-- The live bits after an evaluation are exact unless the loop error checks are suspended while one
of their live bits is set. -/
theorem live_exact_iff (s : Block) (inp : ℕ → In) {t : ℕ} (heval : EvalAt s inp t) :
    LiveExact s inp t ↔
      errChecked (trace step s inp t) (inp t) = true ∨
        (trace step s inp t).fault_live.getLsbD 3 = false ∧
          (trace step s inp t).fault_live.getLsbD 4 = false := by
  have hlive : ∀ b : FaultBit, (trace step s inp (t + 1)).fault_live.getLsbD b.idx =
      evalLive (trace step s inp t) (inp t) b := fun b => step_live heval.2 heval.1 b
  unfold LiveExact
  simp only [hlive, evalLive, condAt]
  cases hc : errChecked (trace step s inp t) (inp t) with
  | true =>
    refine iff_of_true ?_ (.inl rfl)
    intro b
    cases b <;> simp [liveHeld, hc]
  | false =>
    constructor
    · intro h
      have h3 := h .err1
      have h4 := h .err2
      simp only [liveHeld, hc, cond, Bool.not_false, if_true, Bool.false_and] at h3 h4
      exact .inr ⟨h3, h4⟩
    · rintro (h | ⟨h3, h4⟩)
      · exact absurd h Bool.false_ne_true
      · intro b
        cases b with
        | err1 =>
          simp only [liveHeld, cond, hc, Bool.not_false, if_true, Bool.false_and]
          exact h3
        | err2 =>
          simp only [liveHeld, cond, hc, Bool.not_false, if_true, Bool.false_and]
          exact h4
        | _ => simp [liveHeld]

/-- A loop error at the first evaluation, and park from clock 4 on. -/
def parked (t : ℕ) : In :=
  { calm t with
    mon_adcs := { (calm t).mon_adcs with ps_error := if t < 4 then 1000 else 0 }
    park := 4 ≤ t }

/-- The first evaluation shows the loop error. -/
theorem live_exact_before_park : LiveExact atRest parked 3 :=
  (live_exact_iff atRest parked (t := 3) (by decide +kernel)).mpr (.inl (by decide +kernel))

/-- The second evaluation still shows it, with the error gone and the check suspended. -/
theorem parked_not_live : ¬ LiveExact atRest parked 7 := by
  intro h
  have hlive := h .err1
  revert hlive
  decide +kernel

/-! ## The run state of a unipolar supply -/

theorem step_on1_last (heval : EvalAt s inp t) :
    (trace step s inp (t + 1)).digcntrl_on1_last = (inp t).dig_cntrl.on1 := by
  simp [trace_succ, step, heval.1, heval.2]

theorem step_on1_last_of_not (heval : ¬ EvalAt s inp t) :
    (trace step s inp (t + 1)).digcntrl_on1_last = (trace step s inp t).digcntrl_on1_last := by
  unfold EvalAt at heval
  simp only [trace_succ, step]
  rw [if_neg]
  rw [Bool.and_eq_true, Bool.not_eq_true']
  exact fun h => heval ⟨h.2, h.1⟩

/-- A pending start comes from a rising edge or was pending before. -/
theorem startup_succ (h : (trace step s inp (t + 1)).startup_state = true) :
    OnRises s inp t ∨ (trace step s inp t).startup_state = true := by
  simp only [trace_succ, step] at h
  unfold OnRises EvalAt
  cases hr : (inp t).reset <;> cases hp : (trace step s inp t).ten_khz_pulse <;>
    cases h1 : (trace step s inp t).startup_state <;> simp_all

/-- The run state is set when a start is pending and the supply reports on; otherwise it was set
before, and an evaluation has found `on1`. -/
theorem run_succ (h : (trace step s inp (t + 1)).run_state = true) :
    (inp t).reset = false ∧
      ((EvalAt s inp t ∧ (trace step s inp t).startup_state = true ∧
          (inp t).rsts.getLsbD 1 = true) ∨
        (trace step s inp t).run_state = true ∧
          (EvalAt s inp t → (inp t).dig_cntrl.on1 = true)) := by
  simp only [trace_succ, step] at h
  unfold EvalAt
  cases hr : (inp t).reset <;> cases hp : (trace step s inp t).ten_khz_pulse <;>
    cases h1 : (trace step s inp t).startup_state <;>
    cases h2 : (trace step s inp t).run_state <;>
    cases h3 : (inp t).dig_cntrl.on1 <;> simp_all

theorem run_kept (hr : (inp t).reset = false) (h : (trace step s inp t).run_state = true)
    (hon : EvalAt s inp t → (inp t).dig_cntrl.on1 = true) :
    (trace step s inp (t + 1)).run_state = true := by
  simp only [trace_succ, step, hr, h]
  unfold EvalAt at hon
  cases hp : (trace step s inp t).ten_khz_pulse <;> simp_all

/-! ## The latest rising edge -/

theorem latestRise_succ {r : ℕ} (h : LatestRise s inp r t) (hn : ¬ OnRises s inp t) :
    LatestRise s inp r (t + 1) := by
  obtain ⟨hrt, hr, hlater⟩ := h
  refine ⟨by omega, hr, ?_⟩
  intro v hrv hvt
  rcases Nat.lt_succ_iff_lt_or_eq.mp hvt with hlt | rfl
  · exact hlater v hrv hlt
  · exact hn

theorem latestRise_self (h : OnRises s inp t) : LatestRise s inp t (t + 1) :=
  ⟨by omega, h, fun v h1 h2 => absurd h1 (by omega)⟩

theorem exists_latestRise {r : ℕ} (hr : OnRises s inp r) (hrt : r < t) :
    ∃ r', LatestRise s inp r' t := by
  induction t with
  | zero => exact absurd hrt (Nat.not_lt_zero r)
  | succ t ih =>
    by_cases ht : OnRises s inp t
    · exact ⟨t, latestRise_self ht⟩
    · have hne : r ≠ t := by
        rintro rfl
        exact ht hr
      obtain ⟨r', h'⟩ := ih (by omega)
      exact ⟨r', latestRise_succ h' ht⟩

theorem latestRise_unique {r r' : ℕ} (h : LatestRise s inp r t) (h' : LatestRise s inp r' t) :
    r = r' := by
  rcases Nat.lt_trichotomy r r' with hlt | heq | hgt
  · exact absurd h'.2.1 (h.2.2 r' hlt h'.1)
  · exact heq
  · exact absurd h.2.1 (h'.2.2 r hgt h.1)

/-! ## What the run state means -/

/-- The supply has reported on since the latest rising edge of `on1`, or that edge found the run
state set. -/
def Accounted (s : Block) (inp : ℕ → In) (r t : ℕ) : Prop :=
  ReportedSince s inp r t ∨
    (trace step s inp r).run_state = true ∧ ∀ v, r ≤ v → v < t → (inp v).reset = false

/-- A pending start has had a rising edge; the run state is accounted for, unless `on1` was off at
the last evaluation. -/
structure RunInv (s : Block) (inp : ℕ → In) (t : ℕ) : Prop where
  startup : (trace step s inp t).startup_state = true → ∃ r < t, OnRises s inp r
  run : (trace step s inp t).run_state = true →
    (trace step s inp t).digcntrl_on1_last = false ∨
      ∃ r, LatestRise s inp r t ∧ Accounted s inp r t

theorem Accounted.succ {r : ℕ} (h : Accounted s inp r t) (hr : (inp t).reset = false) :
    Accounted s inp r (t + 1) := by
  rcases h with ⟨u, h1, h2, h3⟩ | ⟨h1, h2⟩
  · exact .inl ⟨u, h1, by omega, h3⟩
  · refine .inr ⟨h1, ?_⟩
    intro v hrv hvt
    rcases Nat.lt_succ_iff_lt_or_eq.mp hvt with hlt | rfl
    · exact h2 v hrv hlt
    · exact hr

theorem RunInv.succ_run (h : RunInv s inp t) (hset : (trace step s inp (t + 1)).run_state = true) :
    (trace step s inp (t + 1)).digcntrl_on1_last = false ∨
      ∃ r, LatestRise s inp r (t + 1) ∧ Accounted s inp r (t + 1) := by
  obtain ⟨hr, hnew | ⟨hrun, hon⟩⟩ := run_succ hset
  · -- the supply reports on at this evaluation; the start may have been given up
    obtain ⟨heval, hstart, hrep⟩ := hnew
    have hacc : ∀ r, r ≤ t → Accounted s inp r (t + 1) :=
      fun r hrt => .inl ⟨t, hrt, by omega, heval, hrep⟩
    cases hon : (inp t).dig_cntrl.on1 with
    | false => exact .inl ((step_on1_last heval).trans hon)
    | true =>
      right
      obtain ⟨r, hrt, hrise⟩ := h.startup hstart
      obtain ⟨r', hr'⟩ := exists_latestRise hrise (show r < t + 1 by omega)
      exact ⟨r', hr', hacc r' (Nat.lt_succ_iff.mp hr'.1)⟩
  · by_cases hrise : OnRises s inp t
    · -- the edge finds the run state set
      refine .inr ⟨t, latestRise_self hrise, .inr ⟨hrun, ?_⟩⟩
      intro v htv hvt
      rwa [show v = t by omega]
    · rcases h.run hrun with hlast | ⟨r, hlatest, hacc⟩
      · left
        by_cases heval : EvalAt s inp t
        · exact absurd ⟨heval, hlast, hon heval⟩ hrise
        · exact (step_on1_last_of_not heval).trans hlast
      · exact .inr ⟨r, latestRise_succ hlatest hrise, hacc.succ hr⟩

theorem RunInv.succ (h : RunInv s inp t) : RunInv s inp (t + 1) := by
  refine ⟨fun hset => ?_, h.succ_run⟩
  rcases startup_succ hset with hrise | hbefore
  · exact ⟨t, by omega, hrise⟩
  · obtain ⟨r, hrt, hr⟩ := h.startup hbefore
    exact ⟨r, by omega, hr⟩

theorem runInv (hstart : s.startup_state = false) (hrun : s.run_state = false) (t : ℕ) :
    RunInv s inp t := by
  induction t with
  | zero => exact ⟨fun h => by simp [hstart] at h, fun h => by simp [hrun] at h⟩
  | succ t ih => exact ih.succ

/-! ## The supply-off fault -/

theorem offLive_iff (heval : EvalAt s inp t) (hpol : (inp t).dig_cntrl.polarity = true)
    (hmain : (inp t).dig_cntrl.main_dipole = false) :
    offLive s inp t = true ↔
      (inp t).dig_cntrl.on1 = true ∧ (inp t).rsts.getLsbD 1 = false ∧
        (trace step s inp t).run_state = true ∧ (trace step s inp t).clear_pulse = false := by
  have hlive := step_live heval.2 heval.1 .flt1
  unfold offLive
  rw [trace_succ]
  refine (Bool.eq_iff_iff.mp hlive).trans ?_
  simp only [evalLive, liveHeld, cond, bipolar, hpol, hmain, Bool.not_true, Bool.or_self,
    Bool.false_eq_true, if_false, Bool.and_eq_true, Bool.not_eq_true']
  tauto

/-- The run state that an edge found stays set as long as `on1` does. -/
theorem run_of_falseStart {r : ℕ} (heval : EvalAt s inp t) (hon : (inp t).dig_cntrl.on1 = true)
    (hlatest : LatestRise s inp r (t + 1)) (hrun : (trace step s inp r).run_state = true)
    (hreset : ∀ v, r ≤ v → v < t → (inp v).reset = false) :
    (trace step s inp t).run_state = true := by
  obtain ⟨hrt, hrise, hlater⟩ := hlatest
  refine hold (P := fun v => (trace step s inp v).run_state = true) (Nat.lt_succ_iff.mp hrt)
    (fun v hrv hvt hset => ?_) hrun
  refine run_kept (hreset v hrv hvt) hset ?_
  intro hev
  by_contra hoff
  -- once `on1` is off, it has to rise again
  have hlast : (trace step s inp t).digcntrl_on1_last = false := by
    refine hold (P := fun w => (trace step s inp w).digcntrl_on1_last = false)
      (show v + 1 ≤ t by omega) (fun w hvw hwt hw => ?_) ?_
    · by_cases hew : EvalAt s inp w
      · rw [step_on1_last hew]
        by_contra hnow
        exact hlater w (by omega) (by omega) ⟨hew, hw, by simpa using hnow⟩
      · rw [step_on1_last_of_not hew]
        exact hw
    · rw [step_on1_last hev]
      simpa using hoff
  exact hlater t (by omega) (by omega) ⟨heval, hlast, hon⟩

/-- Unipolar run-state qualification. In a run from a state in which no start is pending, the
supply-off fault is qualified at an evaluation exactly when it is not raised after a false start. -/
theorem off_qualified_iff (s : Block) (inp : ℕ → In) (hstart : s.startup_state = false)
    (hrun : s.run_state = false) {t : ℕ} (heval : EvalAt s inp t)
    (hpol : (inp t).dig_cntrl.polarity = true) (hmain : (inp t).dig_cntrl.main_dipole = false) :
    OffQualified s inp t ↔
      ¬ (FalseStart s inp t ∧ (inp t).dig_cntrl.on1 = true ∧ (inp t).rsts.getLsbD 1 = false ∧
        (trace step s inp t).clear_pulse = false) := by
  unfold OffQualified
  rw [offLive_iff heval hpol hmain]
  constructor
  · rintro h ⟨⟨r, hlatest, hset, hnot, hreset⟩, hon, hrep, hclear⟩
    have hkept := run_of_falseStart heval hon hlatest hset hreset
    obtain ⟨-, -, r', hlatest', hsince⟩ := h ⟨hon, hrep, hkept, hclear⟩
    rw [latestRise_unique hlatest' hlatest] at hsince
    exact hnot hsince
  · rintro h ⟨hon, hrep, hset, hclear⟩
    refine ⟨hon, hrep, ?_⟩
    by_cases hrise : OnRises s inp t
    · -- an edge that finds the run state set is a false start at once
      refine absurd ⟨⟨t, latestRise_self hrise, hset, ?_, ?_⟩, hon, hrep, hclear⟩ h
      · rintro ⟨u, h1, h2, -⟩
        omega
      · intro v h1 h2
        omega
    · rcases (runInv hstart hrun t).run hset with hlast | ⟨r, hlatest, hacc⟩
      · exact absurd ⟨heval, hlast, hon⟩ hrise
      · have hlatest' := latestRise_succ hlatest hrise
        refine ⟨r, hlatest', ?_⟩
        by_contra hnot
        rcases hacc with hsince | ⟨hfound, hreset⟩
        · exact hnot hsince
        · exact h ⟨⟨r, hlatest', hfound, hnot, hreset⟩, hon, hrep, hclear⟩

/-- `on1` for the evaluations of clocks 3 and 11 on, off at that of clock 7; the supply reports on
at the evaluation of clock `r` only. -/
def restarted (r t : ℕ) : In :=
  { calm t with
    dig_cntrl := { (calm t).dig_cntrl with on1 := t < 4 ∨ 8 ≤ t }
    rsts := if t = r then 0b0010 else 0 }

/-- A supply that reports on after the second start may raise the fault. -/
theorem off_qualified_reported : OffQualified atRest (restarted 11) 15 := by
  refine (off_qualified_iff atRest (restarted 11) rfl rfl (t := 15) (by decide +kernel) rfl
    rfl).mpr ?_
  rintro ⟨⟨r, ⟨hrt, hrise, -⟩, hrun, -⟩, -⟩
  have hall : ∀ r < 16, OnRises atRest (restarted 11) r →
      (trace step atRest (restarted 11) r).run_state = false := by decide +kernel
  rw [hall r hrt hrise] at hrun
  exact Bool.false_ne_true hrun

/-- A report that comes while `on1` is off for one evaluation makes the next start raise the fault
at once. -/
theorem restarted_not_qualified : ¬ OffQualified atRest (restarted 7) 11 := by
  intro h
  have hlive : offLive atRest (restarted 7) 11 = true := by decide +kernel
  obtain ⟨-, -, r, ⟨-, -, hlater⟩, u, hru, hut, heval, hrep⟩ := h hlive
  have hrise : OnRises atRest (restarted 7) 11 := by decide +kernel
  have hr : ¬ r < 11 := fun hlt => hlater 11 hlt (by decide) hrise
  omega

end Zpsc.FaultBlock
