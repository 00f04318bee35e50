import Mathlib.Data.List.Basic
import Mathlib.Order.Interval.Finset.Nat
import Mathlib.Tactic.Common

/-!
# Synchronous machines

A synchronous machine is a function `step : σ → ι → σ` from the state before a clock edge and the
inputs sampled at that edge to the state after it. Two ways of running one are used:

* `run step s is` runs it over a finite list of inputs, `states step s is` lists the states after
  each clock and `pulses p step s is` counts the clocks after which `p` holds;
* `trace step s inp` runs it over an infinite input history: `trace step s inp t` is the state
  before clock `t`.

The rules below are the induction principles for both: an invariant, a property that holds from
some clock on for as long as a guard does, and a relation between two runs.
-/

namespace Clocked

variable {σ ι σ' ι' : Type*}

/-! ## Finite runs -/

/-- The state after the inputs `is`, from `s`. -/
def run (step : σ → ι → σ) : σ → List ι → σ
  | s, [] => s
  | s, i :: is => run step (step s i) is

/-- The states after each of the clocks of a run. -/
def states (step : σ → ι → σ) : σ → List ι → List σ
  | _, [] => []
  | s, i :: is => step s i :: states step (step s i) is

/-- The number of clocks of a run after which `p` holds. -/
def pulses (p : σ → Bool) (step : σ → ι → σ) (s : σ) (is : List ι) : ℕ :=
  (states step s is).countP p

@[simp] theorem run_nil (step : σ → ι → σ) (s : σ) : run step s [] = s := rfl

@[simp] theorem run_cons (step : σ → ι → σ) (s : σ) (i : ι) (is : List ι) :
    run step s (i :: is) = run step (step s i) is := rfl

theorem run_append (step : σ → ι → σ) (s : σ) (is js : List ι) :
    run step s (is ++ js) = run step (run step s is) js := by
  induction is generalizing s with
  | nil => rfl
  | cons i is ih => exact ih (step s i)

theorem states_append (step : σ → ι → σ) (s : σ) (is js : List ι) :
    states step s (is ++ js) = states step s is ++ states step (run step s is) js := by
  induction is generalizing s with
  | nil => rfl
  | cons i is ih => simp only [List.cons_append, states, run_cons, ih]

@[simp] theorem pulses_nil (p : σ → Bool) (step : σ → ι → σ) (s : σ) :
    pulses p step s [] = 0 := rfl

theorem pulses_cons (p : σ → Bool) (step : σ → ι → σ) (s : σ) (i : ι) (is : List ι) :
    pulses p step s (i :: is) = pulses p step (step s i) is + if p (step s i) then 1 else 0 := by
  simp [pulses, states, List.countP_cons]

theorem pulses_append (p : σ → Bool) (step : σ → ι → σ) (s : σ) (is js : List ι) :
    pulses p step s (is ++ js) = pulses p step s is + pulses p step (run step s is) js := by
  induction is generalizing s with
  | nil => simp
  | cons i is ih =>
    rw [List.cons_append, pulses_cons, pulses_cons, ih, run_cons]
    omega

/-- Invariant rule for finite runs: a property that every clock of the run preserves holds at its
end. -/
theorem run_inv {step : σ → ι → σ} (Inv : σ → Prop) {s : σ} {is : List ι}
    (hstep : ∀ s, Inv s → ∀ i ∈ is, Inv (step s i)) (h : Inv s) : Inv (run step s is) := by
  induction is generalizing s with
  | nil => exact h
  | cons i is ih =>
    exact ih (fun s hs j hj => hstep s hs j (List.mem_cons_of_mem i hj))
      (hstep s h i (List.mem_cons_self ..))

theorem pulses_eq_zero {step : σ → ι → σ} (Inv : σ → Prop) {p : σ → Bool} {s : σ} {is : List ι}
    (hstep : ∀ s, Inv s → ∀ i ∈ is, Inv (step s i) ∧ p (step s i) = false) (h : Inv s) :
    pulses p step s is = 0 := by
  induction is generalizing s with
  | nil => rfl
  | cons i is ih =>
    obtain ⟨hi, hp⟩ := hstep s h i (List.mem_cons_self ..)
    rw [pulses_cons, hp, ih (fun s hs j hj => hstep s hs j (List.mem_cons_of_mem i hj)) hi]
    rfl

/-! ## Infinite runs -/

/-- The state before clock `t` of the run of `step` from `s` under the input history `inp`. -/
def trace (step : σ → ι → σ) (s : σ) (inp : ℕ → ι) : ℕ → σ
  | 0 => s
  | t + 1 => step (trace step s inp t) (inp t)

@[simp] theorem trace_zero (step : σ → ι → σ) (s : σ) (inp : ℕ → ι) : trace step s inp 0 = s := rfl

theorem trace_succ (step : σ → ι → σ) (s : σ) (inp : ℕ → ι) (t : ℕ) :
    trace step s inp (t + 1) = step (trace step s inp t) (inp t) := rfl

theorem run_replicate (step : σ → ι → σ) (s : σ) (i : ι) (n : ℕ) :
    run step s (List.replicate n i) = trace step s (fun _ => i) n := by
  induction n with
  | zero => rfl
  | succ n ih => rw [List.replicate_succ', run_append, ih, trace_succ, run_cons, run_nil]

/-- A property that holds at clock `t` and is preserved by every clock of `[t, u)` holds at
clock `u`. -/
theorem hold {P : ℕ → Prop} {t u : ℕ} (htu : t ≤ u)
    (hstep : ∀ v, t ≤ v → v < u → P v → P (v + 1)) (h : P t) : P u := by
  induction u, htu using Nat.le_induction with
  | base => exact h
  | succ u htu ih =>
    exact hstep u htu (Nat.lt_succ_self u)
      (ih fun v hv hvu => hstep v hv (Nat.lt_succ_of_lt hvu))

/-- Relational rule for infinite runs: two machines whose states start related and whose clocks
keep them related stay related forever. -/
theorem trace_rel {step : σ → ι → σ} {step' : σ' → ι' → σ'} {R : σ → σ' → Prop}
    {s : σ} {s' : σ'} {inp : ℕ → ι} {inp' : ℕ → ι'}
    (hstep : ∀ t a b, R a b → R (step a (inp t)) (step' b (inp' t))) (h : R s s') (t : ℕ) :
    R (trace step s inp t) (trace step' s' inp' t) := by
  induction t with
  | zero => exact h
  | succ t ih => exact hstep t _ _ ih

/-- A part of a machine, with the inputs that the machine gives it, runs on its own. -/
theorem trace_proj {step : σ → ι → σ} {step' : σ' → ι' → σ'} (part : σ → σ') (feed : σ → ι → ι')
    (hstep : ∀ s i, part (step s i) = step' (part s) (feed s i)) (s : σ) (inp : ℕ → ι) (t : ℕ) :
    part (trace step s inp t) =
      trace step' (part s) (fun v => feed (trace step s inp v) (inp v)) t := by
  induction t with
  | zero => rfl
  | succ t ih => rw [trace_succ, trace_succ, hstep, ih]

theorem trace_add (step : σ → ι → σ) (s : σ) (inp : ℕ → ι) (t u : ℕ) :
    trace step s inp (t + u) = trace step (trace step s inp t) (fun v => inp (t + v)) u := by
  induction u with
  | zero => rfl
  | succ u ih => rw [← Nat.add_assoc, trace_succ, trace_succ, ih]

/-- Progress rule: a rank that no clock raises before `P` holds, and that every clock lowers at
which `go` holds, leads to `P` when `go` holds again and again. -/
theorem eventually_of_rank {P go : ℕ → Prop} (rank : ℕ → ℕ) (hgo : ∀ t, ∃ t', t ≤ t' ∧ go t')
    (hstep : ∀ t, ¬ P t → rank (t + 1) ≤ rank t ∧ (go t → rank (t + 1) < rank t)) (t : ℕ) :
    ∃ t', t ≤ t' ∧ P t' := by
  by_contra hnever
  push Not at hnever
  have hmono : ∀ u, t ≤ u → ∀ v, u ≤ v → rank v ≤ rank u := fun u hu v huv =>
    hold (P := fun w => rank w ≤ rank u) huv
      (fun w hw _ hle => (hstep w (hnever w (hu.trans hw))).1.trans hle) le_rfl
  -- the rank is lowered again and again
  have hlow : ∀ n, ∃ u, t ≤ u ∧ rank u + n ≤ rank t := by
    intro n
    induction n with
    | zero => exact ⟨t, le_rfl, le_rfl⟩
    | succ n ih =>
      obtain ⟨u, hu, hn⟩ := ih
      obtain ⟨v, huv, hv⟩ := hgo u
      have h1 := hmono u hu v huv
      have h2 := (hstep v (hnever v (hu.trans huv))).2 hv
      exact ⟨v + 1, by omega, by omega⟩
  obtain ⟨u, -, hu⟩ := hlow (rank t + 1)
  omega

/-- Only one clock is the first after clock 0 at which `P` holds. -/
theorem first_unique {P : ℕ → Prop} {t u : ℕ} (ht : 0 < t) (hbt : ∀ v, 0 < v → v < t → ¬ P v)
    (hPt : P t) (hu : 0 < u) (hbu : ∀ v, 0 < v → v < u → ¬ P v) (hPu : P u) : t = u := by
  rcases Nat.lt_trichotomy t u with hlt | heq | hlt
  · exact absurd hPt (hbu t ht hlt)
  · exact heq
  · exact absurd hPu (hbt u hu hlt)

/-! ## Ticks -/

/-- Two ticks are at least `n` clocks apart. -/
def TicksApart (n : ℕ) (tick : ℕ → Bool) : Prop :=
  ∀ t t', t < t' → tick t = true → tick t' = true → t + n ≤ t'

/-- The last tick before clock `t`. -/
theorem exists_last_tick (tick : ℕ → Bool) (t : ℕ) :
    (∀ u < t, tick u = false) ∨
      ∃ t' < t, tick t' = true ∧ ∀ u, t' < u → u < t → tick u = false := by
  induction t with
  | zero => exact .inl fun u hu => absurd hu (Nat.not_lt_zero u)
  | succ t ih =>
    by_cases ht : tick t = true
    · exact .inr ⟨t, Nat.lt_succ_self t, ht, fun u hu hut => by omega⟩
    · rw [Bool.not_eq_true] at ht
      rcases ih with hnone | ⟨t', ht', hk, hbetween⟩
      · left
        intro u hu
        rcases Nat.lt_succ_iff_lt_or_eq.mp hu with hlt | rfl
        · exact hnone u hlt
        · exact ht
      · right
        refine ⟨t', by omega, hk, ?_⟩
        intro u htu hu
        rcases Nat.lt_succ_iff_lt_or_eq.mp hu with hlt | rfl
        · exact hbetween u htu hlt
        · exact ht

/-- The number of clocks since the last tick before clock `t`, counted from `n` when there was
none. -/
def sinceTick (n : ℕ) (tick : ℕ → Bool) : ℕ → ℕ
  | 0 => n
  | t + 1 => if tick t then 0 else sinceTick n tick t + 1

/-- When less than `n` clocks have passed since the last tick, there was one. -/
theorem exists_tick (n : ℕ) (tick : ℕ → Bool) {t : ℕ} (h : sinceTick n tick t < n) :
    ∃ t', t' + sinceTick n tick t + 1 = t ∧ tick t' = true := by
  induction t with
  | zero => exact absurd h (lt_irrefl n)
  | succ t ih =>
    rw [sinceTick] at h ⊢
    split
    · next ht => exact ⟨t, rfl, ht⟩
    · next ht =>
      rw [if_neg ht] at h
      obtain ⟨t', ht', hk⟩ := ih (by omega)
      exact ⟨t', by omega, hk⟩

theorem le_sinceTick_of_none {n : ℕ} {tick : ℕ → Bool} {t : ℕ} (h : ∀ u < t, tick u = false) :
    n ≤ sinceTick n tick t := by
  by_contra hlt
  obtain ⟨t', ht', hk⟩ := exists_tick n tick (t := t) (by omega)
  rw [h t' (by omega)] at hk
  exact Bool.false_ne_true hk

/-- Between ticks `n` clocks apart, at least `n - 1` clocks have passed when the next one comes. -/
theorem le_sinceTick {n : ℕ} {tick : ℕ → Bool} (h : TicksApart n tick) {t : ℕ}
    (ht : tick t = true) : n ≤ sinceTick n tick t + 1 := by
  by_contra hlt
  obtain ⟨t', ht', hk⟩ := exists_tick n tick (t := t) (by omega)
  have := h t' t (by omega) hk ht
  omega

/-- Up to the next tick the clocks since a tick are counted from 0. -/
theorem sinceTick_after {m n : ℕ} {tick : ℕ → Bool} (h : TicksApart n tick) {t k : ℕ}
    (ht : tick t = true) (hk : k < n) : sinceTick m tick (t + 1 + k) = k := by
  induction k with
  | zero => rw [Nat.add_zero, sinceTick, if_pos ht]
  | succ k ih =>
    have hno : ¬ tick (t + 1 + k) = true := by
      intro hk'
      have := h t (t + 1 + k) (by omega) ht hk'
      omega
    rw [← Nat.add_assoc, sinceTick, if_neg hno, ih (by omega)]

end Clocked
