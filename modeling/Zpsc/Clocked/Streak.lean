import Mathlib.Data.Nat.Basic
import Mathlib.Tactic.Common

/-!
# Streaks

A test that is made at some clocks has, at each clock, an outcome: it is not made, or it succeeds,
or it fails. A streak is a run of successes that no failure interrupts; `Since o P t` says that `P`
held at a clock before `t` after which no failure came.
-/

namespace Clocked

inductive Outcome where
  | skip | hit | miss
  deriving DecidableEq, Repr

/-- The number of successes before clock `t` since the last failure. -/
def streak (o : ℕ → Outcome) : ℕ → ℕ
  | 0 => 0
  | t + 1 =>
    match o t with
    | .skip => streak o t
    | .hit => streak o t + 1
    | .miss => 0

/-- `P` held at a clock before `t` from which on no failure came. -/
def Since (o : ℕ → Outcome) (P : ℕ → Prop) (t : ℕ) : Prop :=
  ∃ u < t, P u ∧ ∀ v < t, u ≤ v → o v ≠ .miss

instance (o : ℕ → Outcome) (P : ℕ → Prop) [DecidablePred P] (t : ℕ) : Decidable (Since o P t) :=
  inferInstanceAs (Decidable (∃ u, u < t ∧ _))

variable {o : ℕ → Outcome} {P : ℕ → Prop} {t : ℕ}

theorem streak_skip (h : o t = .skip) : streak o (t + 1) = streak o t := by
  rw [streak, h]

theorem streak_hit (h : o t = .hit) : streak o (t + 1) = streak o t + 1 := by
  rw [streak, h]

theorem streak_miss (h : o t = .miss) : streak o (t + 1) = 0 := by
  rw [streak, h]

theorem not_since_zero (o : ℕ → Outcome) (P : ℕ → Prop) : ¬ Since o P 0 := by
  rintro ⟨u, hu, -⟩
  exact absurd hu (Nat.not_lt_zero u)

theorem since_succ : Since o P (t + 1) ↔ o t ≠ .miss ∧ (P t ∨ Since o P t) := by
  constructor
  · rintro ⟨u, hu, hP, hv⟩
    refine ⟨hv t (by omega) (by omega), ?_⟩
    rcases Nat.lt_succ_iff_lt_or_eq.mp hu with hlt | rfl
    · exact .inr ⟨u, hlt, hP, fun v hvt huv => hv v (by omega) huv⟩
    · exact .inl hP
  · rintro ⟨ht, hP | ⟨u, hu, hP, hv⟩⟩
    · refine ⟨t, by omega, hP, ?_⟩
      intro v hvt htv
      rwa [show v = t by omega]
    · refine ⟨u, by omega, hP, ?_⟩
      intro v hvt huv
      rcases Nat.lt_succ_iff_lt_or_eq.mp hvt with hlt | rfl
      · exact hv v hlt huv
      · exact ht

/-- A streak in which a success had some property is not empty. -/
theorem streak_pos (hP : ∀ u, P u → o u = .hit) (h : Since o P t) : 0 < streak o t := by
  induction t with
  | zero => exact absurd h (not_since_zero o P)
  | succ t ih =>
    obtain ⟨hmiss, hnow | hbefore⟩ := since_succ.mp h
    · rw [streak_hit (hP t hnow)]
      omega
    · have hpos := ih hbefore
      cases ho : o t with
      | skip => rwa [streak_skip ho]
      | hit =>
        rw [streak_hit ho]
        omega
      | miss => exact absurd ho hmiss

end Clocked
