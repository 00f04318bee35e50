import Mathlib.Data.List.Basic
import Mathlib.Tactic.Common

/-!
# Sampled signals

A signal `x` that is sampled at the clocks at which `p` is 1, from one clock on and before another.
-/

namespace Clocked

variable {α : Type*}

/-- The values of `x` at the clocks of `[a, b)` at which `p` is 1, in order. -/
def sampled (p : ℕ → Bool) (x : ℕ → α) (a b : ℕ) : List α :=
  ((List.range' a (b - a)).filter p).map x

variable {p : ℕ → Bool} {x : ℕ → α} {a b c : ℕ}

theorem sampled_of_le (h : b ≤ a) : sampled p x a b = [] := by
  rw [sampled, Nat.sub_eq_zero_of_le h]
  rfl

theorem sampled_append (hab : a ≤ b) (hbc : b ≤ c) :
    sampled p x a c = sampled p x a b ++ sampled p x b c := by
  rw [sampled, sampled, sampled, ← List.map_append, ← List.filter_append,
    show c - a = b - a + (c - b) by omega, ← List.range'_append, show a + 1 * (b - a) = b by omega]

theorem sampled_one (p : ℕ → Bool) (x : ℕ → α) (a : ℕ) :
    sampled p x a (a + 1) = if p a = true then [x a] else [] := by
  rw [sampled, Nat.add_sub_cancel_left, List.range'_one, List.filter_singleton]
  cases p a <;> rfl

theorem sampled_succ (h : a ≤ b) :
    sampled p x a (b + 1) = sampled p x a b ++ if p b = true then [x b] else [] := by
  rw [sampled_append h (Nat.le_succ b), sampled_one]

theorem sampled_none (h : ∀ v, a ≤ v → v < b → p v = false) : sampled p x a b = [] := by
  rw [sampled, List.map_eq_nil_iff, List.filter_eq_nil_iff]
  intro v hv
  obtain ⟨hav, hvb⟩ := List.mem_range'_1.mp hv
  rw [h v hav (by omega)]
  exact Bool.false_ne_true

end Clocked
