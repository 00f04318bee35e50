import Mathlib.Tactic.Common

/-!
# Clock dividers

A counter of `N` values divides a clock by `D`: it counts up at each clock and goes back to 0 when
it is at `D - 1`, which it gets to if that is one of its values.
-/

namespace Clocked

/-- A value of the counter. -/
def Within (N D c : ℕ) : Prop := c < N ∧ (0 < D ∧ D ≤ N → c < D)

variable {N D c : ℕ}

theorem Within.zero (hN : 0 < N) (D : ℕ) : Within N D 0 := ⟨hN, And.left⟩

/-- The counter counts up. -/
theorem Within.next (h : Within N D c) (hne : c + 1 ≠ D) : Within N D ((c + 1) % N) := by
  have hlt := h.1
  refine ⟨Nat.mod_lt _ (by omega), ?_⟩
  intro hD
  have hcD := h.2 hD
  rw [Nat.mod_eq_of_lt (by omega)]
  omega

/-- The counter gets to the end of its period. -/
theorem Within.divides (h : Within N D c) (heq : c + 1 = D) : 0 < D ∧ D ≤ N := by
  have hlt := h.1
  omega

end Clocked
