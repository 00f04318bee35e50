import Mathlib.Algebra.BigOperators.Group.Finset.Basic
import Mathlib.Algebra.BigOperators.Intervals
import Mathlib.Tactic.Abel
import Mathlib.Tactic.Common

/-!
# Windows on a sequence

The sum of the last elements of a sequence, and the contents of a ring that is written in rounds: a
round has one element more than the ring has slots, and the last element of a round is not stored.
-/

namespace Window

variable {M : Type*} [AddCommGroup M] (x : ℕ → M) (A n : ℕ)

/-- The element `k` places before element `n`; there is 0 before the start. -/
def ago (k : ℕ) : M := if k ≤ n then x (n - k) else 0

/-- The sum of the `A` elements up to element `n`. -/
def windowSum : M := ∑ k ∈ Finset.range A, ago x n k

/-- The slots of a ring of `A` after `n` elements in rounds of `A + 1`. -/
def slots : ℕ → ℕ → M
  | 0, _ => 0
  | n + 1, j => if j = n % (A + 1) then x n else slots n j

variable {x A n}

theorem ago_succ (k : ℕ) : ago x (n + 1) (k + 1) = ago x n k := by
  simp only [ago, Nat.add_le_add_iff_right, Nat.add_sub_add_right]

theorem ago_zero : ago x n 0 = x n := by simp [ago]

theorem ago_of_lt {k : ℕ} (h : n < k) : ago x n k = 0 := if_neg (not_le.mpr h)

/-- The place in the round moves on by 1 and starts again after `A`. -/
theorem succ_mod (A n : ℕ) :
    (n + 1) % (A + 1) = if n % (A + 1) = A then 0 else n % (A + 1) + 1 := by
  have hlt : n % (A + 1) < A + 1 := Nat.mod_lt n (by omega)
  by_cases hA : n % (A + 1) = A
  · rw [if_pos hA, Nat.add_mod, hA]
    rcases Nat.eq_zero_or_pos A with rfl | hpos
    · rfl
    · rw [Nat.mod_eq_of_lt (show 1 < A + 1 by omega), Nat.mod_self]
  · rw [if_neg hA, Nat.add_mod, Nat.mod_eq_of_lt (show 1 < A + 1 by omega),
      Nat.mod_eq_of_lt (by omega)]

/-- A slot before the place in the round has an element of this round, another one of the round
before. -/
theorem slots_eq {j : ℕ} (hj : j < A) :
    slots x A (n + 1) j =
      ago x n (if j ≤ n % (A + 1) then n % (A + 1) - j else n % (A + 1) + 1 + A - j) := by
  induction n with
  | zero =>
    rw [slots, Nat.zero_mod]
    split
    · next h => rw [h, if_pos le_rfl, ago_zero]
    · next h =>
      rw [if_neg (by omega), ago_of_lt (by omega)]
      rfl
  | succ n ih =>
    have hlt : n % (A + 1) < A + 1 := Nat.mod_lt n (by omega)
    rw [slots, succ_mod]
    by_cases hA : n % (A + 1) = A
    · -- a new round starts, with slot 0
      rw [if_pos hA]
      by_cases h : j = 0
      · rw [if_pos h, h, if_pos le_rfl, ago_zero]
      · rw [if_neg h, ih, ← ago_succ, if_pos (by omega), if_neg (by omega)]
        congr 1
        omega
    · rw [if_neg hA]
      by_cases h : j = n % (A + 1) + 1
      · rw [if_pos h, if_pos h.le, h, Nat.sub_self, ago_zero]
      · rw [if_neg h, ih, ← ago_succ]
        congr 1
        split_ifs <;> omega

/-- The ring has the last `A + 1` elements, less the one that was not stored. -/
theorem sum_slots (x : ℕ → M) (A n : ℕ) :
    ∑ j ∈ Finset.range A, slots x A (n + 1) j =
      windowSum x (A + 1) n - ago x n ((n + 1) % (A + 1)) := by
  obtain ⟨r, hr⟩ : ∃ r, n % (A + 1) = r := ⟨_, rfl⟩
  have hlt : r < A + 1 := hr ▸ Nat.mod_lt n (by omega)
  rw [succ_mod, hr]
  have hslots : ∀ j ∈ Finset.range A, slots x A (n + 1) j =
      ago x n (if j ≤ r then r - j else r + 1 + A - j) := fun j hj =>
    hr ▸ slots_eq (Finset.mem_range.mp hj)
  rw [Finset.sum_congr rfl hslots, windowSum]
  rcases Nat.lt_succ_iff_lt_or_eq.mp hlt with hrA | hrA
  · -- slots up to `r`, then those after it, around the element that was skipped
    obtain ⟨m, rfl⟩ : ∃ m, A = r + 1 + m := ⟨A - (r + 1), by omega⟩
    rw [if_neg (by omega), Finset.sum_range_add, show r + 1 + m + 1 = r + 1 + (1 + m) by omega,
      Finset.sum_range_add _ (r + 1), Finset.sum_range_add _ 1 m, Finset.sum_range_one]
    have hfirst : ∑ j ∈ Finset.range (r + 1),
        ago x n (if j ≤ r then r - j else r + 1 + (r + 1 + m) - j) =
        ∑ k ∈ Finset.range (r + 1), ago x n k := by
      rw [← Finset.sum_range_reflect]
      refine Finset.sum_congr rfl ?_
      intro j hj
      have := Finset.mem_range.mp hj
      rw [if_pos (by omega)]
      congr 1
      omega
    have hsecond : ∑ i ∈ Finset.range m,
        ago x n (if r + 1 + i ≤ r then r - (r + 1 + i) else r + 1 + (r + 1 + m) - (r + 1 + i)) =
        ∑ i ∈ Finset.range m, ago x n (r + 1 + (1 + i)) := by
      rw [← Finset.sum_range_reflect]
      refine Finset.sum_congr rfl ?_
      intro j hj
      have := Finset.mem_range.mp hj
      rw [if_neg (by omega)]
      congr 1
      omega
    rw [hfirst, hsecond, Nat.add_zero]
    abel
  · -- the newest element is the one that was skipped
    rw [if_pos hrA, Finset.sum_range_succ', ago_zero, add_sub_cancel_right,
      ← Finset.sum_range_reflect]
    refine Finset.sum_congr rfl ?_
    intro j hj
    have := Finset.mem_range.mp hj
    rw [if_pos (by omega)]
    congr 1
    omega

/-- The ring has the window exactly when the element that was not stored is the one that has just
left the window. -/
theorem sum_slots_eq_iff (x : ℕ → M) (A n : ℕ) :
    ∑ j ∈ Finset.range A, slots x A (n + 1) j = windowSum x A n ↔
      ago x n A = ago x n ((n + 1) % (A + 1)) := by
  rw [sum_slots, windowSum, Finset.sum_range_succ, ← windowSum, sub_eq_iff_eq_add, add_right_inj]

end Window
