import Mathlib.Order.Monotone.Basic
import Mathlib.Tactic.Common

/-!
# Periodic events

An observer looks at the time `now k` again and again, and does something at some of its looks. The
time of the last one says how long it is since all of them.
-/

namespace Clocked

/-- The time of the last event before look `k`, and `start` when there was none. -/
def lastTime (start : ℕ) (now : ℕ → ℕ) (event : ℕ → Bool) : ℕ → ℕ
  | 0 => start
  | k + 1 => if event k then now k else lastTime start now event k

variable {start : ℕ} {now : ℕ → ℕ} {event : ℕ → Bool}

theorem lastTime_cases (start : ℕ) (now : ℕ → ℕ) (event : ℕ → Bool) (k : ℕ) :
    lastTime start now event k = start ∨
      ∃ j < k, event j = true ∧ lastTime start now event k = now j := by
  induction k with
  | zero => exact .inl rfl
  | succ k ih =>
    rw [lastTime]
    split
    · next hk => exact .inr ⟨k, Nat.lt_succ_self k, hk, rfl⟩
    · rcases ih with hstart | ⟨j, hj, hev, hlast⟩
      · exact .inl hstart
      · exact .inr ⟨j, by omega, hev, hlast⟩

theorem start_le_now (hfirst : start ≤ now 0) (hmono : ∀ k, now k ≤ now (k + 1)) (k : ℕ) :
    start ≤ now k := by
  induction k with
  | zero => exact hfirst
  | succ k ih => exact ih.trans (hmono k)

theorem start_le_lastTime (hfirst : start ≤ now 0) (hmono : ∀ k, now k ≤ now (k + 1)) (k : ℕ) :
    start ≤ lastTime start now event k := by
  rcases lastTime_cases start now event k with hs | ⟨j, -, -, hj⟩
  · exact hs.ge
  · rw [hj]
    exact start_le_now hfirst hmono j

theorem le_lastTime (hmono : ∀ k, now k ≤ now (k + 1)) {j k : ℕ} (hjk : j < k)
    (hj : event j = true) : now j ≤ lastTime start now event k := by
  induction k with
  | zero => omega
  | succ k ih =>
    rw [lastTime]
    split
    · exact monotone_nat_of_le_succ hmono (by omega)
    · next hk =>
      refine ih ?_
      by_contra hlt
      obtain rfl : j = k := by omega
      exact hk hj

/-- It is `n` since the last event exactly when it is `n` since the start and since each event. -/
theorem lastTime_add_le_iff (hfirst : start ≤ now 0) (hmono : ∀ k, now k ≤ now (k + 1)) {n k : ℕ} :
    lastTime start now event k + n ≤ now k ↔
      start + n ≤ now k ∧ ∀ j < k, event j = true → now j + n ≤ now k := by
  constructor
  · intro hle
    have hstart : start ≤ lastTime start now event k := start_le_lastTime hfirst hmono k
    refine ⟨by omega, ?_⟩
    intro j hj hev
    have hlast : now j ≤ lastTime start now event k := le_lastTime hmono hj hev
    omega
  · rintro ⟨hstart, hall⟩
    rcases lastTime_cases start now event k with hs | ⟨j, hj, hev, hl⟩
    · rw [hs]
      exact hstart
    · rw [hl]
      exact hall j hj hev

end Clocked
