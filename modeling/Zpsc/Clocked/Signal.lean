import Mathlib.Order.Monotone.Basic
import Mathlib.Tactic.Common
import Zpsc.Clocked.Run

/-!
# Signals over time

Edges and gaps of a signal `g : ℕ → Bool`, its value at every clock. A gap is a run of `n` clocks at
which the signal is 0; a signal that has no gap before a clock has risen, and has had no gap since.
Ticks are the clocks of a signal that is 1 once in a while, in their order.
-/

namespace Clocked

/-- `g` has a rising edge at clock `s`. -/
def Rises (g : ℕ → Bool) (s : ℕ) : Prop := 0 < s ∧ g (s - 1) = false ∧ g s = true

/-- `g` was 0 at the `n` clocks before clock `t`, or at all of them when there are fewer. -/
def QuietFor (n : ℕ) (g : ℕ → Bool) (t : ℕ) : Prop := ∀ u < t, t ≤ u + n → g u = false

/-- From clock `s` on and before clock `t`, `g` is never 0 for `n` clocks in a row. -/
def Sustained (n : ℕ) (g : ℕ → Bool) (s t : ℕ) : Prop :=
  ∀ v, s ≤ v → v + n ≤ t → ∃ u, v ≤ u ∧ u < v + n ∧ g u = true

variable {n : ℕ} {g : ℕ → Bool} {s t : ℕ}

theorem quietFor_zero (n : ℕ) (g : ℕ → Bool) : QuietFor n g 0 :=
  fun u hu => absurd hu (Nat.not_lt_zero u)

theorem QuietFor.succ (h : QuietFor n g t) (ht : g t = false) : QuietFor n g (t + 1) := by
  intro u hu hn
  rcases Nat.lt_succ_iff_lt_or_eq.mp hu with hlt | rfl
  · exact h u hlt (by omega)
  · exact ht

theorem not_quietFor_succ (hn : 0 < n) (ht : g t = true) : ¬ QuietFor n g (t + 1) := by
  intro h
  rw [h t (Nat.lt_succ_self t) (by omega)] at ht
  exact Bool.false_ne_true ht

/-- The number of clocks since the last 1 of `g`, or since the start. -/
theorem le_sinceTick_zero_iff : n ≤ sinceTick 0 g t ↔ n ≤ t ∧ QuietFor n g t := by
  induction t generalizing n with
  | zero => exact ⟨fun h => ⟨h, quietFor_zero n g⟩, And.left⟩
  | succ t ih =>
    rcases Nat.eq_zero_or_pos n with rfl | hn
    · exact ⟨fun _ => ⟨Nat.zero_le _, fun u hu hle => by omega⟩, fun _ => Nat.zero_le _⟩
    rw [sinceTick]
    split
    · next ht => exact ⟨fun h => by omega, fun h => absurd h.2 (not_quietFor_succ hn ht)⟩
    · next ht =>
      obtain ⟨m, rfl⟩ := Nat.exists_eq_add_of_le' hn
      rw [Nat.add_le_add_iff_right, ih, Nat.add_le_add_iff_right]
      refine and_congr_right fun _ => ⟨?_, ?_⟩
      · intro h u hu hle
        rcases Nat.lt_succ_iff_lt_or_eq.mp hu with hlt | rfl
        · exact h u hlt (by omega)
        · simpa using ht
      · exact fun h u hu hle => h u (by omega) (by omega)

/-- Sustained for one clock more, unless a gap ends there. -/
theorem Sustained.succ (h : Sustained n g s t) (hq : ¬ QuietFor n g (t + 1)) :
    Sustained n g s (t + 1) := by
  intro v hsv hv
  by_cases hvt : v + n ≤ t
  · exact h v hsv hvt
  · unfold QuietFor at hq
    push Not at hq
    obtain ⟨u, hu, hun, hg⟩ := hq
    exact ⟨u, by omega, by omega, by simpa using hg⟩

/-- A signal that is 0 at clock 0 and 1 at clock `u` rose in between and was 1 from then on. -/
theorem exists_rises_le (h0 : g 0 = false) {u : ℕ} (hu : g u = true) :
    ∃ s, s ≤ u ∧ Rises g s ∧ ∀ w, s ≤ w → w ≤ u → g w = true := by
  induction u with
  | zero => simp [h0] at hu
  | succ u ih =>
    by_cases hg : g u = true
    · obtain ⟨s, hs, hr, hall⟩ := ih hg
      refine ⟨s, by omega, hr, ?_⟩
      intro w hsw hwu
      rcases Nat.le_succ_iff.mp hwu with hle | rfl
      · exact hall w hsw hle
      · exact hu
    · refine ⟨u + 1, le_rfl, ⟨by omega, by simpa using hg, hu⟩, ?_⟩
      intro w hsw hwu
      rw [show w = u + 1 by omega]
      exact hu

/-- Where no gap ends, the signal has risen and had no gap since. -/
theorem exists_rises_sustained (h0 : g 0 = false) (hq : ¬ QuietFor n g t) :
    ∃ s, s < t ∧ Rises g s ∧ Sustained n g s t := by
  unfold QuietFor at hq
  push Not at hq
  obtain ⟨u, hut, hun, hg⟩ := hq
  obtain ⟨s, hs, hr, hall⟩ := exists_rises_le h0 (by simpa using hg)
  exact ⟨s, by omega, hr, fun v hsv hv => ⟨v, le_rfl, by omega, hall v hsv (by omega)⟩⟩

/-! ## Ticks -/

/-- `tick k` is the clock of the `k`-th 1 of `g` after clock 0, and there are at least `d` clocks
from one to the next. -/
structure Ticks (g : ℕ → Bool) (d : ℕ) (tick : ℕ → ℕ) : Prop where
  pos : 0 < tick 0
  apart : ∀ k, tick k + d ≤ tick (k + 1)
  eq_true_iff : ∀ t, 0 < t → (g t = true ↔ ∃ k, t = tick k)

namespace Ticks

variable {d : ℕ} {tick : ℕ → ℕ} {k : ℕ}

theorem strictMono (h : Ticks g d tick) (hd : 0 < d) : StrictMono tick :=
  strictMono_nat_of_lt_succ fun k => by have := h.apart k; omega

theorem tick_pos (h : Ticks g d tick) (hd : 0 < d) (k : ℕ) : 0 < tick k :=
  h.pos.trans_le ((h.strictMono hd).monotone (Nat.zero_le k))

theorem at_tick (h : Ticks g d tick) (hd : 0 < d) (k : ℕ) : g (tick k) = true :=
  (h.eq_true_iff _ (h.tick_pos hd k)).mpr ⟨k, rfl⟩

theorem before_first (h : Ticks g d tick) (hd : 0 < d) (ht : 0 < t) (hlt : t < tick 0) :
    g t = false := by
  by_contra hno
  obtain ⟨j, rfl⟩ := (h.eq_true_iff t ht).mp (by simpa using hno)
  have := (h.strictMono hd).lt_iff_lt.mp hlt
  omega

theorem between (h : Ticks g d tick) (hd : 0 < d) (hk : tick k < t) (hlt : t < tick (k + 1)) :
    g t = false := by
  by_contra hno
  obtain ⟨j, rfl⟩ := (h.eq_true_iff t (by omega)).mp (by simpa using hno)
  have h1 := (h.strictMono hd).lt_iff_lt.mp hk
  have h2 := (h.strictMono hd).lt_iff_lt.mp hlt
  omega

end Ticks

end Clocked
