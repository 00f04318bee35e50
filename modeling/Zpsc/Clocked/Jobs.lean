import Mathlib.Tactic.Common
import Zpsc.Clocked.Run

/-!
# Jobs

A machine takes a job when a start finds it idle, and is busy with it for some clocks; starts that
come meanwhile are lost. When the first job takes `K` clocks, a second one is taken exactly when two
starts are at least that far apart.
-/

namespace Clocked

/-- From clock 1 on, `left t` is the number of clocks until the machine is idle, and the first job
takes `K` clocks. -/
structure Jobs (left : ℕ → ℕ) (start : ℕ → Bool) (K : ℕ) : Prop where
  init : left 1 = 0
  /-- A job gets on by one every clock. -/
  busy : ∀ t, 0 < t → left t ≠ 0 → left (t + 1) + 1 = left t
  rest : ∀ t, 0 < t → left t = 0 → start t = false → left (t + 1) = 0
  /-- The first job takes `K` clocks. -/
  first : ∀ t, 0 < t → (∀ v, 0 < v → v < t → start v = false) → start t = true →
    left (t + 1) + 1 = K

namespace Jobs

variable {left : ℕ → ℕ} {start : ℕ → Bool} {K t k u : ℕ}

/-- Until the machine is idle each clock is one less. -/
theorem left_add (h : Jobs left start K) (ht : 0 < t) (hk : k ≤ left t) :
    left (t + k) + k = left t := by
  induction k with
  | zero => rfl
  | succ k ih =>
    have hleft := ih (by omega)
    have hnext := h.busy (t + k) (by omega) (by omega)
    rw [Nat.add_assoc] at hnext
    omega

/-- The machine is idle when nothing is left, and not before. -/
theorem idle_iff (h : Jobs left start K) (ht : 0 < t) (hk : k ≤ left t) :
    left (t + k) = 0 ↔ k = left t := by
  have hleft := h.left_add ht hk
  omega

/-- After a start the first job is over, or its time is still being counted. -/
theorem counted (h : Jobs left start K) (ht : 0 < t) :
    (∀ v, 0 < v → v < t → start v = false) ∨
      ∃ f, 0 < f ∧ start f = true ∧ f + K ≤ t + left t := by
  induction t, ht using Nat.le_induction with
  | base => exact .inl fun v hv hv1 => by omega
  | succ t ht ih =>
    rcases ih with hnone | ⟨f, hf, hstart, hle⟩
    · by_cases hi : start t = true
      · have hfirst := h.first t ht hnone hi
        exact .inr ⟨t, ht, hi, by omega⟩
      · left
        intro v hv hvt
        rcases Nat.lt_succ_iff_lt_or_eq.mp hvt with hlt | rfl
        · exact hnone v hv hlt
        · simpa using hi
    · refine .inr ⟨f, hf, hstart, ?_⟩
      by_cases hidle : left t = 0
      · omega
      · have hnext := h.busy t ht hidle
        omega

/-- A job that is not the first is taken when two starts are far enough apart. -/
theorem apart_of_taken (h : Jobs left start K) (ht : 0 < t) (hidle : left t = 0)
    (hstart : start t = true) (hu : 0 < u) (hut : u < t) (hu' : start u = true) :
    ∃ f t, 0 < f ∧ f + K ≤ t ∧ start f = true ∧ start t = true := by
  rcases h.counted ht with hnone | ⟨f, hf, hfs, hle⟩
  · cases (hnone u hu hut).symm.trans hu'
  · exact ⟨f, t, hf, by omega, hfs, hstart⟩

/-- Of two starts that are far enough apart, or of those between them, one is taken after the
first. -/
theorem taken_of_apart (h : Jobs left start K) {f : ℕ} (hf : 0 < f) (hft : f + K ≤ t)
    (hfs : start f = true) (hts : start t = true) :
    ∃ f₀ u, 0 < f₀ ∧ (∀ v, 0 < v → v < f₀ → start v = false) ∧ start f₀ = true ∧ f₀ + K ≤ u ∧
      left u = 0 ∧ start u = true := by
  have hex : ∃ f, 0 < f ∧ start f = true := ⟨f, hf, hfs⟩
  obtain ⟨f₀, ⟨hf₀, hstart⟩, hmin⟩ : ∃ f₀, (0 < f₀ ∧ start f₀ = true) ∧
      ∀ v < f₀, ¬ (0 < v ∧ start v = true) :=
    ⟨Nat.find hex, Nat.find_spec hex, fun v => Nat.find_min hex⟩
  have hle : f₀ ≤ f := by
    by_contra hlt
    exact hmin f (by omega) ⟨hf, hfs⟩
  have hnone : ∀ v, 0 < v → v < f₀ → start v = false := by
    intro v hv hvf
    simpa [hv] using hmin v hvf
  have hfirst := h.first f₀ hf₀ hnone hstart
  have hidle : left (f₀ + K) = 0 := by
    have hend := (h.idle_iff f₀.succ_pos le_rfl).mpr (rfl : left (f₀ + 1) = left (f₀ + 1))
    rwa [show f₀ + K = f₀ + 1 + left (f₀ + 1) by omega]
  by_contra hno
  push Not at hno
  have hstay : left t = 0 := by
    refine hold (P := fun v => left v = 0) (show f₀ + K ≤ t by omega) ?_ hidle
    intro v hv _ hv0
    exact h.rest v (by omega) hv0 (by simpa using hno f₀ v hf₀ hnone hstart hv hv0)
  exact hno f₀ t hf₀ hnone hstart (by omega) hstay hts

end Jobs

end Clocked
