import Zpsc.Fault.PulseDelay
import Zpsc.Fault.Proofs.DualModeProofs

/-!
# Proofs: the turn-on delay

`low_cnt` is the number of low clocks in a row, up to `DELAY_COUNTS`. While the timer runs it is
behind `qual_cnt`, so the timer is never disarmed in the clock in which it ends (`Armed`).
-/

namespace Zpsc.PulseDelay

open Clocked

variable {n s t : ℕ} {x : ℕ → Bool}

theorem regs_succ (n : ℕ) (x : ℕ → Bool) (t : ℕ) :
    regs n x (t + 1) = (regs n x t).step n false (x t) := rfl

theorem sig_out_succ (n : ℕ) (x : ℕ → Bool) (t : ℕ) :
    (regs n x (t + 1)).sig_out = if (regs n x t).qualified then x t else false := rfl

theorem sig_in_d_eq (n : ℕ) (x : ℕ → Bool) (t : ℕ) :
    (regs n x t).sig_in_d = if t = 0 then false else x (t - 1) := by
  cases t <;> rfl

/-! ## The low clocks -/

theorem low_cnt_eq (hn : n < 2 ^ 32) (t : ℕ) :
    (regs n x t).low_cnt.toNat = min n (sinceTick 0 x t) := by
  induction t with
  | zero => exact (Nat.min_zero n).symm
  | succ t ih =>
    have hnat : (BitVec.ofNat 32 n).toNat = n := by
      rw [BitVec.toNat_ofNat, Nat.mod_eq_of_lt hn]
    have hone : (1 : BitVec 32).toNat = 1 := rfl
    rw [regs_succ, sinceTick]
    simp only [step, Bool.false_eq_true, if_false]
    split
    · exact (Nat.min_zero n).symm
    · split
      · next hne =>
        rw [Ne, ← BitVec.toNat_inj, hnat] at hne
        rw [BitVec.toNat_add, ih, hone]
        omega
      · next heq =>
        rw [not_not, ← BitVec.toNat_inj, hnat] at heq
        omega

/-- While there are less than `n` low clocks in a row, the delay is not disarmed. -/
theorem low_cnt_lt (hn : n < 2 ^ 32) (hx : x s = true) (hst : s < t) (h : Sustained n x s t) :
    (regs n x t).low_cnt.toNat < n := by
  rw [low_cnt_eq hn]
  by_contra hge
  obtain ⟨hnt, hquiet⟩ := le_sinceTick_zero_iff.mp (show n ≤ sinceTick 0 x t by omega)
  have hs : s ≤ t - n := by
    by_contra hlt
    rw [hquiet s hst (by omega)] at hx
    exact Bool.false_ne_true hx
  obtain ⟨u, hu, hun, hxu⟩ := h (t - n) hs (by omega)
  rw [hquiet u (by omega) (by omega)] at hxu
  exact Bool.false_ne_true hxu

/-- One clock more without `n` low clocks in a row. -/
theorem sustained_of_low_cnt (hn : n < 2 ^ 32) (hst : s < t) (h : Sustained n x s (t - 1))
    (hlow : (regs n x t).low_cnt.toNat < n) : Sustained n x s t := by
  obtain ⟨t, rfl⟩ := Nat.exists_eq_add_of_lt hst
  rw [low_cnt_eq hn] at hlow
  intro v hsv hv
  by_cases hvt : v + n ≤ s + t
  · exact h v hsv hvt
  · have hnot : ¬ QuietFor n x (s + t + 1) := by
      intro hquiet
      have hle := le_sinceTick_zero_iff.mpr ⟨show n ≤ s + t + 1 by omega, hquiet⟩
      omega
    unfold QuietFor at hnot
    push Not at hnot
    obtain ⟨u, hu, hun, hxu⟩ := hnot
    exact ⟨u, by omega, by omega, by simpa using hxu⟩

/-! ## Armed -/

/-- What has come before clock `t` when the delay is armed since the edge at clock `s`. -/
structure Armed (n : ℕ) (x : ℕ → Bool) (s t : ℕ) : Prop where
  edge : Edge x s
  lt : s < t
  sustained : Sustained n x s (t - 1)
  counting : (regs n x t).qualified = false →
    s + 1 + (regs n x t).qual_cnt.toNat ≤ t ∧ (regs n x t).qual_cnt.toNat < n ∧
      (regs n x t).low_cnt.toNat ≤ (regs n x t).qual_cnt.toNat
  qualified : (regs n x t).qualified = true → s + n + 1 ≤ t

/-- The last rising edge of an input that is 1. -/
theorem exists_edge (hx : x t = true) :
    ∃ s ≤ t, Edge x s ∧ ∀ v, s ≤ v → v ≤ t → x v = true := by
  induction t with
  | zero =>
    refine ⟨0, le_rfl, ⟨hx, fun h => absurd h (lt_irrefl 0)⟩, ?_⟩
    intro v _ hv
    rwa [Nat.le_zero.mp hv]
  | succ t ih =>
    by_cases ht : x t = true
    · obtain ⟨s, hs, hedge, hall⟩ := ih ht
      refine ⟨s, by omega, hedge, ?_⟩
      intro v hsv hv
      rcases Nat.le_succ_iff.mp hv with hle | rfl
      · exact hall v hsv hle
      · exact hx
    · refine ⟨t + 1, le_rfl, ⟨hx, fun _ => by simpa using ht⟩, ?_⟩
      intro v hsv hv
      rwa [show v = t + 1 by omega]

/-- The timer starts. -/
theorem armed_start (hn : 0 < n) (hx : x t = true) (hq : (regs n x (t + 1)).qualified = false)
    (hcnt : (regs n x (t + 1)).qual_cnt = 0) : ∃ s, Armed n x s (t + 1) := by
  obtain ⟨s, hst, hedge, hall⟩ := exists_edge hx
  have hlow : (regs n x (t + 1)).low_cnt = 0 := by
    rw [regs_succ, hx]
    rfl
  refine ⟨s, hedge, by omega, fun v hsv hv => ⟨v, le_rfl, by omega, hall v hsv (by omega)⟩, ?_, ?_⟩
  · intro _
    rw [hcnt, hlow]
    exact ⟨by simpa using hst, hn, le_rfl⟩
  · intro hq'
    rw [hq] at hq'
    cases hq'

theorem step_disarm {d : PulseDelay} {b : Bool} (hn : 0 < n) (hn' : n < 2 ^ 32)
    (hq : d.qualified = true) (hlow : n ≤ d.low_cnt.toNat) :
    (d.step n false b).started = false ∧ (d.step n false b).qualified = false := by
  have hrearm : n ≠ 0 ∧ BitVec.ofNat 32 n ≤ d.low_cnt := by
    refine ⟨hn.ne', ?_⟩
    rwa [BitVec.le_def, BitVec.toNat_ofNat, Nat.mod_eq_of_lt hn']
  simp [step, hq, hrearm]

theorem low_cnt_succ_le (n : ℕ) (x : ℕ → Bool) (t : ℕ) :
    (regs n x (t + 1)).low_cnt.toNat ≤ (regs n x t).low_cnt.toNat + 1 := by
  have hone : (1 : BitVec 32).toNat = 1 := rfl
  rw [regs_succ]
  simp only [step, Bool.false_eq_true, if_false]
  split
  · exact Nat.zero_le _
  · split
    · rw [BitVec.toNat_add, hone]
      exact Nat.mod_le _ _
    · exact Nat.le_succ _

theorem Armed.succ (hn : 0 < n) (hn' : n < 2 ^ 32) (h : Armed n x s t)
    (hnow : (regs n x t).started = true ∨ (regs n x t).qualified = true)
    (hnext : (regs n x (t + 1)).started = true ∨ (regs n x (t + 1)).qualified = true) :
    Armed n x s (t + 1) := by
  have hst := h.lt
  cases hq : (regs n x t).qualified with
  | true =>
    have hlow : (regs n x t).low_cnt.toNat < n := by
      by_contra hge
      obtain ⟨h1, h2⟩ := step_disarm (b := x t) hn hn' hq (not_lt.mp hge)
      rw [regs_succ, h1, h2] at hnext
      simp at hnext
    have hq' : (regs n x (t + 1)).qualified = true := by
      rw [regs_succ]
      exact step_qualified hn' hlow hq
    have hle := h.qualified hq
    refine ⟨h.edge, by omega, sustained_of_low_cnt hn' hst h.sustained hlow, ?_, fun _ => by omega⟩
    intro hno
    rw [hq'] at hno
    cases hno
  | false =>
    obtain ⟨hle, hlt, hbehind⟩ := h.counting hq
    have hs : (regs n x t).started = true := by simpa [hq] using hnow
    have hsust := sustained_of_low_cnt hn' hst h.sustained (by omega)
    by_cases hlast : (regs n x t).qual_cnt.toNat + 1 = n
    · have hq' : (regs n x (t + 1)).qualified = true := by
        rw [regs_succ]
        exact step_last hn' hs hq hlast
      refine ⟨h.edge, by omega, hsust, ?_, fun _ => by omega⟩
      intro hno
      rw [hq'] at hno
      cases hno
    · obtain ⟨-, hq', hcnt⟩ :=
        step_counting (x := x t) hn' (show (regs n x t).low_cnt.toNat < n by omega) hs hq (by omega)
      rw [← regs_succ] at hq' hcnt
      have hlow := low_cnt_succ_le n x t
      refine ⟨h.edge, by omega, hsust, fun _ => ⟨by omega, by omega, by omega⟩, ?_⟩
      intro hyes
      rw [hq'] at hyes
      cases hyes

theorem armed (hn : 0 < n) (hn' : n < 2 ^ 32) (t : ℕ) :
    (regs n x t).started = true ∨ (regs n x t).qualified = true → ∃ s, Armed n x s t := by
  induction t with
  | zero =>
    rintro (h | h)
    all_goals cases h
  | succ t ih =>
    intro hnext
    obtain ⟨-, ⟨hx, hq, hcnt⟩ | ⟨hnow, -⟩⟩ := armed_step (regs_succ n x t ▸ hnext)
    · exact armed_start hn hx hq hcnt
    · obtain ⟨s, hs⟩ := ih hnow
      exact ⟨s, hs.succ hn hn' hnow hnext⟩

theorem onlyAfterDelay (hn : 0 < n) (hn' : n < 2 ^ 32) (x : ℕ → Bool) (t : ℕ) :
    OnlyAfterDelay n x t := by
  intro hout
  rw [regs_succ] at hout
  obtain ⟨-, hq, hx⟩ := step_sig_out hout
  obtain ⟨s, hs⟩ := armed hn hn' t (.inr hq)
  have hst := hs.lt
  refine ⟨hx, s, hs.edge, hs.qualified hq, ?_⟩
  intro v hsv hv
  by_cases hvt : v + n = t
  · exact ⟨t, by omega, by omega, hx⟩
  · obtain ⟨u, hu, hun, hxu⟩ := hs.sustained v hsv (by omega)
    exact ⟨u, hu, by omega, hxu⟩

/-! ## After an edge -/

/-- The timer runs for `n` clocks after the clock of the edge. -/
theorem regs_counting (hn' : n < 2 ^ 32) (hs : (regs n x s).started = false)
    (hq : (regs n x s).qualified = false) (hedge : Edge x s) (hsust : Sustained n x s t) {k : ℕ}
    (hk : k < n) (hkt : s + 1 + k ≤ t) :
    (regs n x (s + 1 + k)).started = true ∧ (regs n x (s + 1 + k)).qualified = false ∧
      (regs n x (s + 1 + k)).qual_cnt.toNat = k := by
  induction k with
  | zero =>
    have hd : (regs n x s).sig_in_d = false := by
      rw [sig_in_d_eq]
      split
      · rfl
      · exact hedge.2 (by omega)
    obtain ⟨h1, h2, -, h4⟩ := step_disarmed (n := n) (x := x s) hs hq hd
    rw [← regs_succ] at h1 h2 h4
    rw [Nat.add_zero, h4 hedge.1]
    exact ⟨h1.trans hedge.1, h2, rfl⟩
  | succ k ih =>
    obtain ⟨h1, h2, h3⟩ := ih (by omega) (by omega)
    have hlow := low_cnt_lt hn' hedge.1 (show s < s + 1 + k by omega)
      (fun v hsv hv => hsust v hsv (by omega))
    obtain ⟨h1', h2', h3'⟩ := step_counting (x := x (s + 1 + k)) hn' hlow h1 h2 (by omega)
    rw [← Nat.add_assoc, regs_succ]
    exact ⟨h1', h2', by omega⟩

theorem followsAfterDelay (hn : 0 < n) (hn' : n < 2 ^ 32) (x : ℕ → Bool) (t : ℕ) :
    FollowsAfterDelay n x t := by
  intro s hs hq hedge ht hsust
  have hqual : (regs n x t).qualified = true := by
    refine hold (P := fun v => (regs n x v).qualified = true) ht ?_ ?_
    · intro v hv hvt hqv
      rw [regs_succ]
      exact step_qualified hn' (low_cnt_lt hn' hedge.1 (by omega)
        (fun w hsw hw => hsust w hsw (by omega))) hqv
    · obtain ⟨h1, h2, h3⟩ := regs_counting hn' hs hq hedge hsust
        (show n - 1 < n by omega) (by omega)
      rw [show s + n + 1 = s + 1 + (n - 1) + 1 by omega, regs_succ]
      exact step_last hn' h1 h2 (by omega)
  rw [sig_out_succ, hqual]
  rfl

/-- For every delay, which is a `natural`, and every waveform. -/
theorem delay_law (hn : 0 < n) (hn' : n < 2 ^ 31) (x : ℕ → Bool) (t : ℕ) :
    OnlyAfterDelay n x t ∧ FollowsAfterDelay n x t :=
  ⟨onlyAfterDelay hn (by omega) x t, followsAfterDelay hn (by omega) x t⟩

/-- A square wave that is high for one clock and low for one. -/
theorem delay_law_square :
    OnlyAfterDelay 2 (fun t => t % 2 = 1) 5 ∧ FollowsAfterDelay 2 (fun t => t % 2 = 1) 5 :=
  delay_law (by decide) (by decide) _ 5

end Zpsc.PulseDelay
