import Zpsc.Adc.GainOffsetTiming
import Zpsc.Adc.Proofs.GainOffsetProofs

/-!
# Every conversion is calibrated once

A pass that starts at clock `a` has its results out from clock `a + 3` on, and `done` at clock
`a + 10`; then the state machine waits again, and the results stay until the next pass.
-/

namespace Zpsc.AdcGainOffset

open Bits Clocked

variable {ι : Type} {w : ℕ} {sign : BitVec w → BitVec w} {s : Stage ι w} {inp : ℕ → In ι w}
  {a b v : ℕ}

section Run

variable (hr : ∀ v, a ≤ v → (inp v).reset = false)
include hr

/-- While the state machine waits nothing changes. -/
theorem waits_hold (h : Waits (trace (step sign) s inp a)) (hab : a ≤ b) (hno : NotDone inp a b) :
    Waits (trace (step sign) s inp b) ∧
      (trace (step sign) s inp b).out = (trace (step sign) s inp a).out := by
  induction b, hab using Nat.le_induction with
  | base => exact ⟨h, rfl⟩
  | succ b hab ih =>
    obtain ⟨hw, hout⟩ := ih fun v hv hvb => hno v hv (by omega)
    rw [trace_succ, step, hr b hab, hw.state, hno b hab (by omega)]
    exact ⟨⟨rfl, rfl, rfl⟩, hout⟩

/-- For three clocks the last results stay. -/
theorem early (h : Waits (trace (step sign) s inp a)) (hav : a ≤ v) (hv : v ≤ a + 2) :
    (trace (step sign) s inp v).out = (trace (step sign) s inp a).out ∧
      (trace (step sign) s inp v).done = false := by
  have hone : ((trace (step sign) s inp (a + 1)).state = .IDLE ∨
      (trace (step sign) s inp (a + 1)).state = .APPLY_OFFSETS) ∧
      (trace (step sign) s inp (a + 1)).out = (trace (step sign) s inp a).out ∧
      (trace (step sign) s inp (a + 1)).done = false := by
    rw [trace_succ, step, hr a le_rfl, h.state]
    refine ⟨?_, rfl, rfl⟩
    simp only [Bool.false_eq_true, if_false]
    split
    · exact .inr rfl
    · exact .inl rfl
  obtain ⟨hst, hout, hd⟩ := hone
  have htwo : (trace (step sign) s inp (a + 2)).out = (trace (step sign) s inp a).out ∧
      (trace (step sign) s inp (a + 2)).done = false := by
    rw [trace_succ, step, hr (a + 1) (by omega)]
    rcases hst with hst | hst
    · rw [hst]
      exact ⟨hout, rfl⟩
    · rw [hst]
      exact ⟨hout, hd⟩
  obtain rfl | rfl | rfl : v = a ∨ v = a + 1 ∨ v = a + 2 := by omega
  · exact ⟨rfl, h.done⟩
  · exact ⟨hout, hd⟩
  · exact htwo

section Pass

variable (h : Waits (trace (step sign) s inp a)) (hdone : (inp a).conv_done = true)
include h hdone

/-- The first three clocks. -/
theorem pass_start :
    (trace (step sign) s inp (a + 1)).done = false ∧
      (trace (step sign) s inp (a + 2)).done = false ∧
      (trace (step sign) s inp (a + 3)).state = .MULT_DLY ∧
      (trace (step sign) s inp (a + 3)).multdlycnt = 0 ∧
      (trace (step sign) s inp (a + 3)).done = false ∧
      ∀ q, (trace (step sign) s inp (a + 3)).out q = result sign inp a q := by
  have h0 := hr a le_rfl
  have h1 := hr (a + 1) (by omega)
  have h2 := hr (a + 2) (by omega)
  simp [trace, step, h0, h1, h2, h.state, h.last, hdone, result]

/-- The delay of the multipliers. -/
theorem pass_delay {n : ℕ} (hn : n ≤ 6) :
    (trace (step sign) s inp (a + 3 + n)).state = .MULT_DLY ∧
      (trace (step sign) s inp (a + 3 + n)).multdlycnt = BitVec.ofNat 4 n ∧
      (trace (step sign) s inp (a + 3 + n)).done = false ∧
      ∀ q, (trace (step sign) s inp (a + 3 + n)).out q = result sign inp a q := by
  induction n with
  | zero =>
    obtain ⟨-, -, hst, hcnt, hd, hout⟩ := pass_start hr h hdone
    exact ⟨hst, hcnt, hd, hout⟩
  | succ n ih =>
    obtain ⟨hst, hcnt, hd, hout⟩ := ih (by omega)
    have hne : BitVec.ofNat 4 n ≠ 6 := by
      intro he
      have := congrArg BitVec.toNat he
      simp at this
      omega
    rw [← Nat.add_assoc, trace_succ, step, hr (a + 3 + n) (by omega)]
    simp only [Bool.false_eq_true, if_false, hst, hcnt, if_neg hne]
    exact ⟨trivial, (BitVec.ofNat_add n 1).symm, hd, hout⟩

theorem pass_end (hno : NotDone inp (a + 10) b) (hb : a + 10 < b) :
    (trace (step sign) s inp (a + 10)).done = true ∧
      (∀ q, (trace (step sign) s inp (a + 10)).out q = result sign inp a q) ∧
      Waits (trace (step sign) s inp b) ∧
      ∀ q, (trace (step sign) s inp b).out q = result sign inp a q := by
  obtain ⟨hst, hcnt, -, hout⟩ := pass_delay hr h hdone (n := 6) le_rfl
  have hten : trace (step sign) s inp (a + 10) =
      { trace (step sign) s inp (a + 3 + 6) with state := .IDLE, done := true } := by
    rw [show a + 10 = a + 3 + 6 + 1 by omega, trace_succ, step, hr _ (by omega)]
    simp only [Bool.false_eq_true, if_false, hst, hcnt]
    rfl
  have heleven : Waits (trace (step sign) s inp (a + 11)) ∧
      (trace (step sign) s inp (a + 11)).out = (trace (step sign) s inp (a + 3 + 6)).out := by
    rw [trace_succ, step, hr _ (by omega), hno (a + 10) le_rfl hb, hten]
    exact ⟨⟨rfl, rfl, rfl⟩, rfl⟩
  obtain ⟨hw, hout'⟩ := waits_hold (fun v hv => hr v (by omega)) heleven.1 (b := b) (by omega)
    fun v hv hvb => hno v (by omega) hvb
  refine ⟨by rw [hten], fun q => ?_, hw, fun q => ?_⟩
  · rw [hten]
    exact hout q
  · rw [hout', heleven.2]
    exact hout q

/-- During the pass and until the next one the results are out, and `done` comes once. -/
theorem pass (hno : NotDone inp (a + 10) b) (hb : a + 10 < b) (hav : a + 3 ≤ v) (hvb : v ≤ b + 2) :
    (∀ q, (trace (step sign) s inp v).out q = result sign inp a q) ∧
      ((trace (step sign) s inp v).done = true ↔ v = a + 10) := by
  rcases Nat.lt_trichotomy v (a + 10) with hlt | rfl | hgt
  · obtain ⟨-, -, hd, hout⟩ := pass_delay hr h hdone (n := v - (a + 3)) (by omega)
    rw [show a + 3 + (v - (a + 3)) = v by omega] at hd hout
    refine ⟨hout, ?_⟩
    rw [hd]
    exact iff_of_false Bool.false_ne_true (by omega)
  · obtain ⟨hd, hout, -⟩ := pass_end hr h hdone hno hb
    exact ⟨hout, iff_of_true hd rfl⟩
  · have hlate : (∀ q, (trace (step sign) s inp v).out q = result sign inp a q) ∧
        (trace (step sign) s inp v).done = false := by
      rcases Nat.lt_or_ge v b with hvb' | hvb'
      · obtain ⟨-, -, hw, hout⟩ := pass_end hr h hdone (b := v)
          (fun u hu huv => hno u hu (by omega)) hgt
        exact ⟨hout, hw.done⟩
      · obtain ⟨-, -, hw, hout⟩ := pass_end hr h hdone hno hb
        obtain ⟨hout', hd⟩ := early (fun v hv => hr v (by omega)) hw hvb' hvb
        rw [hout']
        exact ⟨hout, hd⟩
    refine ⟨hlate.1, ?_⟩
    rw [hlate.2]
    exact iff_of_false Bool.false_ne_true (by omega)

end Pass

end Run

/-! ## Runs -/

section Scheduled

variable {start : ℕ → Bool} {e : ℕ → ℕ} {t : ℕ} (h : Scheduled inp start e)
include h

/-- A state machine that waits at a start waits at the end of its conversion. -/
theorem waits_at_end (ht : 0 < t) (hstart : start t = true)
    (hw : Waits (trace (step sign) s inp t)) : Waits (trace (step sign) s inp (e t + 1)) :=
  (waits_hold (fun v hv => h.no_reset v (by omega)) hw ((h.le t ht hstart).trans (Nat.le_succ _))
    (h.before t ht hstart)).1

/-- Each start finds the state machine waiting, when no pass was on at the reset. -/
theorem waits_at_start (hst : s.state = .IDLE) (hlast : s.conv_done_last = false) (ht : 0 < t)
    (hstart : start t = true) : Waits (trace (step sign) s inp t) := by
  induction t using Nat.strong_induction_on with
  | _ t ih =>
    have hfirst : (∀ u, 0 < u → u < t → start u = false) → Waits (trace (step sign) s inp t) := by
      intro hnone
      have hone : Waits (trace (step sign) s inp 1) := by
        rw [trace_succ, trace_zero, step, if_pos h.reset]
        exact ⟨hst, hlast, rfl⟩
      exact (waits_hold (fun v hv => h.no_reset v (by omega)) hone ht (h.first t hnone)).1
    rcases exists_last_tick start t with hnone | ⟨t', ht', hstart', hbetween⟩
    · exact hfirst fun u _ hut => hnone u hut
    · rcases Nat.eq_zero_or_pos t' with rfl | hpos
      · exact hfirst hbetween
      · have hw := waits_at_end h hpos hstart' (ih t' ht' hpos hstart')
        have hfits := h.fits t' t hpos ht' hstart' hstart
        exact (pass_end (fun v hv => h.no_reset v (by omega)) hw (h.rises t' hpos hstart')
          (h.after t' hpos hstart' t hbetween) (by omega)).2.2.1

/-- The pass of a start is over before the next conversion ends. -/
theorem notDone_next (ht : 0 < t) (hstart : start t = true)
    (hv : ∀ t', t < t' → start t' = true → v ≤ e t' + 3) :
    ∃ b, NotDone inp (e t + 11) b ∧ e t + 11 < b ∧ v ≤ b + 2 := by
  by_cases hex : ∃ t', t < t' ∧ start t' = true
  · -- the next start
    obtain ⟨t', ⟨htt', hstart'⟩, hmin⟩ : ∃ t', (t < t' ∧ start t' = true) ∧
        ∀ u < t', ¬ (t < u ∧ start u = true) :=
      ⟨Nat.find hex, Nat.find_spec hex, fun u => Nat.find_min hex⟩
    have hnone : ∀ u, t < u → u < t' → start u = false := by
      intro u hu hut
      simpa [hu] using hmin u hut
    have hfits := h.fits t t' ht htt' hstart hstart'
    have hle := h.le t' (by omega) hstart'
    refine ⟨e t' + 1, ?_, by omega, hv t' htt' hstart'⟩
    intro u hu hub
    rcases Nat.lt_or_ge u t' with hlt | hge
    · exact h.after t ht hstart t' hnone u hu hlt
    · exact h.before t' (by omega) hstart' u hge hub
  · push Not at hex
    refine ⟨v + e t + 12, ?_, by omega, by omega⟩
    exact h.after t ht hstart _ fun u hu _ => by simpa using hex u hu

/-- Every start is calibrated once: its results are out until the conversion of the next start has
ended, and `done` is 1 at one clock. -/
theorem calibrated_once (sign : BitVec w → BitVec w) (hst : s.state = .IDLE)
    (hlast : s.conv_done_last = false) (ht : 0 < t) (hstart : start t = true) (hv : e t + 4 ≤ v)
    (hv' : ∀ t', t < t' → start t' = true → v ≤ e t' + 3) :
    (∀ q, (trace (step sign) s inp v).out q = result sign inp (e t + 1) q) ∧
      ((trace (step sign) s inp v).done = true ↔ v = e t + 11) := by
  obtain ⟨b, hno, hb, hvb⟩ := notDone_next h ht hstart hv'
  have hw : Waits (trace (step sign) s inp (e t + 1)) :=
    waits_at_end h ht hstart (waits_at_start h hst hlast ht hstart)
  exact pass (fun v hv => h.no_reset v (by omega)) hw (h.rises t ht hstart) hno hb hv hvb

end Scheduled

end Zpsc.AdcGainOffset
