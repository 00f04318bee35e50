import Zpsc.Adc.Ads8568Timing
import Zpsc.Adc.Proofs.Ads8568Proofs

/-!
# Every start of the monitor ADC makes one conversion

A start finds the interface idle, since the conversion before has had time to end; `data_rdy` is 1
for the one clock after it.
-/

namespace Zpsc.Ads8568

open Bits Clocked

variable {D : ℕ} {s : Regs} {i : In} {inp : ℕ → In} {e t v : ℕ}

theorem divOk : DivOk SPI_CLK_DIV := ⟨by decide, by decide⟩

/-! ## One clock -/

/-- Before its last clock a conversion does not raise `data_rdy`. -/
theorem data_rdy_step (hr : i.reset = false) (hd : s.data_rdy = false)
    (hs : s.present_state ≠ .DONE) : (step D s i).data_rdy = false := by
  have hstep := adc_step D s hr
  generalize step D s i = s' at hstep ⊢
  cases hstep with
  | idle | start => rfl
  | done h => exact absurd h hs
  | cnvEnd | cnv | waitEnd | wait | validEnd | valid | msbEnd | msb | highEnd | high | lowLast
  | lowEnd | low => exact hd

theorem data_rdy_done (hr : i.reset = false) (hs : s.present_state = .DONE) :
    (step D s i).data_rdy = true := by
  simp [step, hr, hs]

theorem quiet_idle (hr : i.reset = false) (hs : s.present_state = .IDLE) (hi : i.start = false) :
    Quiet (step D s i) := by
  rw [step, hr, hs, hi]
  exact ⟨rfl, rfl⟩

theorem data_rdy_idle (hr : i.reset = false) (hs : s.present_state = .IDLE) :
    (step D s i).data_rdy = false := by
  rw [step, hr, hs]
  rfl

/-! ## Runs -/

section Run

variable (h : Paced inp) (s : Regs)
include h

/-- A conversion takes the time that is left after its first clock. -/
theorem last_eq (hconv : Conversion SPI_CLK_DIV s inp t e) :
    e = t + left SPI_CLK_DIV (regs SPI_CLK_DIV s inp (t + 1)) := by
  have hlt := hconv.lt
  have hidle : ∀ k ≤ left SPI_CLK_DIV (regs SPI_CLK_DIV s inp (t + 1)),
      (regs SPI_CLK_DIV s inp (t + 1 + k)).present_state = .IDLE ↔
        k = left SPI_CLK_DIV (regs SPI_CLK_DIV s inp (t + 1)) := by
    intro k hk
    rw [← left_eq_zero_iff (D := SPI_CLK_DIV)]
    exact (jobs h.reset s divOk).idle_iff t.succ_pos hk
  generalize left SPI_CLK_DIV (regs SPI_CLK_DIV s inp (t + 1)) = n at hidle ⊢
  rcases Nat.lt_trichotomy e (t + n) with hlate | heq | hearly
  · have hk := (hidle (e - t) (by omega)).mp (by
      rw [show t + 1 + (e - t) = e + 1 by omega]
      exact hconv.done)
    omega
  · exact heq
  · refine absurd ((hidle n le_rfl).mpr rfl) ?_
    exact hconv.busy (t + 1 + n) (by omega) (by omega)

/-- At a start that finds the interface idle. -/
theorem converts_of_idle (ht : 0 < t) (hstart : (inp t).start = true)
    (hs : (regs SPI_CLK_DIV s inp t).present_state = .IDLE) : ∃ e, Converts s inp t e := by
  obtain ⟨e, hconv⟩ := conversion_of_start h.reset s divOk ht hs hstart
  have hreset := h.reset.2
  have hlt := hconv.lt
  have hdone := done_of_idle (hreset e (by omega)) (hconv.busy e hlt le_rfl) hconv.done
  obtain ⟨hs', hcnv, -, -⟩ := start_succ (D := SPI_CLK_DIV) h.reset ht hs hstart
  have hcounts := (ok (D := SPI_CLK_DIV) h.reset s ht).counts
  simp only [Counts, hs] at hcounts
  have hlast := last_eq h s hconv
  have hdiv : SPI_CLK_DIV = 5 := rfl
  simp only [left, hs', hcnv] at hlast
  have hbefore : ∀ v, t < v → v ≤ e → (regs SPI_CLK_DIV s inp v).data_rdy = false := by
    intro v hv hve
    induction v, hv using Nat.le_induction with
    | base =>
      rw [Nat.succ_eq_add_one, regs_succ]
      exact data_rdy_idle (hreset t ht) hs
    | succ v hv ih =>
      rw [regs_succ]
      refine data_rdy_step (hreset v (by omega)) (ih (by omega)) ?_
      intro hd
      have hnext : (regs SPI_CLK_DIV s inp (v + 1)).present_state = .IDLE := by
        simp [regs_succ, step, hreset v (by omega), hd]
      exact hconv.busy (v + 1) (by omega) hve hnext
  refine ⟨e, hconv, by omega, by omega, hbefore, ?_, ?_⟩
  · rw [regs_succ]
    exact data_rdy_done (hreset e (by omega)) hdone
  · intro v hv hnone
    induction v, hv using Nat.le_induction with
    | base =>
      rw [Nat.succ_eq_add_one, regs_succ]
      exact quiet_idle (hreset _ (by omega)) hconv.done (hnone (e + 1) (by omega) (by omega))
    | succ v hv ih =>
      have hq := ih fun u hu huv => hnone u hu (by omega)
      rw [regs_succ]
      exact quiet_idle (hreset _ (by omega)) hq.present_state (hnone v (by omega) (by omega))

/-- Up to the first start the interface is quiet. -/
theorem quiet_first (hv : 0 < v) (hnone : NoStart inp 0 v) : Quiet (regs SPI_CLK_DIV s inp v) := by
  induction v, hv using Nat.le_induction with
  | base => constructor <;> simp [regs_succ, step, h.reset.1]
  | succ v hv ih =>
    have hq := ih fun u hu huv => hnone u hu (by omega)
    rw [regs_succ]
    exact quiet_idle (h.reset.2 v hv) hq.present_state (hnone v hv (by omega))

/-- Each start finds the interface quiet. -/
theorem quiet_at_start (ht : 0 < t) (hstart : (inp t).start = true) :
    Quiet (regs SPI_CLK_DIV s inp t) := by
  induction t using Nat.strong_induction_on with
  | _ t ih =>
    rcases exists_last_tick (fun v => (inp v).start) t with hnone | ⟨t', ht', hstart', hbetween⟩
    · exact quiet_first h s ht fun u _ hut => hnone u hut
    · rcases Nat.eq_zero_or_pos t' with rfl | hpos
      · exact quiet_first h s ht hbetween
      · obtain ⟨e, hc⟩ := converts_of_idle h s hpos hstart' (ih t' ht' hpos hstart').present_state
        have hfar := h.apart t' t ht' hstart' hstart
        have hle := hc.le
        rw [PERIOD] at hfar
        exact hc.after t (by omega) hbetween

/-- Every start makes one conversion. -/
theorem converts (ht : 0 < t) (hstart : (inp t).start = true) : ∃ e, Converts s inp t e :=
  converts_of_idle h s ht hstart (quiet_at_start h s ht hstart).present_state

end Run

end Zpsc.Ads8568
