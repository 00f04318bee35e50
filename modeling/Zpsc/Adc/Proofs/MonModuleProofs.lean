import Zpsc.Adc.MonModule
import Zpsc.Adc.Proofs.Ads8568TimingProofs
import Zpsc.Adc.Proofs.GainOffsetTimingProofs

/-!
# The monitor readings of a start

The three ADCs go through their states together (`together`), so all sample their lines at the
falling edges of the first one's `sclk`. The words are sorted in the clock after the conversion, and
the calibrations take them in the clock after that.
-/

namespace Zpsc.MonModule

open Bits Clocked
open Ads8568 (SPI_CLK_DIV)
open AdcGainOffset (Mon mon_gainoffset NotDone)

variable {s : Regs} {inp : ℕ → In} {t v : ℕ}

/-! ## The parts -/

/-- The inputs of an ADC. -/
def adcInputs (inp : ℕ → In) (k : Fin 3) (v : ℕ) : Ads8568.In := adcIn k (inp v)

/-- The inputs of a calibration. -/
def gainInputs (s : Regs) (inp : ℕ → In) (c : Chan) (v : ℕ) : AdcGainOffset.In Mon 16 :=
  gainIn c (regs s inp v) (inp v)

theorem regs_adc_8ch (s : Regs) (inp : ℕ → In) (k : Fin 3) (v : ℕ) :
    (regs s inp v).adc_8ch k = Ads8568.regs SPI_CLK_DIV (s.adc_8ch k) (adcInputs inp k) v :=
  trace_proj (fun s => s.adc_8ch k) (fun _ => adcIn k) (fun _ _ => rfl) s inp v

theorem regs_gainoff (s : Regs) (inp : ℕ → In) (c : Chan) (v : ℕ) :
    (regs s inp v).gainoff c = trace mon_gainoffset (s.gainoff c) (gainInputs s inp c) v :=
  trace_proj (fun s => s.gainoff c) (gainIn c) (fun _ _ => rfl) s inp v

theorem paced (h : Paced inp) (k : Fin 3) : Ads8568.Paced (adcInputs inp k) :=
  ⟨⟨h.reset.1, h.reset.2⟩, h.apart⟩

/-! ## The ADCs go together -/

/-- What the state machine of an ADC goes by. -/
def control (r : Ads8568.Regs) : Ads8568.State × ℕ × ℕ × ℕ :=
  (r.present_state, r.cnv_count, r.clk_count, r.bit_count)

/-- One clock of two ADCs in the same state; `sclk` is set when they are idle. -/
theorem control_step {r r' : Ads8568.Regs} {i i' : Ads8568.In} {D : ℕ}
    (h : control r = control r') (hsclk : r.sclk = r'.sclk ∨ r.present_state = .IDLE)
    (hr : i.reset = false) (hr' : i'.reset = false) (hs : i.start = i'.start) :
    control (Ads8568.step D r i) = control (Ads8568.step D r' i') ∧
      (Ads8568.step D r i).sclk = (Ads8568.step D r' i').sclk := by
  simp only [control, Prod.mk.injEq] at h
  obtain ⟨hst, hcnv, hclk, hbit⟩ := h
  rw [hst] at hsclk
  simp only [control, Ads8568.step, hr, hr', Bool.false_eq_true, if_false, hst, hcnv, hclk, hbit,
    hs]
  cases hst' : r'.present_state with
  | IDLE => simp
  | SET_CNV | WAIT_FOR_NOT_BUSY | WAIT_FOR_MSB_VALID | CLOCK_MSB | SCLK_HI =>
    have hsc : r.sclk = r'.sclk := hsclk.resolve_right (by rw [hst']; decide)
    simp only
    split <;> simp [hsc]
  | SCLK_LO =>
    have hsc : r.sclk = r'.sclk := hsclk.resolve_right (by rw [hst']; decide)
    simp only
    split
    · simp [hsc]
    · split <;> simp
  | DONE =>
    have hsc : r.sclk = r'.sclk := hsclk.resolve_right (by rw [hst']; decide)
    simp [hsc]

theorem together (h : Paced inp) (s : Regs) (k : Fin 3) (hv : 0 < v) :
    control ((regs s inp v).adc_8ch k) = control ((regs s inp v).adc_8ch 0) ∧
      (((regs s inp v).adc_8ch k).sclk = ((regs s inp v).adc_8ch 0).sclk ∨
        ((regs s inp v).adc_8ch k).present_state = .IDLE) := by
  induction v, hv using Nat.le_induction with
  | base =>
    have hreset : (inp 0).reset = true := h.reset.1
    simp [regs, trace_succ, step, control, Ads8568.step, adcIn, hreset]
  | succ v hv ih =>
    obtain ⟨hc, hsclk⟩ := control_step (D := SPI_CLK_DIV) ih.1 ih.2 ((paced h k).reset.2 v hv)
      ((paced h 0).reset.2 v hv) rfl
    exact ⟨hc, .inl hsclk⟩

theorem present_state_eq (h : Paced inp) (s : Regs) (k : Fin 3) (hv : 0 < v) :
    ((regs s inp v).adc_8ch k).present_state = ((regs s inp v).adc_8ch 0).present_state := by
  have hc := (together h s k hv).1
  simp only [control, Prod.mk.injEq] at hc
  exact hc.1

/-- The lines are sampled at the same clocks. -/
theorem sclkFalls_eq (h : Paced inp) (s : Regs) (k : Fin 3) (hv : 0 < v) :
    Ads8568.sclkFalls SPI_CLK_DIV (s.adc_8ch k) (adcInputs inp k) v =
      Ads8568.sclkFalls SPI_CLK_DIV (s.adc_8ch 0) (adcInputs inp 0) v := by
  unfold Ads8568.sclkFalls
  obtain ⟨hc, hsclk⟩ := together h s k hv
  have hnext := (control_step (D := SPI_CLK_DIV) hc hsclk ((paced h k).reset.2 v hv)
    ((paced h 0).reset.2 v hv) rfl).2
  have hst := present_state_eq h s k hv
  rw [Ads8568.regs_succ, Ads8568.regs_succ]
  rw [regs_adc_8ch, regs_adc_8ch] at hnext hsclk hst
  rw [hnext]
  rcases hsclk with hsclk | hidle
  · rw [hsclk]
  · rw [hidle] at hst
    have hr : (adcInputs inp 0 v).reset = false := (paced h 0).reset.2 v hv
    simp [Ads8568.step, hr, ← hst]

theorem sdiBits_eq (h : Paced inp) (s : Regs) (k : Fin 3) {a b : ℕ} (ha : 0 < a) :
    Ads8568.sdiBits SPI_CLK_DIV (s.adc_8ch k) (adcInputs inp k) a b = lineBits s inp k a b := by
  unfold Ads8568.sdiBits lineBits sampled
  congr 1
  refine List.filter_congr ?_
  intro v hv
  exact sclkFalls_eq h s k (by have := (List.mem_range'_1.mp hv).1; omega)

/-- A conversion of the first ADC is one of all. -/
theorem conversion (h : Paced inp) (s : Regs) (k : Fin 3) {e : ℕ}
    (hconv : Ads8568.Conversion SPI_CLK_DIV (s.adc_8ch 0) (adcInputs inp 0) t e) :
    Ads8568.Conversion SPI_CLK_DIV (s.adc_8ch k) (adcInputs inp k) t e := by
  have hst : ∀ v, 0 < v →
      (Ads8568.regs SPI_CLK_DIV (s.adc_8ch k) (adcInputs inp k) v).present_state =
        (Ads8568.regs SPI_CLK_DIV (s.adc_8ch 0) (adcInputs inp 0) v).present_state := by
    intro v hv
    rw [← regs_adc_8ch, ← regs_adc_8ch]
    exact present_state_eq h s k hv
  have hpos := hconv.pos
  refine ⟨hpos, hconv.lt, ?_, ?_, ?_⟩
  · rw [hst t hpos]
    exact hconv.idle
  · intro v hv hve
    rw [hst v (by omega)]
    exact hconv.busy v hv hve
  · rw [hst (e + 1) (by omega)]
    exact hconv.done

/-! ## The words -/

/-- What the conversion with the last clock `e` gives to the calibrations. -/
def words (s : Regs) (inp : ℕ → In) (e : ℕ) : Chan → Mon → BitVec 16 :=
  mapping (inp (e + 1)).numchan_sel fun k => ((regs s inp (e + 1)).adc_8ch k).data_out

/-- Bits of a word of 128 bits, in the order of the line. -/
theorem msbFirst_slice (x : BitVec 128) {input : ℕ} (h : input < 8) :
    msbFirst (slice x (112 - 16 * input)) = ((msbFirst x).drop (16 * input)).take 16 := by
  rw [slice, msbFirst_extractLsb', below_eq_take x (by omega) (by omega)]
  congr 2
  omega

/-- Each monitor gets the word of the input that it is wired to. -/
theorem mapping_wiring (numchan_sel : Bool) (x : Fin 3 → BitVec 128) (c : Chan) (q : Mon) :
    match wiring numchan_sel c q with
    | some (k, input) => input < 8 ∧ mapping numchan_sel x c q = slice (x k) (112 - 16 * input)
    | none => mapping numchan_sel x c q = 0 := by
  cases numchan_sel <;> cases c <;> cases q <;> simp [wiring, mapping, fourChannels, twoChannels]

theorem reads (h : Paced inp) (s : Regs) {e : ℕ}
    (hconv : Ads8568.Conversion SPI_CLK_DIV (s.adc_8ch 0) (adcInputs inp 0) t e) (c : Chan)
    (q : Mon) : Reads s inp t e c q (words s inp e c q) := by
  have hwired := mapping_wiring (inp (e + 1)).numchan_sel
    (fun k => ((regs s inp (e + 1)).adc_8ch k).data_out) c q
  unfold Reads words
  cases hw : wiring (inp (e + 1)).numchan_sel c q with
  | none =>
    rw [hw] at hwired
    exact hwired
  | some place =>
    rw [hw] at hwired
    obtain ⟨hinput, hword⟩ := hwired
    rw [hword, msbFirst_slice _ hinput, regs_adc_8ch,
      (conversion h s place.1 hconv).data (paced h place.1).reset, sdiBits_eq h s place.1 hconv.pos]

/-! ## The calibrations -/

/-- The last clock of the conversion of a start at clock `t`. -/
def lastClock (s : Regs) (inp : ℕ → In) (t : ℕ) : ℕ :=
  t + Ads8568.left SPI_CLK_DIV (firstAdc (regs s inp (t + 1)))

theorem converts (h : Paced inp) (s : Regs) (ht : 0 < t) (hstart : (inp t).start = true) :
    Ads8568.Converts (s.adc_8ch 0) (adcInputs inp 0) t (lastClock s inp t) := by
  obtain ⟨e, hconv⟩ := Ads8568.converts (paced h 0) (s.adc_8ch 0) ht hstart
  have hlast := Ads8568.last_eq (paced h 0) (s.adc_8ch 0) hconv.conversion
  rw [← regs_adc_8ch] at hlast
  rw [lastClock, firstAdc, ← hlast]
  exact hconv

theorem conv_done_eq (s : Regs) (inp : ℕ → In) (c : Chan) (v : ℕ) :
    (gainInputs s inp c v).conv_done =
      (Ads8568.regs SPI_CLK_DIV (s.adc_8ch 0) (adcInputs inp 0) v).data_rdy := by
  rw [← regs_adc_8ch]
  rfl

theorem scheduled (h : Paced inp) (s : Regs) (c : Chan) :
    AdcGainOffset.Scheduled (gainInputs s inp c) (fun v => (inp v).start) (lastClock s inp) where
  reset := h.reset.1
  no_reset := h.reset.2
  first := by
    intro b hnone u hu hub
    rw [conv_done_eq]
    exact (Ads8568.quiet_first (paced h 0) _ hu fun w hw hwu => hnone w hw (by omega)).data_rdy
  le := by
    intro t ht hstart
    have hge := (converts h s ht hstart).ge
    exact le_trans (by omega) hge
  before := by
    intro t ht hstart u hu hub
    rw [conv_done_eq]
    rcases Nat.eq_or_lt_of_le hu with rfl | hlt
    · exact (Ads8568.quiet_at_start (paced h 0) _ ht hstart).data_rdy
    · exact (converts h s ht hstart).before u hlt (Nat.lt_succ_iff.mp hub)
  rises := by
    intro t ht hstart
    rw [conv_done_eq]
    exact (converts h s ht hstart).rdy
  after := by
    intro t ht hstart b hnone u hu hub
    rw [conv_done_eq]
    refine ((converts h s ht hstart).after u ?_ fun w hw hwu => hnone w hw (by omega)).data_rdy
    exact lt_of_lt_of_le (Nat.add_lt_add_left (by decide) _) hu
  fits := by
    intro t t' ht htt' hstart hstart'
    have hfar := h.apart t t' htt' hstart hstart'
    have hle := (converts h s ht hstart).le
    rw [Ads8568.PERIOD] at hfar
    omega

/-- What a calibration of a conversion puts out. -/
theorem result_eq (s : Regs) (inp : ℕ → In) (c : Chan) (e : ℕ) (q : Mon) :
    AdcGainOffset.result id (gainInputs s inp c) (e + 1) q =
      calibrated inp e c q (words s inp e c q) := by
  have hraw : (regs s inp (e + 2)).mon_adcs_in c q = words s inp e c q := rfl
  rw [calibrated, ← hraw]
  rfl

/-- The outputs from the calibration of a start until that of the next one. -/
theorem out_eq (h : Paced inp) (hg : NoPass s) (ht : 0 < t) (hstart : (inp t).start = true)
    (hv : lastClock s inp t + 4 ≤ v) (hv' : ∀ t', t < t' → (inp t').start = true → v ≤ t' + 1690)
    (c : Chan) :
    (∀ q, mon_adcs (regs s inp v) c q =
      calibrated inp (lastClock s inp t) c q (words s inp (lastClock s inp t) c q)) ∧
      (((regs s inp v).gainoff c).done = true ↔ v = lastClock s inp t + 11) := by
  have hnext : ∀ t', t < t' → (inp t').start = true → v ≤ lastClock s inp t' + 3 := by
    intro t' htt' hstart'
    have hge := (converts h s (by omega) hstart').ge
    have hle := hv' t' htt' hstart'
    omega
  obtain ⟨hout, hdone⟩ := AdcGainOffset.calibrated_once (scheduled h s c) id (hg c).1 (hg c).2 ht
    hstart hv hnext
  rw [mon_adcs, regs_gainoff, mon_gainoffset]
  refine ⟨?_, hdone⟩
  intro q
  exact (hout q).trans (result_eq s inp c _ q)

/-- Every start reads the 24 monitors once: when `done` rises, eleven clocks after the conversion,
all outputs are the calibrated words of this one conversion, and they stay until the conversion of
the next start has ended. The four calibrations that drive `done` agree. -/
theorem mon_readings {s : Regs} (h : Paced inp) (hg : NoPass s) (ht : 0 < t)
    (hstart : (inp t).start = true) :
    ∃ (e : ℕ) (w : Chan → Mon → BitVec 16), t + 1687 ≤ e ∧ e ≤ t + 1693 ∧
      (∀ c q, Reads s inp t e c q (w c q)) ∧
      ∀ v, e + 4 ≤ v → (∀ t', t < t' → (inp t').start = true → v ≤ t' + 1690) →
        ∀ c, (∀ q, mon_adcs (regs s inp v) c q = calibrated inp e c q (w c q)) ∧
          (((regs s inp v).gainoff c).done = true ↔ v = e + 11) := by
  have hconv := converts h s ht hstart
  refine ⟨lastClock s inp t, words s inp (lastClock s inp t), hconv.ge, hconv.le,
    fun c q => reads h s hconv.conversion c q, ?_⟩
  intro v hv hv' c
  exact out_eq h hg ht hstart hv hv' c

/-- Registers at zero. -/
def powerUp : Regs where
  adc_8ch := fun _ => ⟨.IDLE, 0, 0, 0, 0, false, false, false, 0, false⟩
  mon_adcs_in := fun _ _ => 0
  gainoff := fun _ => ⟨.IDLE, false, 0, fun _ => 0, fun _ => 0, false⟩

/-- Two starts after the reset. -/
def twoStarts (t : ℕ) : In :=
  ⟨t = 0, t = 1 ∨ t = 5001, true, fun _ => ⟨fun _ => 0x100000, fun _ => 0⟩, fun _ => true⟩

theorem paced_twoStarts : Paced twoStarts where
  reset := by
    refine ⟨rfl, ?_⟩
    intro t ht
    exact decide_eq_false (by omega)
  apart := by
    intro t t' htt' ht ht'
    have := of_decide_eq_true ht
    have := of_decide_eq_true ht'
    rw [Ads8568.PERIOD]
    omega

/-- Just before the second start the readings of the first one are out. -/
theorem mon_readings_twoStarts :
    ∃ (e : ℕ) (w : BitVec 16), Reads powerUp twoStarts 1 e .ps3 .voltage w ∧
      mon_adcs (regs powerUp twoStarts 5000) .ps3 .voltage =
        calibrated twoStarts e .ps3 .voltage w := by
  obtain ⟨e, w, -, hle, hreads, hout⟩ := mon_readings (s := powerUp) (t := 1) paced_twoStarts
    (fun _ => ⟨rfl, rfl⟩) Nat.one_pos rfl
  refine ⟨e, w .ps3 .voltage, hreads .ps3 .voltage, (hout 5000 (by omega) ?_ .ps3).1 .voltage⟩
  intro t' ht' hstart'
  have := of_decide_eq_true hstart'
  omega

end Zpsc.MonModule
