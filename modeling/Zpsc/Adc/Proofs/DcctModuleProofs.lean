import Zpsc.Adc.DcctModule
import Zpsc.Adc.Proofs.GainOffsetTimingProofs
import Zpsc.Adc.Proofs.Ltc2376TimingProofs

/-!
# The eight DCCT readings of a start

The four ADCs go through their states together (`together`), so all sample their lines at the clocks
of the first one, and each calibration finds the words of its own ADC at the `data_rdy` of the
first.
-/

namespace Zpsc.DcctModule

open Bits Clocked
open AdcGainOffset (Dcct Params Stage dcct_gainoffset Waits NotDone)

variable {s : Regs} {inp : ℕ → In} {t v : ℕ}

/-! ## The parts -/

/-- The inputs of an ADC. -/
def adcInputs (inp : ℕ → In) (c : Chan) (v : ℕ) : Ltc2376.In := adcIn c (inp v)

/-- The inputs of a calibration. -/
def gainInputs (s : Regs) (inp : ℕ → In) (c : Chan) (v : ℕ) : AdcGainOffset.In Dcct 20 :=
  gainIn c (regs s inp v) (inp v)

theorem regs_dcct_adc (s : Regs) (inp : ℕ → In) (c : Chan) (v : ℕ) :
    (regs s inp v).dcct_adc c = Ltc2376.regs (s.dcct_adc c) (adcInputs inp c) v :=
  trace_proj (fun s => s.dcct_adc c) (fun _ => adcIn c) (fun _ _ => rfl) s inp v

theorem regs_gainoff_adc (s : Regs) (inp : ℕ → In) (c : Chan) (v : ℕ) :
    (regs s inp v).gainoff_adc c =
      trace dcct_gainoffset (s.gainoff_adc c) (gainInputs s inp c) v :=
  trace_proj (fun s => s.gainoff_adc c) (gainIn c) (fun _ _ => rfl) s inp v

theorem paced (h : Paced inp) (c : Chan) : Ltc2376.Paced (adcInputs inp c) :=
  ⟨h.reset, h.no_reset, h.apart⟩

/-- The first ADC tells the others when they have converted. -/
theorem converts (h : Paced inp) (s : Regs) (c : Chan) (ht : 0 < t)
    (hstart : (inp t).start = true) :
    Ltc2376.Converts (s.dcct_adc c) (adcInputs inp c) t :=
  Ltc2376.converts (paced h c) (s.dcct_adc c) ht hstart

/-! ## The ADCs go together -/

/-- What the state machine of an ADC goes by. -/
def control (r : Ltc2376.Regs) : Ltc2376.State × ℕ × ℕ × Bool × BitVec 8 × Bool :=
  (r.state, r.cnv_count, r.bit_count, r.clk_enb, r.clk_cnt, r.start_lat)

theorem control_step {r r' : Ltc2376.Regs} {i i' : Ltc2376.In} (h : control r = control r')
    (hr : i.reset = i'.reset) (hs : i.start = i'.start) (hres : i.resolution = i'.resolution) :
    control (Ltc2376.step r i) = control (Ltc2376.step r' i') := by
  simp only [control, Prod.mk.injEq] at h
  obtain ⟨hst, hcnv, hbit, henb, hcnt, hlat⟩ := h
  simp only [control, Ltc2376.step, Ltc2376.conv, hr, hcnt, Prod.mk.injEq]
  cases i'.reset with
  | true => simp
  | false =>
    rw [← henb]
    cases r.clk_enb with
    | false => simp [hst, hcnv, hbit, hs, hlat]
    | true =>
      simp only [Bool.false_eq_true, if_false, if_true, Ltc2376.tick, hst, hcnv, hbit, hlat, hs,
        hres]
      cases r'.state with
      | IDLE => cases r'.start_lat <;> simp
      | SET_CNV | WAIT_FOR_NOT_BUSY =>
        simp only
        split <;> simp
      | SCLK_HI | SCLK_LO | DONE => simp

theorem together (h : Paced inp) (s : Regs) (c : Chan) (hv : 0 < v) :
    control ((regs s inp v).dcct_adc c) = control ((regs s inp v).dcct_adc .ps1) := by
  induction v, hv using Nat.le_induction with
  | base =>
    have hreset : (inp 0).reset = true := h.reset
    simp [regs, trace_succ, step, control, Ltc2376.step, Ltc2376.conv, adcIn, hreset]
  | succ v hv ih => exact control_step ih rfl rfl rfl

/-- The bits that an ADC has sampled are those on its line at the clocks of the first one. -/
theorem sdiBits_eq (h : Paced inp) (s : Regs) (c : Chan) {a b : ℕ} (ha : 0 < a) :
    Ltc2376.sdiBits (s.dcct_adc c) (adcInputs inp c) a b = lineBits s inp c a b := by
  unfold Ltc2376.sdiBits lineBits sampled
  congr 1
  refine List.filter_congr ?_
  intro v hv
  have hsame := together h s c (v := v) (by have := (List.mem_range'_1.mp hv).1; omega)
  simp only [control, Prod.mk.injEq, regs_dcct_adc] at hsame
  obtain ⟨hst, -, -, henb, -, -⟩ := hsame
  unfold Ltc2376.samples
  rw [hst, henb]
  rfl

/-! ## The words -/

/-- The words of the conversion of a start at clock `t`. -/
def word (s : Regs) (inp : ℕ → In) (t : ℕ) (c : Chan) : Dcct → BitVec 20 :=
  dcct (regs s inp (lastClock inp t + 1)) c

theorem words (h : Paced inp) (s : Regs) (ht : 0 < t) (hstart : (inp t).start = true) (c : Chan) :
    Words s inp t c (word s inp t c) := by
  intro r hres
  have hconv := converts h s c ht hstart
  have hlt := (Ltc2376.nextEnable_bounds t).1
  have hlast : lastClock inp t = Ltc2376.lastClock (adcInputs inp c) t := rfl
  have hle := hconv.conversion.lt
  have hrise := (hconv.before _ (by omega) le_rfl).1
  obtain ⟨-, hdone, hdcct2, hdcct1⟩ := Ltc2376.done_of_rise hrise hconv.conversion.rdy
  have hbits := Ltc2376.collects hconv.conversion.idle hconv.conversion.busy
    (hres _ le_rfl hle.le) hle le_rfl
  rw [Ltc2376.Collects, hdone] at hbits
  have hr : (adcInputs inp c (Ltc2376.lastClock (adcInputs inp c) t)).resolution = r :=
    hres _ hle.le le_rfl
  rw [hr] at hdcct1 hdcct2
  have hwords := Ltc2376.words_below (Ltc2376.regs (s.dcct_adc c) (adcInputs inp c)
    (Ltc2376.lastClock (adcInputs inp c) t)).shift_reg r
  rw [← hbits, ← hdcct1, ← hdcct2, sdiBits_eq h s c (by omega)] at hwords
  unfold word dcct
  rw [regs_dcct_adc]
  exact hwords

/-! ## The calibrations -/

theorem conv_done_eq (s : Regs) (inp : ℕ → In) (c : Chan) (v : ℕ) :
    (gainInputs s inp c v).conv_done =
      (Ltc2376.regs (s.dcct_adc .ps1) (adcInputs inp .ps1) v).data_rdy := by
  rw [← regs_dcct_adc]
  rfl

theorem scheduled (h : Paced inp) (s : Regs) (c : Chan) :
    AdcGainOffset.Scheduled (gainInputs s inp c) (fun v => (inp v).start) (lastClock inp) where
  reset := h.reset
  no_reset := h.no_reset
  first := by
    intro b hnone u hu hub
    rw [conv_done_eq]
    exact (Ltc2376.quiet_first (paced h .ps1) _ hu fun w hw hwu => hnone w hw (by omega)).data_rdy
  le := by
    intro t _ _
    have hlast := (Ltc2376.lastClock_bounds (adcInputs inp .ps1) t).1
    exact le_trans (by omega) hlast
  before := by
    intro t ht hstart u hu hub
    rw [conv_done_eq]
    rcases Nat.eq_or_lt_of_le hu with rfl | hlt
    · exact (Ltc2376.quiet_at_start (paced h .ps1) _ ht hstart).data_rdy
    · exact ((converts h s .ps1 ht hstart).before u hlt (Nat.lt_succ_iff.mp hub)).1
  rises := by
    intro t ht hstart
    rw [conv_done_eq]
    exact (converts h s .ps1 ht hstart).rdy _ (Nat.lt_succ_self _)
      (Nat.add_le_add_left (by decide) _)
  after := by
    intro t ht hstart b hnone u hu hub
    rw [conv_done_eq]
    refine ((converts h s .ps1 ht hstart).after u ?_ fun w hw hwu => hnone w hw (by omega)).data_rdy
    exact lt_of_lt_of_le (Nat.add_lt_add_left (by decide) _) hu
  fits := by
    intro t t' _ htt' hstart hstart'
    have hfar : t + 740 ≤ t' := h.apart t t' htt' hstart hstart'
    have hlast : lastClock inp t ≤ t + 725 :=
      (Ltc2376.lastClock_bounds (adcInputs inp .ps1) t).2
    omega

/-- What a calibration of a start puts out. -/
theorem result_eq (h : Paced inp) (s : Regs) (c : Chan) (ht : 0 < t)
    (hstart : (inp t).start = true) (q : Dcct) :
    AdcGainOffset.result (-·) (gainInputs s inp c) (lastClock inp t + 1) q =
      calibrated inp t c q (word s inp t c q) := by
  have hlast := Ltc2376.lastClock_bounds (adcInputs inp .ps1) t
  have hle : lastClock inp t ≤ t + 725 := hlast.2
  have hnone : Ltc2376.NoStart (adcInputs inp c) t (lastClock inp t + 2) := by
    intro u hu hub
    exact Ltc2376.no_start (paced h c) hstart hu (by rw [Ltc2376.PERIOD]; omega)
  have hstays := (converts h s c ht hstart).stays (lastClock inp t + 2)
    (show lastClock inp t < lastClock inp t + 2 by omega) hnone
  have hlastc : Ltc2376.lastClock (adcInputs inp c) t = lastClock inp t := rfl
  rw [hlastc, ← regs_dcct_adc, ← regs_dcct_adc] at hstays
  have hraw : dcct (regs s inp (lastClock inp t + 2)) c q = word s inp t c q := by
    unfold word
    simp only [Ltc2376.dccts, Prod.mk.injEq] at hstays
    cases q with
    | dcct0 => exact hstays.1
    | dcct1 => exact hstays.2
  unfold calibrated
  rw [← hraw]
  rfl

/-- The outputs from the calibration of a start until that of the next one. -/
theorem out_eq (h : Paced inp) (hg : NoPass s) (ht : 0 < t) (hstart : (inp t).start = true)
    (hv : lastClock inp t + 4 ≤ v)
    (hv' : ∀ t', t < t' → (inp t').start = true → v ≤ lastClock inp t' + 3) :
    (∀ c, dcct_out (regs s inp v) c = ⟨calibrated inp t c .dcct0 (word s inp t c .dcct0),
      calibrated inp t c .dcct1 (word s inp t c .dcct1)⟩) ∧
      (done (regs s inp v) = true ↔ v = lastClock inp t + 11) := by
  have hpass (c : Chan) := AdcGainOffset.calibrated_once (scheduled h s c) (-·) (hg c).1 (hg c).2 ht
    hstart hv hv'
  constructor
  · intro c
    have hout := (hpass c).1
    rw [dcct_out, regs_gainoff_adc, dcct_gainoffset]
    refine congrArg₂ DcctAdcs.mk ?_ ?_
    · exact (hout .dcct0).trans (result_eq h s c ht hstart .dcct0)
    · exact (hout .dcct1).trans (result_eq h s c ht hstart .dcct1)
  · rw [done, regs_gainoff_adc, dcct_gainoffset]
    exact (hpass .ps1).2

/-- Every start reads the eight DCCTs once: when `done` rises, eleven clocks after its conversion,
all eight outputs are the calibrated words of this one conversion, and they stay until the
conversion of the next start has ended. -/
theorem dcct_readings {s : Regs} (h : Paced inp) (hg : NoPass s) (ht : 0 < t)
    (hstart : (inp t).start = true) :
    ∃ w : Chan → Dcct → BitVec 20, (∀ c, Words s inp t c (w c)) ∧
      ∀ v, lastClock inp t + 4 ≤ v →
        (∀ t', t < t' → (inp t').start = true → v ≤ lastClock inp t' + 3) →
        (∀ c, dcct_out (regs s inp v) c =
          ⟨calibrated inp t c .dcct0 (w c .dcct0), calibrated inp t c .dcct1 (w c .dcct1)⟩) ∧
        (done (regs s inp v) = true ↔ v = lastClock inp t + 11) := by
  refine ⟨word s inp t, words h s ht hstart, ?_⟩
  intro v hv hv'
  exact out_eq h hg ht hstart hv hv'

/-- Registers at zero. -/
def powerUp : Regs where
  dcct_adc := fun _ => ⟨.IDLE, 0, 0, 0, false, 0, false, false, false, 0, 0, false⟩
  gainoff_adc := fun _ => ⟨.IDLE, false, 0, fun _ => 0, fun _ => 0, false⟩

/-- Two starts after the reset. The line of channel 3 has two words in each conversion, the other
lines are low; the offsets are 3 and the gains 1. -/
def twoStarts (t : ℕ) : In where
  reset := t = 0
  start := t = 1 ∨ t = 801
  numbits_sel := true
  dcct_params := fun _ => ⟨fun _ => 0x100000, fun _ => 3⟩
  sdi := fun c => decide (c = .ps3) &&
    (if t < 801 then 0x1000020000#40 else 0x3000040000#40).getMsbD ((t % 800 - 321) / 10)

theorem paced_twoStarts : Paced twoStarts where
  reset := rfl
  no_reset := by
    intro t ht
    exact decide_eq_false (by omega)
  apart := by
    intro t t' htt' ht ht'
    have := of_decide_eq_true ht
    have := of_decide_eq_true ht'
    rw [Ltc2376.PERIOD]
    omega

/-- At 20 bits the words of a conversion are those on the line. -/
theorem Words.eq {c : Chan} {w : Dcct → BitVec 20} (h : Words s inp t c w) (w₁ w₀ : BitVec 20)
    (hres : ∀ v, (inp v).numbits_sel = true)
    (hline : lineBits s inp c (Ltc2376.nextEnable t) (lastClock inp t) =
      msbFirst w₁ ++ msbFirst w₀) :
    w .dcct1 = w₁ ∧ w .dcct0 = w₀ := by
  have hbits : lineBits s inp c _ _ = msbFirst (w .dcct1) ++ msbFirst (w .dcct0) :=
    h true fun v _ _ => hres v
  rw [hline] at hbits
  obtain ⟨h₁, h₀⟩ := List.append_inj hbits (by rw [length_msbFirst, length_msbFirst])
  exact ⟨(msbFirst_inj.mp h₁).symm, (msbFirst_inj.mp h₀).symm⟩

/-- The words of both conversions of channel 3 are out when `done` rises, less 3 and with the sign
changed, those of the first until the second has ended. -/
theorem dcct_readings_twoStarts :
    (done (regs powerUp twoStarts 737) = true ∧
      dcct_out (regs powerUp twoStarts 737) .ps3 = ⟨3 - 0x20000, 3 - 0x10000⟩ ∧
      dcct_out (regs powerUp twoStarts 1529) .ps3 = ⟨3 - 0x20000, 3 - 0x10000⟩) ∧
    done (regs powerUp twoStarts 1537) = true ∧
      dcct_out (regs powerUp twoStarts 1537) .ps3 = ⟨3 - 0x40000, 3 - 0x30000⟩ := by
  have hidle : NoPass powerUp := fun _ => ⟨rfl, rfl⟩
  have hnext (t v t' : ℕ) (ht : t < t') (hstart : (twoStarts t').start = true) (ht' : 1 ≤ t)
      (hv : t = 801 ∨ v ≤ 1529) : v ≤ lastClock twoStarts t' + 3 := by
    rcases of_decide_eq_true hstart with rfl | rfl
    · omega
    · exact hv.resolve_left ht.ne
  constructor
  · obtain ⟨w, hwords, hread⟩ := dcct_readings (t := 1) paced_twoStarts hidle Nat.one_pos rfl
    obtain ⟨h₁, h₀⟩ := (hwords .ps3).eq 0x10000 0x20000 (fun _ => rfl)
      (by decide +kernel)
    have hout (v : ℕ) (hv : 730 ≤ v) (hv' : v ≤ 1529) :
        dcct_out (regs powerUp twoStarts v) .ps3 = ⟨3 - 0x20000, 3 - 0x10000⟩ := by
      have h := (hread v hv fun t' ht hst => hnext 1 v t' ht hst le_rfl (.inr hv')).1 .ps3
      rw [h₁, h₀] at h
      exact h.trans (by decide +kernel)
    refine ⟨?_, hout 737 (by omega) (by omega), hout 1529 (by omega) le_rfl⟩
    exact (hread 737 (show 730 ≤ 737 by omega) fun t' ht hst =>
      hnext 1 737 t' ht hst le_rfl (.inr (by omega))).2.mpr rfl
  · obtain ⟨w, hwords, hread⟩ := dcct_readings (t := 801) paced_twoStarts hidle (by omega) rfl
    obtain ⟨h₁, h₀⟩ := (hwords .ps3).eq 0x30000 0x40000 (fun _ => rfl)
      (by decide +kernel)
    obtain ⟨hout, hdone⟩ := hread 1537 (show 1530 ≤ 1537 by omega) fun t' ht hst =>
      hnext 801 1537 t' ht hst (by omega) (.inl rfl)
    have hout₃ := hout .ps3
    rw [h₁, h₀] at hout₃
    exact ⟨hdone.mpr rfl, hout₃.trans (by decide +kernel)⟩

end Zpsc.DcctModule
