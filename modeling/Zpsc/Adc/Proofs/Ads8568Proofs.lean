import Zpsc.Adc.Ads8568
import Zpsc.Clocked.Divider
import Zpsc.Clocked.Jobs

/-!
# Proofs: the monitor ADC

`WAIT_FOR_MSB_VALID` leaves `cnv_count` at 6, so that from the second conversion on `cnv` is high
for 6 clocks only (`Pulse`). The other counters are back at 0 (`Counts`), and the bits that have
been sampled are the last ones of the shift register (`Collects`).
-/

namespace Zpsc.Ads8568

open Bits Clocked

variable {D : ℕ} {s : Regs} {i : In} {inp : ℕ → In} {c e t u v : ℕ}

/-! ## One clock -/

/-- What the interface can do at a clock without a reset. -/
inductive AdcStep (D : ℕ) (s : Regs) (i : In) : Regs → Prop
  | idle (hs : s.present_state = .IDLE) (hi : i.start = false) :
      AdcStep D s i { s with n_fs := true, sclk := true, data_rdy := false }
  | start (hs : s.present_state = .IDLE) (hi : i.start = true) :
      AdcStep D s i
        { s with present_state := .SET_CNV, n_fs := true, sclk := true, data_rdy := false }
  | cnvEnd (hs : s.present_state = .SET_CNV) (h : s.cnv_count = CNV_PULSE) :
      AdcStep D s i { s with cnv := false, cnv_count := 0, present_state := .WAIT_FOR_NOT_BUSY }
  | cnv (hs : s.present_state = .SET_CNV) (h : s.cnv_count ≠ CNV_PULSE) :
      AdcStep D s i { s with cnv := true, cnv_count := next s.cnv_count }
  | waitEnd (hs : s.present_state = .WAIT_FOR_NOT_BUSY) (h : s.cnv_count = CNV_WIDTH) :
      AdcStep D s i
        { s with cnv_count := 0, n_fs := false, present_state := .WAIT_FOR_MSB_VALID }
  | wait (hs : s.present_state = .WAIT_FOR_NOT_BUSY) (h : s.cnv_count ≠ CNV_WIDTH) :
      AdcStep D s i { s with cnv_count := next s.cnv_count }
  | validEnd (hs : s.present_state = .WAIT_FOR_MSB_VALID) (h : s.cnv_count = WAIT_MSB) :
      AdcStep D s i
        { s with
          sclk := false, shift_reg := shiftIn s.shift_reg i.sdi, present_state := .CLOCK_MSB }
  | valid (hs : s.present_state = .WAIT_FOR_MSB_VALID) (h : s.cnv_count ≠ WAIT_MSB) :
      AdcStep D s i { s with cnv_count := next s.cnv_count }
  | msbEnd (hs : s.present_state = .CLOCK_MSB) (h : s.clk_count + 1 = D) :
      AdcStep D s i { s with clk_count := 0, sclk := true, present_state := .SCLK_HI }
  | msb (hs : s.present_state = .CLOCK_MSB) (h : s.clk_count + 1 ≠ D) :
      AdcStep D s i { s with clk_count := next s.clk_count, sclk := false }
  | highEnd (hs : s.present_state = .SCLK_HI) (h : s.clk_count + 1 = D) :
      AdcStep D s i
        { s with
          sclk := false, clk_count := 0, bit_count := next s.bit_count
          shift_reg := shiftIn s.shift_reg i.sdi, present_state := .SCLK_LO }
  | high (hs : s.present_state = .SCLK_HI) (h : s.clk_count + 1 ≠ D) :
      AdcStep D s i { s with clk_count := next s.clk_count, sclk := true }
  | lowLast (hs : s.present_state = .SCLK_LO) (hb : s.bit_count = DATA_BITS - 1) :
      AdcStep D s i { s with bit_count := 0, present_state := .DONE }
  | lowEnd (hs : s.present_state = .SCLK_LO) (hb : s.bit_count ≠ DATA_BITS - 1)
      (h : s.clk_count + 1 = D) :
      AdcStep D s i { s with clk_count := 0, sclk := true, present_state := .SCLK_HI }
  | low (hs : s.present_state = .SCLK_LO) (hb : s.bit_count ≠ DATA_BITS - 1)
      (h : s.clk_count + 1 ≠ D) :
      AdcStep D s i { s with clk_count := next s.clk_count, sclk := false }
  | done (hs : s.present_state = .DONE) :
      AdcStep D s i { s with data_out := s.shift_reg, data_rdy := true, present_state := .IDLE }

theorem adc_step (D : ℕ) (s : Regs) (hr : i.reset = false) : AdcStep D s i (step D s i) := by
  rw [step, if_neg (by rw [hr]; exact Bool.false_ne_true)]
  split
  · next hs =>
    split
    · next hi => exact .start hs hi
    · next hi =>
      rw [← hs]
      exact .idle hs (by simpa using hi)
  · next hs =>
    split
    · next h => exact .cnvEnd hs h
    · next h => exact .cnv hs h
  · next hs =>
    split
    · next h => exact .waitEnd hs h
    · next h => exact .wait hs h
  · next hs =>
    split
    · next h => exact .validEnd hs h
    · next h => exact .valid hs h
  · next hs =>
    split
    · next h => exact .msbEnd hs h
    · next h => exact .msb hs h
  · next hs =>
    split
    · next h => exact .highEnd hs h
    · next h => exact .high hs h
  · next hs =>
    split
    · next hb => exact .lowLast hs hb
    · next hb =>
      split
      · next h => exact .lowEnd hs hb h
      · next h => exact .low hs hb h
  · next hs => exact .done hs

/-! ## The counters -/

theorem next_of_lt {c : ℕ} (h : c < 511) : next c = c + 1 := Nat.mod_eq_of_lt (by omega)

/-- Only `cnv_count` is not always back at 0. -/
def Counts (D : ℕ) (s : Regs) : Prop :=
  match s.present_state with
  | .IDLE =>
    s.cnv = false ∧ (s.cnv_count = 0 ∨ s.cnv_count = 6 ∧ DivOk D) ∧ s.clk_count = 0 ∧
      s.bit_count = 0
  | .SET_CNV => s.cnv_count ≤ 12 ∧ s.clk_count = 0 ∧ s.bit_count = 0
  | .WAIT_FOR_NOT_BUSY => s.cnv = false ∧ s.cnv_count ≤ 400 ∧ s.clk_count = 0 ∧ s.bit_count = 0
  | .WAIT_FOR_MSB_VALID => s.cnv = false ∧ s.cnv_count ≤ 6 ∧ s.clk_count = 0 ∧ s.bit_count = 0
  | .CLOCK_MSB => s.cnv = false ∧ s.cnv_count = 6 ∧ Within 512 D s.clk_count ∧ s.bit_count = 0
  | .SCLK_HI =>
    s.cnv = false ∧ s.cnv_count = 6 ∧ Within 512 D s.clk_count ∧ s.bit_count < 127 ∧ DivOk D
  | .SCLK_LO =>
    s.cnv = false ∧ s.cnv_count = 6 ∧ Within 512 D s.clk_count ∧
      (s.bit_count < 127 ∨ s.bit_count = 127 ∧ s.clk_count = 0) ∧ DivOk D
  | .DONE =>
    s.cnv = false ∧ s.cnv_count = 6 ∧ s.clk_count = 0 ∧ s.bit_count = 0 ∧ DivOk D

theorem Counts.step (h : Counts D s) (hr : i.reset = false) : Counts D (step D s i) := by
  have hstep := adc_step D s hr
  generalize Ads8568.step D s i = s' at hstep ⊢
  cases hstep with
  | idle hs =>
    simp only [Counts, hs] at h ⊢
    exact h
  | start hs =>
    simp only [Counts, hs] at h ⊢
    omega
  | cnvEnd hs =>
    simp only [Counts, hs] at h ⊢
    exact ⟨trivial, by omega, h.2⟩
  | cnv hs hne =>
    simp only [Counts, hs, CNV_PULSE] at h hne ⊢
    rw [next_of_lt (by omega)]
    omega
  | waitEnd hs =>
    simp only [Counts, hs] at h ⊢
    exact ⟨h.1, by omega, h.2.2⟩
  | wait hs hne =>
    simp only [Counts, hs, CNV_WIDTH] at h hne ⊢
    rw [next_of_lt (by omega)]
    exact ⟨h.1, by omega, h.2.2⟩
  | validEnd hs hc =>
    simp only [Counts, hs] at h ⊢
    rw [h.2.2.1]
    exact ⟨h.1, hc, .zero (by decide) D, h.2.2.2⟩
  | valid hs hne =>
    simp only [Counts, hs, WAIT_MSB] at h hne ⊢
    rw [next_of_lt (by omega)]
    exact ⟨h.1, by omega, h.2.2⟩
  | msbEnd hs hlast =>
    simp only [Counts, hs] at h ⊢
    exact ⟨h.1, h.2.1, .zero (by decide) D, by omega, h.2.2.1.divides hlast⟩
  | msb hs hne =>
    simp only [Counts, hs] at h ⊢
    exact ⟨h.1, h.2.1, h.2.2.1.next hne, h.2.2.2⟩
  | highEnd hs =>
    simp only [Counts, hs] at h ⊢
    obtain ⟨hcnv, hcount, -, hlt, hD⟩ := h
    rw [next_of_lt (by omega)]
    refine ⟨hcnv, hcount, .zero (by decide) D, ?_, hD⟩
    exact (Nat.lt_or_eq_of_le hlt).imp_right fun hb => ⟨hb, trivial⟩
  | high hs hne =>
    simp only [Counts, hs] at h ⊢
    exact ⟨h.1, h.2.1, h.2.2.1.next hne, h.2.2.2⟩
  | lowLast hs hb =>
    simp only [Counts, hs, DATA_BITS] at h hb ⊢
    obtain ⟨hcnv, hcount, -, hlt | ⟨-, hclk⟩, hD⟩ := h
    · omega
    · exact ⟨hcnv, hcount, hclk, trivial, hD⟩
  | lowEnd hs hb =>
    simp only [Counts, hs, DATA_BITS] at h hb ⊢
    exact ⟨h.1, h.2.1, .zero (by decide) D, by omega, h.2.2.2.2⟩
  | low hs hb hne =>
    simp only [Counts, hs, DATA_BITS] at h hb ⊢
    exact ⟨h.1, h.2.1, h.2.2.1.next hne, by omega, h.2.2.2.2⟩
  | done hs =>
    simp only [Counts, hs] at h ⊢
    exact ⟨h.1, .inr ⟨h.2.1, h.2.2.2.2⟩, h.2.2.1, h.2.2.2.1⟩

/-! ## The time that is left -/

/-- The number of clocks until the interface is idle. -/
def left (D : ℕ) (s : Regs) : ℕ :=
  match s.present_state with
  | .IDLE => 0
  | .SET_CNV => 13 - s.cnv_count + 410 + 254 * D
  | .WAIT_FOR_NOT_BUSY => 401 - s.cnv_count + 9 + 254 * D
  | .WAIT_FOR_MSB_VALID => 7 - s.cnv_count + 2 + 254 * D
  | .CLOCK_MSB => D - s.clk_count + 253 * D + 2
  | .SCLK_HI => D - s.clk_count + (126 - s.bit_count) * (2 * D) + 2
  | .SCLK_LO =>
    if s.bit_count = 127 then 2 else D - s.clk_count + D + (126 - s.bit_count) * (2 * D) + 2
  | .DONE => 1

theorem left_idle (h : s.present_state = .IDLE) : left D s = 0 := by rw [left, h]

/-- Outside `IDLE` each clock is one less. -/
theorem left_step (hD : DivOk D) (hc : Counts D s) (hr : i.reset = false)
    (hidle : s.present_state ≠ .IDLE) : left D (step D s i) + 1 = left D s := by
  have hstep := adc_step D s hr
  have hmax := hD.2
  generalize step D s i = s' at hstep ⊢
  cases hstep with
  | idle hs | start hs => exact absurd hs hidle
  | cnvEnd hs h =>
    simp only [CNV_PULSE] at h
    simp only [left, hs, h]
    omega
  | cnv hs hne =>
    simp only [Counts, hs, CNV_PULSE] at hc hne
    simp only [left, hs, next_of_lt (show s.cnv_count < 511 by omega)]
    omega
  | waitEnd hs h =>
    simp only [CNV_WIDTH] at h
    simp only [left, hs, h]
    omega
  | wait hs hne =>
    simp only [Counts, hs, CNV_WIDTH] at hc hne
    simp only [left, hs, next_of_lt (show s.cnv_count < 511 by omega)]
    omega
  | validEnd hs h =>
    simp only [Counts, hs] at hc
    simp only [WAIT_MSB] at h
    simp only [left, hs, h, hc.2.2.1]
    omega
  | valid hs hne =>
    simp only [Counts, hs, WAIT_MSB] at hc hne
    simp only [left, hs, next_of_lt (show s.cnv_count < 511 by omega)]
    omega
  | msbEnd hs h =>
    simp only [Counts, hs] at hc
    simp only [left, hs, hc.2.2.2]
    omega
  | msb hs hne =>
    simp only [Counts, hs] at hc
    have hlt := hc.2.2.1.2 hD
    simp only [left, hs, next_of_lt (show s.clk_count < 511 by omega)]
    omega
  | highEnd hs h =>
    simp only [Counts, hs] at hc
    simp only [left, hs, next_of_lt (show s.bit_count < 511 by omega)]
    split
    · next hb =>
      rw [show s.bit_count = 126 by omega]
      omega
    · next hb =>
      have hsplit : (126 - s.bit_count) * (2 * D) =
          (126 - (s.bit_count + 1)) * (2 * D) + 2 * D := by
        rw [← Nat.succ_mul]
        congr 1
        omega
      omega
  | high hs hne =>
    simp only [Counts, hs] at hc
    have hlt := hc.2.2.1.2 hD
    simp only [left, hs, next_of_lt (show s.clk_count < 511 by omega)]
    omega
  | lowLast hs hb =>
    simp only [left, hs, if_pos (show s.bit_count = 127 from hb)]
  | lowEnd hs hb h =>
    simp only [DATA_BITS] at hb
    simp only [left, hs, if_neg hb]
    omega
  | low hs hb hne =>
    simp only [Counts, hs, DATA_BITS] at hc hb
    have hlt := hc.2.2.1.2 hD
    simp only [left, hs, if_neg hb, next_of_lt (show s.clk_count < 511 by omega)]
    omega
  | done hs => simp only [left, hs]

theorem idle_of_left (h : left D s = 0) : s.present_state = .IDLE := by
  cases hs : s.present_state with
  | IDLE => rfl
  | SET_CNV | WAIT_FOR_NOT_BUSY | WAIT_FOR_MSB_VALID | CLOCK_MSB | SCLK_HI | DONE =>
    simp only [left, hs] at h
    omega
  | SCLK_LO =>
    simp only [left, hs] at h
    split at h <;> omega

/-! ## The pulse of `cnv` -/

/-- Since a conversion started with `cnv_count` at `a`, `cnv` has been high for `n` clocks. -/
def Pulse (a n : ℕ) (s : Regs) : Prop :=
  match s.present_state with
  | .SET_CNV => n + a = s.cnv_count
  | _ => n + a = CNV_PULSE

theorem Pulse.step {a n : ℕ} (h : Pulse a n s) (hc : Counts D s) (hr : i.reset = false)
    (hidle : s.present_state ≠ .IDLE) :
    Pulse a (n + if (step D s i).cnv then 1 else 0) (step D s i) := by
  have hstep := adc_step D s hr
  generalize Ads8568.step D s i = s' at hstep ⊢
  cases hstep with
  | idle hs | start hs => exact absurd hs hidle
  | cnvEnd hs hend =>
    simp only [Pulse, hs] at h ⊢
    exact h.trans hend
  | cnv hs hne =>
    simp only [Counts, hs] at hc
    simp only [Pulse, hs] at h ⊢
    rw [next_of_lt (by omega), if_pos trivial]
    omega
  | waitEnd hs | wait hs | validEnd hs | valid hs | msbEnd hs | msb hs | highEnd hs | high hs
  | lowLast hs | lowEnd hs | low hs | done hs =>
    simp only [Counts, hs] at hc
    simp only [Pulse, hs, hc.1] at h ⊢
    exact h

/-! ## The bits that have been sampled -/

/-- `sclk` in each state. -/
def Levels (s : Regs) : Prop :=
  match s.present_state with
  | .IDLE => True
  | .SET_CNV | .WAIT_FOR_NOT_BUSY | .WAIT_FOR_MSB_VALID | .SCLK_HI => s.sclk = true
  | .CLOCK_MSB | .SCLK_LO | .DONE => s.sclk = false

theorem Levels.step (h : Levels s) (hr : i.reset = false) : Levels (step D s i) := by
  have hstep := adc_step D s hr
  generalize Ads8568.step D s i = s' at hstep ⊢
  cases hstep with
  | idle hs => simp only [Levels, hs]
  | start | validEnd | msbEnd | highEnd | lowEnd | done => trivial
  | cnvEnd hs | cnv hs | waitEnd hs | wait hs | valid hs | lowLast hs =>
    simp only [Levels, hs] at h ⊢
    exact h
  | msb hs | high hs | low hs => simp only [Levels, hs]

/-- The bits `bits` are the last `k` of the register `x`. -/
def LastBits (k : ℕ) (bits : List Bool) (x : BitVec 128) : Prop :=
  bits = (msbFirst x).drop (128 - k)

theorem LastBits.shift {k : ℕ} {bits : List Bool} {x : BitVec 128} (h : LastBits k bits x)
    (hk : k < 128) (b : Bool) : LastBits (k + 1) (bits ++ [b]) (shiftIn x b) := by
  have hdrop := drop_msbFirst_shiftIn x b (show k ≤ 127 by omega)
  rw [LastBits, h, show 128 - (k + 1) = 127 - k by omega, hdrop]

/-- In a conversion the bits `bits` have been sampled; after it they are in `data_out`. -/
def Collects (bits : List Bool) (s : Regs) : Prop :=
  match s.present_state with
  | .SET_CNV | .WAIT_FOR_NOT_BUSY | .WAIT_FOR_MSB_VALID => bits = []
  | .CLOCK_MSB => LastBits 1 bits s.shift_reg
  | .SCLK_HI | .SCLK_LO => LastBits (s.bit_count + 1) bits s.shift_reg
  | .DONE => LastBits 128 bits s.shift_reg
  | .IDLE => msbFirst s.data_out = bits

theorem Collects.step {bits : List Bool} (h : Collects bits s) (hc : Counts D s) (hl : Levels s)
    (hr : i.reset = false) (hidle : s.present_state ≠ .IDLE) :
    Collects (bits ++ if s.sclk && !(step D s i).sclk then [i.sdi] else []) (step D s i) := by
  have hstep := adc_step D s hr
  generalize Ads8568.step D s i = s' at hstep ⊢
  cases hstep with
  | idle hs | start hs => exact absurd hs hidle
  | cnvEnd hs | cnv hs | waitEnd hs | wait hs | valid hs | lowEnd hs | high hs =>
    simp only [Collects, hs] at h ⊢
    simpa using h
  | msb hs | low hs =>
    simp only [Levels, hs] at hl
    simp only [Collects, hs, hl] at h ⊢
    simpa using h
  | validEnd hs =>
    simp only [Collects, hs] at h
    simp only [Levels, hs] at hl
    have hnone : LastBits 0 bits s.shift_reg := by
      rw [h, LastBits, List.drop_eq_nil_of_le (by rw [length_msbFirst])]
    simp only [Collects, hl]
    simpa using hnone.shift (by decide) i.sdi
  | msbEnd hs =>
    simp only [Collects, hs] at h
    simp only [Counts, hs] at hc
    simp only [Collects, hc.2.2.2]
    simpa using h
  | highEnd hs =>
    simp only [Collects, hs] at h
    simp only [Levels, hs] at hl
    simp only [Counts, hs] at hc
    obtain ⟨-, -, -, hlt, -⟩ := hc
    simp only [Collects, hl, next_of_lt (show s.bit_count < 511 by omega)]
    simpa using h.shift (by omega) i.sdi
  | lowLast hs hb =>
    rw [DATA_BITS] at hb
    simp only [Collects, hs, hb] at h
    simp only [Collects]
    simpa using h
  | done hs =>
    simp only [Collects, hs] at h
    simp only [Collects]
    rw [h]
    simp

/-! ## Runs -/

/-- The invariant of all clocks after a reset. -/
structure Ok (D : ℕ) (s : Regs) : Prop where
  counts : Counts D s
  levels : Levels s

theorem regs_succ (D : ℕ) (s : Regs) (inp : ℕ → In) (t : ℕ) :
    regs D s inp (t + 1) = step D (regs D s inp t) (inp t) := rfl

theorem ok (hreset : ResetFirst inp) (s : Regs) (ht : 0 < t) : Ok D (regs D s inp t) := by
  induction t, ht using Nat.le_induction with
  | base =>
    refine ⟨?_, ?_⟩
    · simp [regs_succ, step, hreset.1, Counts]
    · simp [regs_succ, step, hreset.1, Levels]
  | succ t ht ih =>
    exact ⟨ih.counts.step (hreset.2 t ht), ih.levels.step (hreset.2 t ht)⟩

/-- Until the first start nothing happens. -/
theorem before_start (hreset : ResetFirst inp) (s : Regs) (ht : 0 < t)
    (hnone : ∀ v, 0 < v → v < t → (inp v).start = false) :
    (regs D s inp t).present_state = .IDLE ∧ (regs D s inp t).cnv_count = 0 := by
  induction t, ht using Nat.le_induction with
  | base => simp [regs_succ, step, hreset.1]
  | succ t ht ih =>
    obtain ⟨hs, hcnv⟩ := ih fun v hv hvt => hnone v hv (by omega)
    simp [regs_succ, step, hreset.2 t ht, hnone t ht (Nat.lt_succ_self t), hs, hcnv]

theorem left_eq_zero_iff : left D s = 0 ↔ s.present_state = .IDLE := ⟨idle_of_left, left_idle⟩

/-- The clock after a start that finds the interface idle. -/
theorem start_succ (hreset : ResetFirst inp) (ht : 0 < t)
    (hs : (regs D s inp t).present_state = .IDLE) (hstart : (inp t).start = true) :
    (regs D s inp (t + 1)).present_state = .SET_CNV ∧
      (regs D s inp (t + 1)).cnv_count = (regs D s inp t).cnv_count ∧
      (regs D s inp (t + 1)).cnv = (regs D s inp t).cnv ∧
      (regs D s inp (t + 1)).sclk = true := by
  simp [regs_succ, step, hreset.2 t ht, hs, hstart]

/-- The conversions, where the divider lets them end. -/
theorem jobs (hreset : ResetFirst inp) (s : Regs) (hD : DivOk D) :
    Jobs (fun t => left D (regs D s inp t)) (fun t => (inp t).start) (firstTime D) where
  init := left_idle (before_start hreset s Nat.one_pos fun v hv hv1 => by omega).1
  busy t ht hleft :=
    left_step hD (ok hreset s ht).counts (hreset.2 t ht) fun hs => hleft (left_idle hs)
  rest t ht hleft hstart :=
    left_idle (by simp [regs_succ, step, hreset.2 t ht, left_eq_zero_iff.mp hleft, hstart])
  first t ht hnone hstart := by
    obtain ⟨hs, hcnv⟩ := before_start (D := D) hreset s ht hnone
    obtain ⟨hs', hcnv', -⟩ := start_succ hreset ht hs hstart
    simp only [left, hs', hcnv', hcnv, firstTime]
    omega

/-! ## A conversion -/

/-- The last clock of a conversion. -/
theorem done_of_idle (hr : i.reset = false) (hidle : s.present_state ≠ .IDLE)
    (hnext : (step D s i).present_state = .IDLE) : s.present_state = .DONE := by
  have hstep := adc_step D s hr
  generalize step D s i = s' at hstep hnext
  cases hstep with
  | done hs => exact hs
  | idle hs => exact absurd hs hidle
  | start | cnvEnd | waitEnd | validEnd | msbEnd | highEnd | lowLast | lowEnd => cases hnext
  | cnv hs | wait hs | valid hs | msb hs | high hs | low hs => exact absurd hnext hidle

section Conversion

variable (hreset : ResetFirst inp) (h : Conversion D s inp c e)
include hreset h

theorem Conversion.start : (inp c).start = true := by
  by_contra hno
  refine h.busy (c + 1) (Nat.lt_succ_self c) h.lt ?_
  simp [regs_succ, step, hreset.2 c h.pos, h.idle, hno]

/-- Only with a divider that can be counted to there is an end. -/
theorem Conversion.divOk : DivOk D := by
  have hpos : 0 < e := h.pos.trans h.lt
  have hc : Counts D (regs D s inp e) := (ok hreset s hpos).counts
  rw [Counts, done_of_idle (hreset.2 e hpos) (h.busy e h.lt le_rfl) h.done] at hc
  exact hc.2.2.2.2

theorem Conversion.pulse (hcv : c < v) (hve : v ≤ e + 1) :
    Pulse (regs D s inp c).cnv_count
      ((sampled (fun _ => true) (out D s inp) (c + 1) (v + 1)).countP Out.cnv)
      (regs D s inp v) := by
  obtain ⟨hs, hcnv, hlow, -⟩ := start_succ hreset h.pos h.idle (h.start hreset)
  induction v, hcv using Nat.le_induction with
  | base =>
    have hc := (ok (D := D) hreset s h.pos).counts
    simp only [Counts, h.idle] at hc
    rw [Nat.succ_eq_add_one, sampled_one]
    simp only [Pulse, hs, out, if_true, List.countP_singleton, hlow, hc.1, hcnv, Bool.false_eq_true,
      if_false, Nat.zero_add]
  | succ v hcv ih =>
    have hv : 0 < v := h.pos.trans hcv
    have hstep := (ih (by omega)).step (ok (D := D) hreset s hv).counts (hreset.2 v hv)
      (h.busy v hcv (by omega))
    rw [sampled_succ (by omega), List.countP_append, if_pos rfl, List.countP_singleton]
    exact hstep

theorem Conversion.collects (hcv : c < v) (hve : v ≤ e + 1) :
    Collects (sdiBits D s inp c v) (regs D s inp v) := by
  obtain ⟨hs, -, -, hsclk⟩ := start_succ hreset h.pos h.idle (h.start hreset)
  induction v, hcv using Nat.le_induction with
  | base =>
    rw [Nat.succ_eq_add_one, sdiBits, sampled_one, sclkFalls, hsclk, Bool.not_true, Bool.and_false,
      if_neg Bool.false_ne_true, Collects, hs]
  | succ v hcv ih =>
    have hv : 0 < v := h.pos.trans hcv
    have hok : Ok D (regs D s inp v) := ok hreset s hv
    rw [sdiBits, sampled_succ (by omega)]
    exact (ih (by omega)).step hok.counts hok.levels (hreset.2 v hv) (h.busy v hcv (by omega))

/-- `cnv_count` is missing from the pulse. -/
theorem Conversion.high :
    (waveform D s inp c e).countP Out.cnv + (regs D s inp c).cnv_count = CNV_PULSE := by
  have hpulse := h.pulse hreset (show c < e + 1 by have := h.lt; omega) le_rfl
  rw [Pulse, h.done] at hpulse
  exact hpulse

theorem Conversion.data :
    msbFirst (regs D s inp (e + 1)).data_out = sdiBits D s inp c (e + 1) := by
  have hbits := h.collects hreset (show c < e + 1 by have := h.lt; omega) le_rfl
  rw [Collects, h.done] at hbits
  exact hbits

end Conversion

/-- A conversion ends at one clock only. -/
theorem Conversion.end_unique {e' : ℕ} (h : Conversion D s inp c e) (h' : Conversion D s inp c e') :
    e = e' := by
  rcases Nat.lt_trichotomy e e' with hlt | heq | hlt
  · exact absurd h.done (h'.busy (e + 1) (by have := h.lt; omega) hlt)
  · exact heq
  · exact absurd h'.done (h.busy (e' + 1) (by have := h'.lt; omega) hlt)

theorem conversion_of_start (hreset : ResetFirst inp) (s : Regs) (hD : DivOk D) (ht : 0 < t)
    (hs : (regs D s inp t).present_state = .IDLE) (hstart : (inp t).start = true) :
    ∃ e, Conversion D s inp t e := by
  obtain ⟨hs', -⟩ := start_succ hreset ht hs hstart
  obtain ⟨n, hn⟩ : ∃ n, left D (regs D s inp (t + 1)) = n := ⟨_, rfl⟩
  have hpos : 0 < n := by
    rw [← hn, left, hs']
    dsimp only
    omega
  have hidle : ∀ k ≤ n, (regs D s inp (t + 1 + k)).present_state = .IDLE ↔ k = n := by
    intro k hk
    rw [← left_eq_zero_iff (D := D), ← hn]
    exact (jobs hreset s hD).idle_iff t.succ_pos (hk.trans_eq hn.symm)
  refine ⟨t + n, ht, by omega, hs, fun v htv hvn hv => ?_, ?_⟩
  · obtain ⟨k, rfl⟩ := Nat.exists_eq_add_of_le (Nat.succ_le_of_lt htv)
    have hk := (hidle k (by omega)).mp hv
    omega
  · rw [show t + n + 1 = t + 1 + n by omega]
    exact (hidle n le_rfl).mpr rfl

/-! ## The conversions after the first -/

/-- After a start the interface is idle only with `cnv_count` at 6. -/
theorem idle_count_step (hc : Counts D s) (hr : i.reset = false)
    (hidle : s.present_state = .IDLE → s.cnv_count = 6) :
    (step D s i).present_state = .IDLE → (step D s i).cnv_count = 6 := by
  have hstep := adc_step D s hr
  generalize step D s i = s' at hstep ⊢
  intro hs'
  cases hstep with
  | idle hs => exact hidle hs
  | done hs =>
    simp only [Counts, hs] at hc
    exact hc.2.1
  | start | cnvEnd | waitEnd | validEnd | msbEnd | highEnd | lowLast | lowEnd => cases hs'
  | cnv hs | wait hs | valid hs | msb hs | high hs | low hs => cases hs.symm.trans hs'

/-- The second conversion has a short pulse. -/
theorem short_of_startedTwice (hreset : ResetFirst inp) (s : Regs) (h : StartedTwice D inp) :
    ∃ c e, Conversion D s inp c e ∧ (waveform D s inp c e).countP Out.cnv = 6 := by
  obtain ⟨hD, f, t, hf, hft, hfs, hts⟩ := h
  obtain ⟨f₀, u, hf₀, hnone, hstart, hfu, hleft, hi⟩ :=
    (jobs hreset s hD).taken_of_apart hf hft hfs hts
  have hu : 0 < u := by omega
  have hs : (regs D s inp u).present_state = .IDLE := left_eq_zero_iff.mp hleft
  have hbusy : (regs D s inp (f₀ + 1)).present_state ≠ .IDLE := by
    obtain ⟨hs', -⟩ := start_succ hreset hf₀ (before_start (D := D) hreset s hf₀ hnone).1 hstart
    rw [hs']
    decide
  have hcount : (regs D s inp u).cnv_count = 6 := by
    refine hold (P := fun v => (regs D s inp v).present_state = .IDLE →
      (regs D s inp v).cnv_count = 6) (show f₀ + 1 ≤ u by rw [firstTime] at hfu; omega) ?_
      (fun hs => absurd hs hbusy) hs
    intro v hv _ ih
    exact idle_count_step (ok (D := D) hreset s (by omega)).counts (hreset.2 v (by omega)) ih
  obtain ⟨e, hconv⟩ := conversion_of_start hreset s hD hu hs hi
  have hhigh := hconv.high hreset
  rw [hcount, CNV_PULSE] at hhigh
  exact ⟨u, e, hconv, by omega⟩

theorem not_allAlike (hreset : ResetFirst inp) (s : Regs) (h : StartedTwice D inp) :
    ¬ AllAlike D s inp := by
  intro hall
  obtain ⟨c, e, hconv, hshort⟩ := short_of_startedTwice hreset s h
  cases hshort.symm.trans (hall c e hconv).2.1

/-- Without a second one, a conversion has the first start. -/
theorem Conversion.none_before (hreset : ResetFirst inp) (h : Conversion D s inp c e)
    (hno : ¬ StartedTwice D inp) : ∀ v, 0 < v → v < c → (inp v).start = false := by
  intro v hv hvc
  by_contra hstart
  have hD := h.divOk hreset
  exact hno ⟨hD, (jobs hreset s hD).apart_of_taken h.pos (left_idle h.idle) (h.start hreset) hv hvc
    (by simpa using hstart)⟩

/-- All conversions are alike exactly when there is only one. -/
theorem allAlike_iff (hreset : ResetFirst inp) (D : ℕ) (s : Regs) :
    AllAlike D s inp ↔ ¬ StartedTwice D inp := by
  constructor
  · exact fun hall h => not_allAlike hreset s h hall
  · intro hno c e h
    have hnone := h.none_before hreset hno
    refine ⟨fun c₀ e₀ h₀ => ?_, ?_, h.data hreset⟩
    · have hnone₀ := h₀.none_before hreset hno
      have hc : c = c₀ := by
        rcases Nat.lt_trichotomy c c₀ with hlt | heq | hlt
        · cases (hnone₀ c h.pos hlt).symm.trans (h.start hreset)
        · exact heq
        · cases (hnone c₀ h₀.pos hlt).symm.trans (h₀.start hreset)
      subst hc
      rw [h.end_unique h₀.toConversion]
    · have hhigh := h.high hreset
      rwa [(before_start hreset s h.pos hnone).2, Nat.add_zero] at hhigh

/-- A reset, then the starts `start`, with 1 and 0 by turns from the ADC. -/
def starts (start : ℕ → Bool) (t : ℕ) : In := ⟨t = 0, start t, t % 2 = 1⟩

theorem starts_reset (start : ℕ → Bool) : ResetFirst (starts start) :=
  ⟨rfl, fun _ ht => decide_eq_false (by omega)⟩

/-- The registers before the reset. -/
def powerUp : Regs := ⟨.IDLE, 0, 0, 0, 0, false, false, false, 0, false⟩

theorem allAlike_once : AllAlike 5 powerUp (starts fun t => t = 1) := by
  rw [allAlike_iff (starts_reset _)]
  rintro ⟨-, f, t, hf, hft, hfs, hts⟩
  have hf1 : f = 1 := of_decide_eq_true hfs
  have ht1 : t = 1 := of_decide_eq_true hts
  rw [firstTime, hf1, ht1] at hft
  omega

/-- Two conversions, the second with a pulse of 6 clocks. -/
theorem not_allAlike_twice : ¬ AllAlike 5 powerUp (starts fun t => t = 1 || t = 1695) :=
  not_allAlike (starts_reset _) powerUp
    ⟨⟨by decide, by decide⟩, 1, 1695, Nat.one_pos, le_rfl, rfl, rfl⟩

end Zpsc.Ads8568
