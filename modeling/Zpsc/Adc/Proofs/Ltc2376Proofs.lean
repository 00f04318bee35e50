import Zpsc.Adc.Ltc2376

/-!
# Proofs: the DCCT ADC

During a conversion the bits that have been sampled are the top ones of the register, down to
`bit_count` (`Collects`); what the register held before is overwritten.
-/

namespace Zpsc.Ltc2376

open Bits Clocked

variable {s : Regs} {i : In} {inp : ℕ → In} {c t v n : ℕ} {r : Bool} {bits : List Bool}

/-! ## One clock -/

/-- What the state machine can do at a clock without a reset. -/
inductive ConvStep (s : Regs) (i : In) : Regs → Prop
  | hold (he : s.clk_enb = false) : ConvStep s i { s with start_lat := i.start || s.start_lat }
  | idle (hs : s.state = .IDLE) (hl : s.start_lat = false) :
      ConvStep s i
        { s with
          start_lat := i.start || s.start_lat
          bit_count := num_bits i.resolution - 1, sclk := false, data_rdy := false }
  | start (hs : s.state = .IDLE) (he : s.clk_enb = true) (hl : s.start_lat = true) :
      ConvStep s i
        { s with
          bit_count := num_bits i.resolution - 1, sclk := false, data_rdy := false
          state := .SET_CNV, start_lat := false }
  | cnvEnd (hs : s.state = .SET_CNV) (hc : s.cnv_count = CNV_PULSE) :
      ConvStep s i
        { s with
          start_lat := i.start || s.start_lat
          cnv := false, cnv_count := 0, state := .WAIT_FOR_NOT_BUSY }
  | cnv (hs : s.state = .SET_CNV) (hc : s.cnv_count ≠ CNV_PULSE) :
      ConvStep s i
        { s with
          start_lat := i.start || s.start_lat
          cnv := true, cnv_count := wrap (s.cnv_count + 1) }
  | waitEnd (hs : s.state = .WAIT_FOR_NOT_BUSY) (hc : s.cnv_count = CNV_WIDTH) :
      ConvStep s i
        { s with start_lat := i.start || s.start_lat, cnv_count := 0, state := .SCLK_HI }
  | wait (hs : s.state = .WAIT_FOR_NOT_BUSY) (hc : s.cnv_count ≠ CNV_WIDTH) :
      ConvStep s i
        { s with start_lat := i.start || s.start_lat, cnv_count := wrap (s.cnv_count + 1) }
  | high (hs : s.state = .SCLK_HI) (he : s.clk_enb = true) :
      ConvStep s i
        { s with
          start_lat := i.start || s.start_lat
          shift_reg := setBit s.shift_reg s.bit_count i.sdi, state := .SCLK_LO, sclk := true }
  | lowEnd (hs : s.state = .SCLK_LO) (hb : s.bit_count = 0) :
      ConvStep s i
        { s with
          start_lat := i.start || s.start_lat
          sclk := false, bit_count := wrap (s.bit_count + 511), state := .DONE }
  | low (hs : s.state = .SCLK_LO) (hb : s.bit_count ≠ 0) :
      ConvStep s i
        { s with
          start_lat := i.start || s.start_lat
          sclk := false, bit_count := wrap (s.bit_count + 511), state := .SCLK_HI }
  | done (hs : s.state = .DONE) :
      ConvStep s i
        { s with
          start_lat := i.start || s.start_lat
          dcct2 :=
            if i.resolution then s.shift_reg.extractLsb' 20 20
            else sresize 20 (s.shift_reg.extractLsb' 18 18)
          dcct1 :=
            if i.resolution then s.shift_reg.extractLsb' 0 20
            else sresize 20 (s.shift_reg.extractLsb' 0 18)
          bit_count := 0, data_rdy := true, state := .IDLE }

theorem conv_step (s : Regs) (hr : i.reset = false) : ConvStep s i (conv s i) := by
  rw [conv, if_neg (by rw [hr]; exact Bool.false_ne_true)]
  split
  · next he =>
    unfold tick
    dsimp only
    split
    · next hs =>
      split
      · next hl => exact .start hs he hl
      · next hl => exact .idle hs (by simpa using hl)
    · next hs =>
      split
      · next hc => exact .cnvEnd hs hc
      · next hc => exact .cnv hs hc
    · next hs =>
      split
      · next hc => exact .waitEnd hs hc
      · next hc => exact .wait hs hc
    · next hs => exact .high hs he
    · next hs =>
      split
      · next hb => exact .lowEnd hs hb
      · next hb => exact .low hs hb
    · next hs => exact .done hs
  · next he => exact .hold (by simpa using he)

theorem conv_reset (hr : i.reset = true) :
    (conv s i).state = .IDLE ∧ (conv s i).data_rdy = false := by
  simp [conv, hr]

/-! ## A conversion -/

/-- In a conversion of `n` bits, the bits `bits` have been sampled. -/
def Collects (n : ℕ) (bits : List Bool) (s : Regs) : Prop :=
  match s.state with
  | .IDLE => False
  | .SET_CNV | .WAIT_FOR_NOT_BUSY => s.bit_count = n - 1 ∧ bits = []
  | .SCLK_HI => s.bit_count < n ∧ bits = below s.shift_reg n (n - 1 - s.bit_count)
  | .SCLK_LO => s.bit_count < n ∧ bits = below s.shift_reg n (n - s.bit_count)
  | .DONE => bits = below s.shift_reg n n

theorem Collects.step (h : Collects n bits s) (hn : 0 < n) (hn' : n ≤ 40)
    (hbusy : (conv s i).state ≠ .IDLE) :
    Collects n (bits ++ if s.clk_enb && s.state == .SCLK_HI then [i.sdi] else []) (conv s i) := by
  have hr : i.reset = false := by
    by_contra hr
    exact hbusy (conv_reset (by simpa using hr)).1
  have hstep := conv_step s hr
  generalize conv s i = s' at hstep hbusy ⊢
  cases hstep with
  | hold he => simpa [Collects, he] using h
  | idle hs | start hs => simp only [Collects, hs] at h
  | cnvEnd hs | cnv hs | wait hs =>
    simp only [Collects, hs] at h ⊢
    simpa using h
  | waitEnd hs =>
    simp only [Collects, hs] at h ⊢
    obtain ⟨hb, rfl⟩ := h
    rw [hb, Nat.sub_self]
    exact ⟨by omega, by simp [below]⟩
  | high hs he =>
    simp only [Collects, hs] at h ⊢
    obtain ⟨hb, rfl⟩ := h
    refine ⟨hb, ?_⟩
    have hset := below_setBit s.shift_reg (show n - 1 - s.bit_count < n by omega) hn' i.sdi
    rw [show n - 1 - (n - 1 - s.bit_count) = s.bit_count by omega,
      show n - 1 - s.bit_count + 1 = n - s.bit_count by omega] at hset
    simpa [he] using hset.symm
  | lowEnd hs hb =>
    simp only [Collects, hs, hb, Nat.sub_zero] at h ⊢
    simpa using h.2
  | low hs hb =>
    simp only [Collects, hs] at h ⊢
    obtain ⟨hlt, rfl⟩ := h
    have hwrap : wrap (s.bit_count + 511) = s.bit_count - 1 := by
      rw [wrap]
      omega
    rw [hwrap, show n - 1 - (s.bit_count - 1) = n - s.bit_count by omega]
    exact ⟨by omega, by simp⟩
  | done => exact absurd rfl hbusy

/-- The words in the register. -/
theorem words_below (x : BitVec 40) (r : Bool) :
    Words r (below x (num_bits r) (num_bits r))
      (if r then x.extractLsb' 20 20 else sresize 20 (x.extractLsb' 18 18))
      (if r then x.extractLsb' 0 20 else sresize 20 (x.extractLsb' 0 18)) := by
  cases r with
  | true =>
    rw [Words, if_pos rfl, if_pos rfl, if_pos rfl, msbFirst_extractLsb', msbFirst_extractLsb']
    exact below_add x 40 20 20
  | false =>
    refine ⟨x.extractLsb' 18 18, x.extractLsb' 0 18, ?_, rfl, rfl⟩
    rw [msbFirst_extractLsb', msbFirst_extractLsb']
    exact below_add x 36 18 18

/-! ## Runs -/

theorem regs_succ (s : Regs) (inp : ℕ → In) (t : ℕ) :
    regs s inp (t + 1) = step (regs s inp t) (inp t) := rfl

/-- `data_rdy` rises when the words are taken from the register. -/
theorem done_of_rise (h : s.data_rdy = false) (h' : (conv s i).data_rdy = true) :
    i.reset = false ∧ s.state = .DONE ∧
      (conv s i).dcct2 = (if i.resolution then s.shift_reg.extractLsb' 20 20
        else sresize 20 (s.shift_reg.extractLsb' 18 18)) ∧
      (conv s i).dcct1 = if i.resolution then s.shift_reg.extractLsb' 0 20
        else sresize 20 (s.shift_reg.extractLsb' 0 18) := by
  have hr : i.reset = false := by
    by_contra hr
    cases (conv_reset (s := s) (by simpa using hr)).2.symm.trans h'
  have hstep := conv_step s hr
  generalize conv s i = s' at hstep h' ⊢
  cases hstep with
  | done hs => exact ⟨hr, hs, rfl, rfl⟩
  | idle | start => cases h'
  | hold | cnvEnd | cnv | waitEnd | wait | high | lowEnd | low => cases h.symm.trans h'

/-- Before the end of a conversion there is its start. -/
theorem exists_start (hreset : (inp 0).reset = true) (s : Regs)
    (hdone : (regs s inp t).state = .DONE) (ht : 0 < t) :
    ∃ c < t, (regs s inp c).state = .IDLE ∧ ∀ v, c < v → v ≤ t → (regs s inp v).state ≠ .IDLE := by
  have h1 : (regs s inp 1).state = .IDLE := (conv_reset hreset).1
  have ht1 : t ≠ 1 := by
    rintro rfl
    cases h1.symm.trans hdone
  rcases exists_last_tick (fun v => (regs s inp v).state == .IDLE) t with hnone | ⟨c, hc, hk, hlast⟩
  · simpa [h1] using hnone 1 (by omega)
  · refine ⟨c, hc, by simpa using hk, ?_⟩
    intro v hcv hvt
    rcases Nat.lt_or_eq_of_le hvt with hlt | rfl
    · simpa using hlast v hcv hlt
    · rw [hdone]
      decide

/-- A conversion starts with nothing sampled. -/
theorem collects_start (hs : s.state = .IDLE) (hbusy : (conv s i).state ≠ .IDLE) :
    Collects (num_bits i.resolution) [] (conv s i) := by
  have hr : i.reset = false := by
    by_contra hr
    exact hbusy (conv_reset (by simpa using hr)).1
  have hstep := conv_step s hr
  generalize conv s i = s' at hstep hbusy ⊢
  cases hstep with
  | start => exact ⟨rfl, rfl⟩
  | hold | idle => exact absurd hs hbusy
  | cnvEnd h | cnv h | waitEnd h | wait h | high h | lowEnd h | low h | done h =>
    cases h.symm.trans hs

theorem num_bits_pos (r : Bool) : 0 < num_bits r := by cases r <;> decide

theorem num_bits_le (r : Bool) : num_bits r ≤ 40 := by cases r <;> decide

/-- During a conversion. -/
theorem collects (hs : (regs s inp c).state = .IDLE)
    (hbusy : ∀ v, c < v → v ≤ t → (regs s inp v).state ≠ .IDLE) (hres : (inp c).resolution = r)
    (hcv : c < v) (hvt : v ≤ t) : Collects (num_bits r) (sdiBits s inp c v) (regs s inp v) := by
  induction v, hcv using Nat.le_induction with
  | base =>
    have hnone : sdiBits s inp c (c + 1) = [] := by
      rw [sdiBits, sampled_one, samples, hs, if_neg (by simp)]
    have hstart := collects_start hs (hbusy (c + 1) (Nat.lt_succ_self c) hvt)
    rw [hres] at hstart
    rw [Nat.succ_eq_add_one, hnone]
    exact hstart
  | succ v hcv ih =>
    rw [sdiBits, sampled_succ (by omega)]
    exact (ih (by omega)).step (num_bits_pos r) (num_bits_le r) (hbusy (v + 1) (by omega) hvt)

/-- For every stream, resolution and number of conversions before. -/
theorem deserialises (hreset : (inp 0).reset = true) (s : Regs) : Deserialises s inp := by
  intro t hlow hhigh
  have hend : (inp t).reset = false ∧ (regs s inp t).state = .DONE ∧ _ := done_of_rise hlow hhigh
  obtain ⟨hr, hdone, hdcct2, hdcct1⟩ := hend
  have ht : 0 < t := by
    rcases Nat.eq_zero_or_pos t with rfl | hpos
    · cases hreset.symm.trans hr
    · exact hpos
  obtain ⟨c, hct, hidle, hbusy⟩ := exists_start hreset s hdone ht
  refine ⟨c, ⟨hct, hidle, hbusy, hhigh⟩, ?_⟩
  intro r hres
  have hbits := collects hidle hbusy (hres c le_rfl hct.le) hct le_rfl
  rw [Collects, hdone] at hbits
  have hwords := words_below (regs s inp t).shift_reg r
  rw [hres t hct.le le_rfl] at hdcct2 hdcct1
  rw [← hbits, ← hdcct2, ← hdcct1] at hwords
  exact hwords

/-- A start at every clock, with a resolution that changes every 4096 clocks. -/
theorem deserialises_changing :
    Deserialises ⟨.DONE, 0, 7, 9, true, 200, false, true, true, 1, 2, true⟩
      fun t => ⟨t = 0, true, t / 4096 % 2 = 1, t % 3 = 0⟩ :=
  deserialises rfl _

end Zpsc.Ltc2376
