import Zpsc.Dac.Lockstep
import Zpsc.Dac.Proofs.DacCtrlrProofs
import Zpsc.Dac.Proofs.SpiProofs

/-!
# The four SPI engines run in lockstep

No data reaches the sequence of a gain stage or of an SPI engine, so engines with the same ticks and
resets drive the same `n_sync` and the same clock. With its lines as if they all came from one
engine, a DAC is followed through a frame: `InFlight` for the 257 clocks from the load to the rise
of `n_sync`, `Quiet` between the frames.
-/

namespace Zpsc

open Clocked

/-! ## Data do not reach the sequence -/

theorem GainOffset.SameTiming.step {a b : Stage} (h : SameTiming a b) (reset trig : Bool)
    (n n' : Bool) (x x' : BitVec 20) (c c' : DacCntrl) :
    SameTiming (GainOffset.step a reset trig n x c) (GainOffset.step b reset trig n' x' c') := by
  obtain ⟨hs, hm, hd⟩ := h
  have hsat (n : Bool) (s : Stage) :
      (saturate n s).multdlycnt = s.multdlycnt ∧ (saturate n s).done = s.done := by
    unfold saturate
    split_ifs <;> exact ⟨rfl, rfl⟩
  unfold GainOffset.step
  rw [hs]
  cases reset with
  | true => exact ⟨rfl, hm, rfl⟩
  | false =>
    cases hb : b.state <;> simp only [Bool.false_eq_true, if_false]
    case IDLE => cases trig <;> exact ⟨rfl, hm, rfl⟩
    case APPLY_OFFSETS => exact ⟨rfl, hm, hd⟩
    case APPLY_GAINS => exact ⟨rfl, rfl, hd⟩
    case SCALE => exact ⟨rfl, hm, hd⟩
    case CHECKFORSAT =>
      refine ⟨rfl, ?_, ?_⟩
      · exact (hsat n a).1.trans (hm.trans (hsat n' b).1.symm)
      · exact (hsat n a).2.trans (hd.trans (hsat n' b).2.symm)
    case MULT_DLY =>
      rw [hm]
      split
      · exact ⟨rfl, rfl, rfl⟩
      · exact ⟨rfl, rfl, hd⟩

namespace Ad5781

section

variable (s : Spi) (i : In)

@[simp] theorem stepData_present_state : (stepData s i).present_state = s.present_state := by
  unfold stepData
  split <;> rfl

@[simp] theorem stepData_bit_count : (stepData s i).bit_count = s.bit_count := by
  unfold stepData
  split <;> rfl

@[simp] theorem stepData_shift_reg : (stepData s i).shift_reg = s.shift_reg := by
  unfold stepData
  split <;> rfl

@[simp] theorem stepData_n_sync : (stepData s i).n_sync = s.n_sync := by
  unfold stepData
  split <;> rfl

@[simp] theorem stepData_sclk : (stepData s i).sclk = s.sclk := by
  unfold stepData
  split <;> rfl

end

theorem SameTiming.step {a b : Spi} (h : SameTiming a b) (div : ℕ) {i j : In}
    (hr : i.reset = j.reset) (hs : i.start = j.start) :
    SameTiming (Ad5781.step div a i) (Ad5781.step div b j) := by
  obtain ⟨hst, hb, hk, hi, hss, hn, hc⟩ := h
  unfold Ad5781.step stepData
  rw [hr, hst, hs, hk, hb, hi, hss]
  cases j.reset with
  | true => exact ⟨rfl, rfl, rfl, rfl, rfl, rfl, rfl⟩
  | false =>
    simp only [Bool.false_eq_true, if_false]
    cases b.present_state
    all_goals
      dsimp only
      try split_ifs
      all_goals constructor
      all_goals first | rfl | assumption

/-! ## A frame on the lines of one engine -/

/-- The lines of an engine and a DAC that has them all. -/
def ownLines (s : Spi) : Lines := ⟨s.n_sync, s.sclk, sdo s⟩

/-- The first `b` bits of a frame. -/
def top (f : BitVec 24) (b : ℕ) : List Bool := (List.range b).map fun k => f.getLsbD (23 - k)

theorem top_succ (f : BitVec 24) (b : ℕ) : top f (b + 1) = top f b ++ [f.getLsbD (23 - b)] := by
  rw [top, List.range_succ, List.map_append]
  rfl

theorem word_top (f : BitVec 24) : Receiver.word (top f 24) = f := by
  apply BitVec.eq_of_getLsbD_eq
  intro j hj
  rw [Receiver.word, Bits.getLsbD_ofBits]
  have h23 : 23 - (23 - j) = j := by omega
  simp [top, hj, h23, show 23 - j < 24 by omega]

/-- A frame `f` on its way, `a` clocks after the one that loaded it: the engine and the bits its DAC
has taken. -/
inductive InFlight (f : BitVec 24) (s : Spi) (bits : List Bool) (a : ℕ) : Prop
  | sync (ha : a = s.clk_count) (hs : s.present_state = .N_SYNC_ZERO) (hb : s.bit_count = 0)
      (hk : s.clk_count ≤ 10) (hf : s.shift_reg = f) (hr : bits = [])
  | first (ha : a = 11 + s.clk_count) (hs : s.present_state = .FIRST_BIT) (hb : s.bit_count = 0)
      (hk : s.clk_count ≤ 4) (hf : s.shift_reg = f) (hn : s.n_sync = false) (hc : s.sclk = true)
      (hr : bits = [])
  | low (b : ℕ) (ha : a = 16 + 10 * b + s.clk_count) (hlt : b < 24)
      (hs : s.present_state = .SCLK_LO) (hb : s.bit_count = b + 1) (hk : s.clk_count ≤ 4)
      (hf : s.shift_reg = f <<< b) (hn : s.n_sync = false) (hc : s.sclk = false)
      (hr : bits = top f (b + 1))
  | high (b : ℕ) (ha : a = 21 + 10 * b + s.clk_count) (hlt : b < 24)
      (hs : s.present_state = .SCLK_HI) (hb : s.bit_count = b + 1) (hk : s.clk_count ≤ 4)
      (hf : s.shift_reg = f <<< (b + 1)) (hn : s.n_sync = false) (hc : s.sclk = true)
      (hr : bits = top f (b + 1))
  | full (ha : a = 256) (hs : s.present_state = .DAC_DONE) (hb : s.bit_count = 0)
      (hk : s.clk_count = 0) (hn : s.n_sync = false) (hr : bits = top f 24)

/-- Between two frames. -/
structure Quiet (s : Spi) (bits : List Bool) : Prop where
  bits : bits = []
  bit_count : s.bit_count = 0
  state : (s.clk_count = 0 ∧ (s.present_state = .IDLE ∨ s.present_state = .SEND_CTRL_REG ∨
      s.present_state = .SEND_SETPOINT)) ∨ s.present_state = .WAIT_SYNC_LOW ∨
    (s.present_state = .DAC_DONE ∧ 0 < s.clk_count ∧ s.clk_count < 10)

/-- A DAC that has taken `bits`, on the lines of an engine in state `s`. -/
def dac (s : Spi) (bits : List Bool) : Receiver := ⟨s.n_sync, s.sclk, bits⟩

variable {f : BitVec 24} {s s' : Spi} {i : In} {bits : List Bool} {a : ℕ}

theorem latch_nil : (dac s []).latch (ownLines s') = none := by
  simp [Receiver.latch, dac]

theorem latch_low (h : s'.n_sync = false) : (dac s bits).latch (ownLines s') = none := by
  simp [Receiver.latch, dac, ownLines, h]

theorem bits_sync (h : s'.n_sync = true) : ((dac s bits).step (ownLines s')).bits = [] := by
  simp [Receiver.step, ownLines, h]

theorem bits_keep (hn : s'.n_sync = false) (hc : s.sclk = false ∨ s'.sclk = true) :
    ((dac s bits).step (ownLines s')).bits = bits := by
  rcases hc with hc | hc <;> simp [Receiver.step, ownLines, dac, hn, hc]

theorem bits_fall (hn : s'.n_sync = false) (hc : s.sclk = true) (hc' : s'.sclk = false) :
    ((dac s bits).step (ownLines s')).bits = bits ++ [sdo s'] := by
  simp [Receiver.step, ownLines, dac, hn, hc, hc']

theorem bits_nil (hc : s'.sclk = s.sclk ∨ s'.n_sync = true) :
    ((dac s []).step (ownLines s')).bits = [] := by
  rcases hc with hc | hc
  · cases hs : s.sclk <;> simp [Receiver.step, ownLines, dac, hc, hs]
  · exact bits_sync hc

/-- A reset ends whatever there is. -/
theorem quiet_of_reset (div : ℕ) (s : Spi) (bits : List Bool) (hr : i.reset = true) :
    Quiet (step div s i) ((dac s bits).step (ownLines (step div s i))).bits := by
  have hn : (step div s i).n_sync = true := by simp [step, hr]
  refine ⟨bits_sync hn, ?_, .inl ?_⟩
  · simp [step, hr]
  · simp [step, hr]

/-- A clock that loads a frame. -/
theorem inFlight_of_loaded {div : ℕ} (hr : i.reset = false) (hload : loaded s i = some f)
    (hb : s.bit_count = 0) (hk : s.clk_count = 0) :
    InFlight f (step div s i) ((dac s []).step (ownLines (step div s i))).bits 0 := by
  have hstep : (step div s i).present_state = .N_SYNC_ZERO ∧ (step div s i).bit_count = 0 ∧
      (step div s i).clk_count = 0 ∧ (step div s i).shift_reg = f ∧
      (step div s i).sclk = s.sclk := by
    unfold loaded at hload
    unfold step stepData
    rw [hr] at hload ⊢
    cases hst : s.present_state <;> simp only [hst, Bool.false_eq_true, if_false] at hload ⊢
    case IDLE =>
      split_ifs at hload with h1 h2 h3
      · simp [h1, h2, hb, hk, Option.some.inj hload]
      · simp [h1, h3, hb, hk, Option.some.inj hload]
    case SEND_CTRL_REG => simp [hb, hk, Option.some.inj hload]
    case SEND_SETPOINT => simp [hb, hk, Option.some.inj hload]
    all_goals cases hload
  obtain ⟨hst, hb', hk', hf, hc⟩ := hstep
  exact .sync hk'.symm hst hb' (by omega) hf (bits_nil (.inl hc))

/-- A clock between two frames that loads none. -/
theorem Quiet.of_not_loaded {div : ℕ} (h : Quiet s bits) (hr : i.reset = false)
    (hload : loaded s i = none) :
    Quiet (step div s i) ((dac s bits).step (ownLines (step div s i))).bits := by
  obtain ⟨rfl, hb, hst⟩ := h
  rcases hst with ⟨hk, hst | hst | hst⟩ | hst | ⟨hst, hk⟩
  · -- the start of a pass that first sends the control register, or no start
    have hstep : (step div s i).sclk = s.sclk ∧ (step div s i).bit_count = 0 ∧
        (step div s i).clk_count = 0 ∧ ((step div s i).present_state = .IDLE ∨
          (step div s i).present_state = .SEND_CTRL_REG) := by
      simp only [loaded, hr, hst, Bool.false_eq_true, if_false] at hload
      simp only [step, stepData, hr, hst, Bool.false_eq_true, if_false]
      split_ifs at hload ⊢ with h1 h2 h3
      · simp [hb, hk]
      · simp [hb, hk]
    obtain ⟨hc, hb', hk', hst'⟩ := hstep
    exact ⟨bits_nil (.inl hc), hb', .inl ⟨hk', hst'.imp_right .inl⟩⟩
  · simp [loaded, hr, hst] at hload
  · simp [loaded, hr, hst] at hload
  · have hstep : (step div s i).sclk = s.sclk ∧ (step div s i).bit_count = 0 ∧
        (((step div s i).clk_count = 0 ∧ (step div s i).present_state = .IDLE) ∨
          (step div s i).present_state = .WAIT_SYNC_LOW) := by
      simp only [step, stepData, hr, hst, Bool.false_eq_true, if_false]
      split_ifs <;> simp [hb]
    obtain ⟨hc, hb', hst'⟩ := hstep
    refine ⟨bits_nil (.inl hc), hb', ?_⟩
    exact hst'.imp (fun h => ⟨h.1, .inl h.2⟩) .inl
  · have hstep : (step div s i).sclk = s.sclk ∧ (step div s i).bit_count = 0 ∧
        (((step div s i).clk_count = 0 ∧ (step div s i).present_state = .SEND_SETPOINT) ∨
          (step div s i).present_state = .WAIT_SYNC_LOW ∨
          ((step div s i).present_state = .DAC_DONE ∧ 0 < (step div s i).clk_count ∧
            (step div s i).clk_count < 10)) := by
      simp only [step, stepData, hr, hst, nextClk_of_lt (show s.clk_count < 1023 by omega),
        Bool.false_eq_true, if_false]
      split_ifs with h9
      · simp [hb]
      · simp [hb]
      · rw [SYNC_WIDTH] at h9
        exact ⟨rfl, hb, .inr (.inr ⟨rfl, Nat.succ_pos _, show s.clk_count + 1 < 10 by omega⟩)⟩
    obtain ⟨hc, hb', hst'⟩ := hstep
    refine ⟨bits_nil (.inl hc), hb', ?_⟩
    exact hst'.imp_left fun h => ⟨h.1, .inr (.inr h.2)⟩

theorem Quiet.step (h : Quiet s bits) (div : ℕ) (i : In) :
    (dac s bits).latch (ownLines (step div s i)) = none ∧
    ((loaded s i = none ∧ Quiet (step div s i) ((dac s bits).step (ownLines (step div s i))).bits) ∨
      ∃ f, loaded s i = some f ∧
        InFlight f (step div s i) ((dac s bits).step (ownLines (step div s i))).bits 0) := by
  have hbits := h.bits
  subst hbits
  refine ⟨latch_nil, ?_⟩
  cases hr : i.reset with
  | true => exact .inl ⟨by simp [loaded, hr], quiet_of_reset div s [] hr⟩
  | false =>
    cases hload : loaded s i with
    | none => exact .inl ⟨rfl, h.of_not_loaded hr hload⟩
    | some f =>
      refine .inr ⟨f, rfl, inFlight_of_loaded hr hload h.bit_count ?_⟩
      rcases h.state with ⟨hk, -⟩ | hst | ⟨hst, -⟩
      · exact hk
      · simp [loaded, hr, hst] at hload
      · simp [loaded, hr, hst] at hload

theorem shift_out (x : BitVec 24) : x.extractLsb' 0 23 ++ 0#1 = x <<< 1 := by
  apply BitVec.eq_of_getLsbD_eq
  intro j hj
  rw [BitVec.getLsbD_append, BitVec.getLsbD_extractLsb', BitVec.getLsbD_shiftLeft]
  cases j with
  | zero => simp
  | succ j => simp [show j < 23 by omega, hj]

theorem sdo_shift {b : ℕ} (hb : b < 24) (h : s.shift_reg = f <<< b) :
    sdo s = f.getLsbD (23 - b) := by
  rw [sdo, h, BitVec.getLsbD_shiftLeft]
  simp [show ¬ 23 < b by omega]

theorem InFlight.not_loaded (h : InFlight f s bits a) (i : In) : loaded s i = none := by
  unfold loaded
  split
  · rfl
  · rcases h with ⟨-, hs, -, -, -, -⟩ | ⟨-, hs, -, -, -, -, -, -⟩ |
      ⟨b, -, -, hs, -, -, -, -, -, -⟩ | ⟨b, -, -, hs, -, -, -, -, -, -⟩ | ⟨-, hs, -, -, -, -⟩
    all_goals rw [hs]

theorem InFlight.sync_succ (hr : i.reset = false) (hs : s.present_state = .N_SYNC_ZERO)
    (hb : s.bit_count = 0) (hk : s.clk_count ≤ 10) (hf : s.shift_reg = f) :
    InFlight f (step 5 s i) ((dac s []).step (ownLines (step 5 s i))).bits (s.clk_count + 1) := by
  by_cases h10 : s.clk_count = SYNC_WIDTH
  · have hstep : step 5 s i = { stepData s i with
        n_sync := false, clk_count := 0, sclk := true, present_state := .FIRST_BIT } := by
      simp only [step, hr, hs, h10, Bool.false_eq_true, if_false, if_true]
    rw [hstep]
    refine .first ?_ rfl (by simpa using hb) (Nat.zero_le _) (by simpa using hf) rfl rfl
      (bits_keep rfl (.inr rfl))
    simp [h10, SYNC_WIDTH]
  · have hstep : step 5 s i = { stepData s i with
        n_sync := true, clk_count := s.clk_count + 1 } := by
      simp only [step, hr, hs, h10, nextClk_of_lt (show s.clk_count < 1023 by omega),
        Bool.false_eq_true, if_false]
    rw [SYNC_WIDTH] at h10
    rw [hstep]
    refine .sync rfl (by simpa using hs) (by simpa using hb) ?_ (by simpa using hf) (bits_sync rfl)
    exact Nat.lt_of_le_of_ne hk h10

theorem InFlight.first_succ (hr : i.reset = false) (hs : s.present_state = .FIRST_BIT)
    (hb : s.bit_count = 0) (hk : s.clk_count ≤ 4) (hf : s.shift_reg = f) (hn : s.n_sync = false)
    (hc : s.sclk = true) :
    InFlight f (step 5 s i) ((dac s []).step (ownLines (step 5 s i))).bits
      (11 + s.clk_count + 1) := by
  by_cases h4 : s.clk_count + 1 = 5
  · have hstep : step 5 s i = { stepData s i with
        sclk := false, clk_count := 0, bit_count := s.bit_count + 1,
        present_state := .SCLK_LO } := by
      simp only [step, hr, hs, h4, Bool.false_eq_true, if_false, if_true]
    rw [hstep]
    refine .low 0 ?_ (by omega) rfl (by simp [hb]) (Nat.zero_le _) (by simpa using hf)
      (by simpa using hn) rfl ?_
    · simp only
      omega
    · rw [bits_fall (by simpa using hn) hc rfl, sdo_shift (f := f) (b := 0) (by omega)
        (by simpa using hf), top_succ]
      rfl
  · have hstep : step 5 s i = { stepData s i with
        sclk := true, clk_count := s.clk_count + 1 } := by
      simp only [step, hr, hs, h4, nextClk_of_lt (show s.clk_count < 1023 by omega),
        Bool.false_eq_true, if_false]
    rw [hstep]
    refine .first rfl (by simpa using hs) (by simpa using hb) ?_ (by simpa using hf)
      (by simpa using hn) rfl (bits_keep (by simpa using hn) (.inr rfl))
    show s.clk_count + 1 ≤ 4
    omega

theorem InFlight.low_succ {b : ℕ} (hr : i.reset = false) (hlt : b < 24)
    (hs : s.present_state = .SCLK_LO) (hb : s.bit_count = b + 1) (hk : s.clk_count ≤ 4)
    (hf : s.shift_reg = f <<< b) (hn : s.n_sync = false) (hc : s.sclk = false) :
    (step 5 s i).n_sync = false ∧
    InFlight f (step 5 s i) ((dac s (top f (b + 1))).step (ownLines (step 5 s i))).bits
      (16 + 10 * b + s.clk_count + 1) := by
  by_cases h4 : s.clk_count + 1 = 5
  · have hstep : step 5 s i = { stepData s i with
        sclk := true, clk_count := 0, shift_reg := s.shift_reg.extractLsb' 0 23 ++ 0#1
        present_state := .SCLK_HI } := by
      simp only [step, hr, hs, h4, Bool.false_eq_true, if_false, if_true]
    rw [hstep]
    refine ⟨by simpa using hn, .high b ?_ hlt rfl (by simpa using hb) (Nat.zero_le _) ?_
      (by simpa using hn) rfl (bits_keep (by simpa using hn) (.inl hc))⟩
    · simp only
      omega
    · rw [shift_out, hf, ← BitVec.shiftLeft_add]
  · have hstep : step 5 s i = { stepData s i with
        sclk := false, clk_count := s.clk_count + 1 } := by
      simp only [step, hr, hs, h4, nextClk_of_lt (show s.clk_count < 1023 by omega),
        Bool.false_eq_true, if_false]
    rw [hstep]
    refine ⟨by simpa using hn, .low b rfl hlt (by simpa using hs) (by simpa using hb) ?_
      (by simpa using hf) (by simpa using hn) rfl (bits_keep (by simpa using hn) (.inl hc))⟩
    show s.clk_count + 1 ≤ 4
    omega

theorem InFlight.high_succ {b : ℕ} (hr : i.reset = false) (hlt : b < 24)
    (hs : s.present_state = .SCLK_HI) (hb : s.bit_count = b + 1) (hk : s.clk_count ≤ 4)
    (hf : s.shift_reg = f <<< (b + 1)) (hn : s.n_sync = false) (hc : s.sclk = true) :
    (step 5 s i).n_sync = false ∧
    InFlight f (step 5 s i) ((dac s (top f (b + 1))).step (ownLines (step 5 s i))).bits
      (21 + 10 * b + s.clk_count + 1) := by
  by_cases h4 : s.clk_count + 1 = 5
  · by_cases h24 : s.bit_count = BITS
    · have hstep : step 5 s i = { stepData s i with
          init_count := if s.init_count = 2 then 2 else s.init_count + 1
          bit_count := 0, clk_count := 0, present_state := .DAC_DONE } := by
        simp only [step, hr, hs, h4, h24, Bool.false_eq_true, if_false, if_true]
      have hb23 : b = 23 := by
        rw [hb, BITS] at h24
        omega
      subst hb23
      rw [hstep]
      refine ⟨by simpa using hn, .full ?_ rfl rfl rfl (by simpa using hn)
        (bits_keep (by simpa using hn) (.inr (by simpa using hc)))⟩
      omega
    · have hstep : step 5 s i = { stepData s i with
          sclk := false, bit_count := s.bit_count + 1, clk_count := 0
          present_state := .SCLK_LO } := by
        simp only [step, hr, hs, h4, h24, Bool.false_eq_true, if_false, if_true]
      have hb23 : b + 1 < 24 := by
        rw [hb, BITS] at h24
        omega
      rw [hstep]
      refine ⟨by simpa using hn, .low (b + 1) ?_ hb23 rfl (by simp [hb]) (Nat.zero_le _)
        (by simpa using hf) (by simpa using hn) rfl ?_⟩
      · simp only
        omega
      · rw [bits_fall (by simpa using hn) hc rfl, sdo_shift (f := f) hb23 (by simpa using hf),
          ← top_succ]
  · have hstep : step 5 s i = { stepData s i with
        sclk := true, clk_count := s.clk_count + 1 } := by
      simp only [step, hr, hs, h4, nextClk_of_lt (show s.clk_count < 1023 by omega),
        Bool.false_eq_true, if_false]
    rw [hstep]
    refine ⟨by simpa using hn, .high b rfl hlt (by simpa using hs) (by simpa using hb) ?_
      (by simpa using hf) (by simpa using hn) rfl (bits_keep (by simpa using hn) (.inr rfl))⟩
    show s.clk_count + 1 ≤ 4
    omega

/-- One clock of a frame on its way. -/
theorem InFlight.succ (h : InFlight f s bits a) (ha : a < 256) (hr : i.reset = false) :
    (dac s bits).latch (ownLines (step 5 s i)) = none ∧
    InFlight f (step 5 s i) ((dac s bits).step (ownLines (step 5 s i))).bits (a + 1) := by
  rcases h with ⟨rfl, hs, hb, hk, hf, rfl⟩ | ⟨rfl, hs, hb, hk, hf, hn, hc, rfl⟩ |
    ⟨b, rfl, hlt, hs, hb, hk, hf, hn, hc, rfl⟩ | ⟨b, rfl, hlt, hs, hb, hk, hf, hn, hc, rfl⟩ |
    ⟨rfl, -, -, -, -, -⟩
  · exact ⟨latch_nil, InFlight.sync_succ hr hs hb hk hf⟩
  · exact ⟨latch_nil, InFlight.first_succ hr hs hb hk hf hn hc⟩
  · obtain ⟨hn', hfl⟩ := InFlight.low_succ hr hlt hs hb hk hf hn hc
    exact ⟨latch_low hn', hfl⟩
  · obtain ⟨hn', hfl⟩ := InFlight.high_succ hr hlt hs hb hk hf hn hc
    exact ⟨latch_low hn', hfl⟩
  · omega

theorem InFlight.age_le (h : InFlight f s bits a) : a ≤ 256 := by
  rcases h with ⟨ha, -, -, hk, -, -⟩ | ⟨ha, -, -, hk, -, -, -, -⟩ |
    ⟨b, ha, hlt, -, -, hk, -, -, -, -⟩ | ⟨b, ha, hlt, -, -, hk, -, -, -, -⟩ | ⟨ha, -, -, -, -, -⟩
  all_goals omega

theorem length_top (f : BitVec 24) (b : ℕ) : (top f b).length = b := by simp [top]

/-- Whatever ends a frame, its DAC accepts that frame or nothing. -/
theorem InFlight.latch (h : InFlight f s bits a) (s' : Spi) :
    (dac s bits).latch (ownLines s') = none ∨ (dac s bits).latch (ownLines s') = some f := by
  have hword : bits.length = 24 → Receiver.word bits = f := by
    intro hlen
    rcases h with ⟨-, -, -, -, -, rfl⟩ | ⟨-, -, -, -, -, -, -, rfl⟩ |
      ⟨b, -, -, -, -, -, -, -, -, rfl⟩ | ⟨b, -, -, -, -, -, -, -, -, rfl⟩ | ⟨-, -, -, -, -, rfl⟩
    · cases hlen
    · cases hlen
    · rw [length_top] at hlen
      rw [hlen, word_top]
    · rw [length_top] at hlen
      rw [hlen, word_top]
    · exact word_top f
  unfold Receiver.latch
  split
  · next hif =>
    simp only [dac, Bool.and_eq_true, beq_iff_eq] at hif
    exact .inr (congrArg some (hword hif.2))
  · exact .inl rfl

/-- The rise of `n_sync` after the last bit. -/
theorem InFlight.done (h : InFlight f s bits 256) (i : In) :
    (dac s bits).latch (ownLines (step 5 s i)) = some f ∧
    Quiet (step 5 s i) ((dac s bits).step (ownLines (step 5 s i))).bits := by
  rcases h with ⟨ha, -, -, hk, -, -⟩ | ⟨ha, -, -, hk, -, -, -, -⟩ |
    ⟨b, ha, hlt, -, -, hk, -, -, -, -⟩ | ⟨b, ha, hlt, -, -, hk, -, -, -, -⟩ |
    ⟨-, hs, hb, hk, hn, rfl⟩
  · omega
  · omega
  · omega
  · omega
  · have hlatch (hn' : (step 5 s i).n_sync = true) :
        (dac s (top f 24)).latch (ownLines (step 5 s i)) = some f := by
      simp [Receiver.latch, dac, ownLines, hn, hn', length_top, word_top]
    cases hr : i.reset with
    | true => exact ⟨hlatch (by simp [step, hr]), quiet_of_reset 5 s _ hr⟩
    | false =>
      have hstep : step 5 s i = { stepData s i with n_sync := true, clk_count := 1 } := by
        simp [step, hr, hs, hk, SYNC_WIDTH, nextClk]
      refine ⟨hlatch (by rw [hstep]), ?_⟩
      rw [hstep]
      refine ⟨bits_sync rfl, by simpa using hb, .inr (.inr ⟨by simpa using hs, ?_⟩)⟩
      exact ⟨Nat.one_pos, Nat.one_lt_succ_succ 8⟩

end Ad5781

namespace DacCtrlr

variable {ram : Dpram} {cordic : Cordic} {s : System ram cordic} {inp : ℕ → In}

theorem Aligned.step {i : In} (h : Aligned s) (hr : ∀ c c', dacReset i c = dacReset i c') :
    Aligned (DacCtrlr.step s i) := by
  intro c c'
  obtain ⟨hg, hs⟩ := h c c'
  exact ⟨hg.step _ _ _ _ _ _ _ _, hs.step _ (hr c c') hg.done⟩

theorem aligned_trace (h : Aligned s) (hr : ∀ t c c', dacReset (inp t) c = dacReset (inp t) c')
    (t : ℕ) : Aligned (trace DacCtrlr.step s inp t) := by
  induction t with
  | zero => exact h
  | succ t ih => exact ih.step (hr t)

/-! ## Every DAC gets its own frames -/

theorem lines_eq (h : Aligned s) (sync c : Chan) :
    lines s sync c = Ad5781.ownLines (s.chan c).spi := by
  simp only [lines, Ad5781.ownLines, (h sync c).2.n_sync, (h .ps1 c).2.sclk]

section

variable (h : ∀ t, Aligned (trace DacCtrlr.step s inp t)) (sync c : Chan)
include h

theorem receiver_eq (t : ℕ) : receiver s inp sync c t =
    Ad5781.dac ((trace DacCtrlr.step s inp t).chan c).spi (receiver s inp sync c t).bits := by
  cases t with
  | zero => exact congrArg Receiver.init (lines_eq (h 0) sync c)
  | succ t =>
    rw [receiver, lines_eq (h (t + 1)) sync c]
    rfl

theorem sampled_eq (t : ℕ) : sampled s inp sync c t =
    (Ad5781.dac ((trace DacCtrlr.step s inp t).chan c).spi (receiver s inp sync c t).bits).latch
      (Ad5781.ownLines ((trace DacCtrlr.step s inp (t + 1)).chan c).spi) := by
  rw [sampled, lines_eq (h (t + 1)) sync c, receiver_eq h sync c t]
  rfl

theorem bits_succ (t : ℕ) : (receiver s inp sync c (t + 1)).bits =
    ((Ad5781.dac ((trace DacCtrlr.step s inp t).chan c).spi (receiver s inp sync c t).bits).step
      (Ad5781.ownLines ((trace DacCtrlr.step s inp (t + 1)).chan c).spi)).bits := by
  rw [receiver, lines_eq (h (t + 1)) sync c, receiver_eq h sync c t]
  rfl

end

/-- The frame on its way is the last one loaded, and its DAC has accepted nothing since. -/
def Pending (s : System ram cordic) (inp : ℕ → In) (sync c : Chan) (f : BitVec 24) (t : ℕ) : Prop :=
  ∃ u < t, loaded s inp c u = some f ∧ (∀ v, u < v → v < t → loaded s inp c v = none) ∧
    ∀ v, u < v → v < t → sampled s inp sync c v = none

theorem Pending.succ {sync c : Chan} {f : BitVec 24} {t : ℕ} (hp : Pending s inp sync c f t)
    (hl : loaded s inp c t = none) (hs : sampled s inp sync c t = none) :
    Pending s inp sync c f (t + 1) := by
  obtain ⟨u, hut, hload, hno, hsamp⟩ := hp
  refine ⟨u, by omega, hload, ?_, ?_⟩
  · intro v hv hvt
    rcases Nat.lt_succ_iff_lt_or_eq.mp hvt with hlt | rfl
    · exact hno v hv hlt
    · exact hl
  · intro v hv hvt
    rcases Nat.lt_succ_iff_lt_or_eq.mp hvt with hlt | rfl
    · exact hsamp v hv hlt
    · exact hs

/-- The input of the engine of channel `c` at clock `t`. -/
def spiIn (s : System ram cordic) (inp : ℕ → In) (c : Chan) (t : ℕ) : Ad5781.In :=
  ((trace DacCtrlr.step s inp t).chan c).spiIn (chanIn (trace DacCtrlr.step s inp t) (inp t) c)

/-- Where the engine of channel `c` and its DAC are before clock `t`. -/
def Course (s : System ram cordic) (inp : ℕ → In) (sync c : Chan) (t : ℕ) : Prop :=
  Ad5781.Quiet ((trace DacCtrlr.step s inp t).chan c).spi (receiver s inp sync c t).bits ∨
  ∃ f a, Ad5781.InFlight f ((trace DacCtrlr.step s inp t).chan c).spi
    (receiver s inp sync c t).bits a ∧ Pending s inp sync c f t

theorem course_trace (h : ∀ t, Aligned (trace DacCtrlr.step s inp t)) {sync c : Chan}
    (hrest : Ad5781.AtRest (s.chan c).spi) (t : ℕ) : Course s inp sync c t := by
  induction t with
  | zero => exact .inl ⟨rfl, hrest.bit_count, .inl ⟨hrest.clk_count, .inl hrest.present_state⟩⟩
  | succ t ih =>
    have hsamp := sampled_eq h sync c t
    have hbits := bits_succ h sync c t
    rcases ih with hq | ⟨f, a, hfl, hp⟩
    · obtain ⟨-, ⟨-, hq'⟩ | ⟨f, hload, hfl⟩⟩ := hq.step DacChan.spiClkDiv (spiIn s inp c t)
      · exact .inl (by rw [hbits]; exact hq')
      · refine .inr ⟨f, 0, by rw [hbits]; exact hfl, t, by omega, hload, ?_, ?_⟩
        · intro v hv hvt
          omega
        · intro v hv hvt
          omega
    · cases hr : dacReset (inp t) c with
      | true =>
        exact .inl (by rw [hbits]; exact Ad5781.quiet_of_reset (i := spiIn s inp c t) _ _ _ hr)
      | false =>
        rcases Nat.lt_or_eq_of_le hfl.age_le with hlt | rfl
        · obtain ⟨hlatch, hfl'⟩ := hfl.succ (i := spiIn s inp c t) hlt hr
          exact .inr ⟨f, a + 1, by rw [hbits]; exact hfl',
            hp.succ (hfl.not_loaded (spiIn s inp c t)) (hsamp.trans hlatch)⟩
        · exact .inl (by rw [hbits]; exact (hfl.done (spiIn s inp c t)).2)

theorem ownFrames (h : ∀ t, Aligned (trace DacCtrlr.step s inp t)) {sync c : Chan}
    (hrest : Ad5781.AtRest (s.chan c).spi) : OwnFrames s inp sync c := by
  have hcourse : ∀ t, Course s inp sync c t := course_trace h hrest
  constructor
  · intro t f hsamp
    have hsamp' := sampled_eq h sync c t
    rcases hcourse t with hq | ⟨f', a, hfl, u, hut, hload, hno, hnos⟩
    · have hnone := (hq.step DacChan.spiClkDiv (spiIn s inp c t)).1
      exact absurd ((hsamp'.trans hnone).symm.trans hsamp) (by simp)
    · rcases hfl.latch ((trace DacCtrlr.step s inp (t + 1)).chan c).spi with hl | hl
      · rw [hsamp', hl] at hsamp
        cases hsamp
      · obtain rfl : f' = f := Option.some.inj (by rw [← hl, ← hsamp', hsamp])
        refine ⟨u, hut, hload, ?_, hnos⟩
        intro v hv hvt
        rcases Nat.lt_or_eq_of_le hvt with hlt | rfl
        · exact hno v hv hlt
        · exact hfl.not_loaded (spiIn s inp c v)
  · intro u f hload hnoreset
    -- the frame has been on its way for `k` clocks
    have hfly : ∀ k ≤ 256, Ad5781.InFlight f ((trace DacCtrlr.step s inp (u + 1 + k)).chan c).spi
        (receiver s inp sync c (u + 1 + k)).bits k := by
      intro k
      induction k with
      | zero =>
        intro _
        rcases hcourse u with hq | ⟨f', a, hfl, -⟩
        · obtain ⟨-, ⟨hnone, -⟩ | ⟨f', hload', hfl⟩⟩ :=
            hq.step DacChan.spiClkDiv (spiIn s inp c u)
          · exact absurd (hnone.symm.trans hload) (by simp)
          · obtain rfl : f' = f := Option.some.inj (hload'.symm.trans hload)
            rw [Nat.add_zero, bits_succ h sync c u]
            exact hfl
        · exact absurd ((hfl.not_loaded (spiIn s inp c u)).symm.trans hload) (by simp)
      | succ k ih =>
        intro hk
        rw [← Nat.add_assoc, bits_succ h sync c (u + 1 + k)]
        exact ((ih (by omega)).succ (i := spiIn s inp c (u + 1 + k)) (by omega)
          (hnoreset (u + 1 + k) (by omega) (by omega))).2
    have hlast := (hfly 256 le_rfl).done (spiIn s inp c (u + 1 + 256))
    rw [show u + 257 = u + 1 + 256 by omega, sampled_eq h sync c]
    exact hlast.1

/-- The four engines drive the same `n_sync` and the same clock, so every DAC gets the frames of its
own channel. -/
theorem lockstep (s : System ram cordic) (hs : ∀ c c', s.chan c = s.chan c') (inp : ℕ → In)
    (hreset : ∀ t c c', dacReset (inp t) c = dacReset (inp t) c') :
    (∀ t c c',
      ((trace step s inp t).chan c).spi.n_sync = ((trace step s inp t).chan c').spi.n_sync ∧
      ((trace step s inp t).chan c).spi.sclk = ((trace step s inp t).chan c').spi.sclk) ∧
    (Ad5781.AtRest (s.chan .ps1).spi →
      ∀ c, OwnFrames s inp .ps1 c ∧ OwnFrames s inp .ps2 c) := by
  have halign : Aligned s := by
    intro c c'
    rw [hs c c']
    exact ⟨⟨rfl, rfl, rfl⟩, ⟨rfl, rfl, rfl, rfl, rfl, rfl, rfl⟩⟩
  have htrace := aligned_trace halign hreset
  refine ⟨?_, ?_⟩
  · intro t c c'
    obtain ⟨-, ht⟩ := htrace t c c'
    exact ⟨ht.n_sync, ht.sclk⟩
  · intro hrest c
    have hrest' : Ad5781.AtRest (s.chan c).spi := by
      rw [hs c .ps1]
      exact hrest
    exact ⟨ownFrames htrace hrest', ownFrames htrace hrest'⟩

/-- A tick at clock 0, and a setpoint of its own in each channel. -/
def oneTick (t : ℕ) : In where
  reset := false
  tenkhz_trig := t == 0
  psIo :=
    { regs :=
        { glob := fun _ => 0
          chan := fun c r =>
            if r = .dac_setpt then BitVec.ofNat r.width (PsIo.polarityBit c) else 0 }
      rampdata_swacc := fun _ => false
      runramp_swacc := fun _ => false
      inj_trig := false }
  fofb_setpt := fun _ => 0

/-- The first frame of channel 4 reaches its DAC through the `n_sync` of channel 2. -/
theorem ps4_first_frame : sampled configured oneTick .ps2 .ps4 (12 + 257) = some 0x400004 := by
  have hreset : ∀ t c, dacReset (oneTick t) c = false := fun _ _ => by simp [dacReset, oneTick]
  have hframes := (lockstep configured (fun _ _ => rfl) oneTick
    fun t c c' => (hreset t c).trans (hreset t c').symm).2 ⟨rfl, rfl, rfl⟩ .ps4
  exact hframes.2.all 12 _ (by decide +kernel) fun v _ _ => hreset v .ps4

end DacCtrlr

end Zpsc
