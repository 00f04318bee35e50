import Zpsc.Dac.Proofs.SpiProofs

/-!
# Unipolar channels never get a negative code

The gain and offset stage drives its output through an unlimited value for one clock of each pass.
The proof follows the time since the last tick: a pass of the gain stage takes twelve clocks
(`GainPhase`), the unlimited value has left the pipeline before that (`Limited`), and the SPI engine
works only after a pass and is done long before the next tick (`SpiPhase`).
-/

namespace Zpsc

open Bits Clocked

/-! ## The gain and offset stage -/

namespace GainOffset

/-- The state of the gain stage `a` clocks after the tick that started its last pass. -/
def GainPhase (a : ℕ) (g : Stage) : Prop :=
  g.state = .IDLE ∧ (g.done = true ∧ a = 11 ∨ g.done = false ∧ 12 ≤ a) ∨
  g.done = false ∧
    (g.state = .APPLY_OFFSETS ∧ a = 0 ∨ g.state = .APPLY_GAINS ∧ a = 1 ∨
      g.state = .SCALE ∧ g.multdlycnt = 0 ∧ a = 2 ∨
      g.state = .CHECKFORSAT ∧ g.multdlycnt = 0 ∧ a = 3 ∨
      g.state = .MULT_DLY ∧ g.multdlycnt.toNat ≤ 6 ∧ a = 4 + g.multdlycnt.toNat)

/-- One clock of the gain stage, when a tick comes only after a pass is over. -/
theorem step_gainPhase {a : ℕ} {g : Stage} (h : GainPhase a g) (tick numbits : Bool)
    (ht : tick = true → 12 ≤ a) (raw : BitVec 20) (c : DacCntrl) :
    GainPhase (if tick then 0 else a + 1) (step g false tick numbits raw c) := by
  rcases h with ⟨hs, hd⟩ | ⟨hd, ⟨hs, ha⟩ | ⟨hs, ha⟩ | ⟨hs, hm, ha⟩ | ⟨hs, hm, ha⟩ | ⟨hs, hm, ha⟩⟩
  · cases tick
    · rcases hd with ⟨-, ha⟩ | ⟨-, ha⟩
      · simp [step, hs, GainPhase, ha]
      · simp [step, hs, GainPhase]
        omega
    · simp [step, hs, GainPhase]
  all_goals
    have hn : tick = false := by
      by_contra hne
      have := ht (by simpa using hne)
      omega
    subst hn
  · simp [step, hs, GainPhase, hd, ha]
  · simp [step, hs, GainPhase, hd, ha]
  · simp [step, hs, GainPhase, hd, hm, ha]
  · have hsat : (saturate numbits g).done = g.done ∧
        (saturate numbits g).multdlycnt = g.multdlycnt := by
      unfold saturate
      split_ifs <;> exact ⟨rfl, rfl⟩
    simp [step, hs, GainPhase, hsat, hd, hm, ha]
  · by_cases h6 : g.multdlycnt = 6
    · simp [step, hs, GainPhase, h6, ha]
    · have hne : g.multdlycnt.toNat ≠ 6 := fun e => h6 (BitVec.eq_of_toNat_eq e)
      have hsucc : (g.multdlycnt + 1).toNat = g.multdlycnt.toNat + 1 := by
        rw [BitVec.toNat_add]
        exact Nat.mod_eq_of_lt (by simp; omega)
      have hstep :
          step g false false numbits raw c = { g with multdlycnt := g.multdlycnt + 1 } := by
        simp only [step, hs, Bool.false_eq_true, if_false, if_neg h6]
      rw [hstep]
      refine Or.inr ⟨hd, Or.inr (Or.inr (Or.inr (Or.inr ⟨hs, ?_⟩)))⟩
      simp only [hsucc, Bool.false_eq_true, if_false]
      omega

/-- The output of the gain stage is inside the range of the resolution. -/
def Limited (numbits : Bool) (x : BitVec 20) : Prop :=
  numbits = false → -131072 ≤ x.toInt ∧ x.toInt ≤ 131071

theorem limited_saturate (numbits : Bool) (g : Stage) :
    Limited numbits (saturate numbits g).dac_setpt := by
  rintro rfl
  simp only [saturate, Bool.false_eq_true, if_false]
  split_ifs with h1 h2
  · have h : (BitVec.ofInt 20 131071).toInt = 131071 := by decide
    simp only [h]
    omega
  · have h : (BitVec.ofInt 20 (-131072)).toInt = -131072 := by decide
    simp only [h]
    omega
  · exact ⟨by omega, by omega⟩

/-- From the fifth clock after a tick on, the output of the stage is limited. -/
theorem step_limited {a : ℕ} {g : Stage} (h : GainPhase a g) (h3 : 3 ≤ a) {numbits : Bool}
    (hl : 4 ≤ a → Limited numbits g.dac_setpt) (reset tick : Bool) (raw : BitVec 20)
    (c : DacCntrl) (hr : reset = false) :
    Limited numbits (step g reset tick numbits raw c).dac_setpt := by
  subst hr
  rcases h with ⟨hs, hd⟩ | ⟨hd, ⟨hs, ha⟩ | ⟨hs, ha⟩ | ⟨hs, hm, ha⟩ | ⟨hs, hm, ha⟩ | ⟨hs, hm, ha⟩⟩
  · have hset : (step g false tick numbits raw c).dac_setpt = g.dac_setpt := by
      cases tick <;> simp [step, hs]
    rw [hset]
    exact hl (by omega)
  · omega
  · omega
  · omega
  · have hset : (step g false tick numbits raw c).dac_setpt = (saturate numbits g).dac_setpt := by
      simp [step, hs]
    rw [hset]
    exact limited_saturate numbits g
  · have hset : (step g false tick numbits raw c).dac_setpt = g.dac_setpt := by
      simp only [step, hs]
      split_ifs <;> rfl
    rw [hset]
    exact hl (by omega)

end GainOffset

/-! ## The SPI engine -/

namespace Ad5781

theorem step_reset (s : Spi) {i : In} (hr : i.reset = true) :
    (step 5 s i).present_state = .IDLE ∧ Counts 5 (step 5 s i) := by
  simp [step, hr, Counts]

/-- From a start to the end of both frames it is 544 clocks. -/
theorem step_idle {s : Spi} {i : In} (hr : i.reset = false) (hs : s.present_state = .IDLE) :
    left 5 (step 5 s i) ≤ 544 ∧ (i.start = false → (step 5 s i).present_state = .IDLE) := by
  have hstep := control_step 5 s hr
  show left 5 (control 5 s i) ≤ 544 ∧ (_ → (control 5 s i).present_state = .IDLE)
  generalize control 5 s i = s' at hstep ⊢
  cases hstep with
  | idle hs => exact ⟨(left_idle (D := 5) hs).trans_le (Nat.zero_le _), fun _ => hs⟩
  | startReset _ hi | startClear _ hi =>
    refine ⟨?_, fun hno => by cases hno.symm.trans hi⟩
    simp only [left, leftAfter, frameTime]
    split <;> omega
  | startCtrl _ hi => exact ⟨le_rfl, fun hno => by cases hno.symm.trans hi⟩
  | ctrl h | setpoint h | syncEnd h | sync h | firstEnd h | first h | frameEnd h | highEnd h
  | high h | lowEnd h | low h | doneFirst h | doneBoth h | done h | waitEnd h | wait h =>
    cases h.symm.trans hs

/-- The state of the engine `a` clocks after the last tick: idle, or on a transmission that started
after the pass of the gain stage. -/
def SpiPhase (a : ℕ) (s : Spi) : Prop :=
  Counts 5 s ∧ (s.present_state ≠ .IDLE → 12 ≤ a ∧ a + left 5 s ≤ 600)

/-- One clock of the engine; `start` comes twelve clocks after a tick, and the next tick late. -/
theorem step_spiPhase {a : ℕ} {s : Spi} (h : SpiPhase a s) (i : In) (tick : Bool)
    (hstart : i.start = true → a = 11) (ht : tick = true → 1999 ≤ a) :
    SpiPhase (if tick then 0 else a + 1) (step 5 s i) := by
  obtain ⟨hc, hrun⟩ := h
  cases hr : i.reset
  · by_cases hs : s.present_state = .IDLE
    · obtain ⟨h2, h3⟩ := step_idle hr hs
      refine ⟨hc.step hr, ?_⟩
      intro hne
      have hst : i.start = true := by
        by_contra hst
        exact hne (h3 (by simpa using hst))
      have ha := hstart hst
      have htick : tick = false := by
        by_contra htick
        have := ht (by simpa using htick)
        omega
      simp only [htick, Bool.false_eq_true, if_false]
      omega
    · have h2 : left 5 (step 5 s i) + 1 = left 5 s :=
        left_step ⟨by decide, by decide⟩ hc hr hs
      have ha := hrun hs
      have htick : tick = false := by
        by_contra htick
        have := ht (by simpa using htick)
        omega
      refine ⟨hc.step hr, ?_⟩
      intro _
      simp only [htick, Bool.false_eq_true, if_false]
      omega
  · obtain ⟨h1, h2⟩ := step_reset s hr
    exact ⟨h2, fun hne => absurd h1 hne⟩

theorem step_data_in_reg (n : ℕ) (s : Spi) (i : In) :
    (step n s i).data_in_reg = if i.reset then 0 else i.dac_data := by
  cases hr : i.reset
  · cases hs : s.present_state <;> simp [step, stepData, hr, hs] <;> split_ifs <;> rfl
  · simp [step, stepData, hr]

theorem shift_reg_of_loaded {s : Spi} {i : In} {f : BitVec 24} (h : loaded s i = some f) (n : ℕ) :
    (step n s i).shift_reg = f := by
  cases hr : i.reset
  · cases hs : s.present_state
    case IDLE =>
      cases hstart : i.start
      · simp [loaded, hr, hs, hstart] at h
      · by_cases h0 : s.init_count = 0
        · simp_all [loaded, step, stepData]
        · by_cases h1 : s.init_count = 1
          · simp_all [loaded, step, stepData]
          · simp_all [loaded]
    all_goals simp_all [loaded, step, stepData]
  · simp [loaded, hr] at h

end Ad5781

/-! ## The channel -/

namespace DacChan

variable {ram : Dpram} {cordic : Cordic}

/-- The channel `a` clocks after the last tick. The unlimited value of the gain stage moves down the
pipeline one register per clock. -/
structure ChanPhase (numbits : Bool) (a : ℕ) (s : DacChan ram cordic) : Prop where
  gain : GainOffset.GainPhase a s.gain
  limited : 4 ≤ a → a ≤ 600 → GainOffset.Limited numbits s.gain.dac_setpt
  wlim : 5 ≤ a → a ≤ 600 →
    GainOffset.Limited numbits s.dac_setpt_wlim ∧ 0 ≤ s.dac_setpt_wlim.toInt
  data : 6 ≤ a → a ≤ 600 → s.dac_data.msb = false
  data_in : 7 ≤ a → a ≤ 600 → s.spi.data_in_reg.msb = false
  spi : Ad5781.SpiPhase a s.spi

theorem msb_of_nonneg {w : ℕ} {x : BitVec w} (h : 0 ≤ x.toInt) : x.msb = false := by
  rw [BitVec.msb_eq_toInt]
  exact decide_eq_false (by omega)

theorem msb_slice18 {x : BitVec 20} (h0 : 0 ≤ x.toInt) (h : x.toInt ≤ 131071) :
    (x.extractLsb' 0 18 ++ 0#2).msb = false := by
  have hmsb := msb_of_nonneg h0
  have hnat : x.toNat < 2 ^ 17 := by
    rw [BitVec.toInt_eq_toNat_of_msb hmsb] at h
    omega
  have hbit : x.getLsbD 17 = false := by
    rw [BitVec.getLsbD, Nat.testBit_lt_two_pow hnat]
  rw [BitVec.msb_append, if_neg (by decide), BitVec.msb_eq_getLsbD_last,
    BitVec.getLsbD_extractLsb']
  simpa using hbit

theorem step_chanPhase {numbits : Bool} {a : ℕ} {s : DacChan ram cordic}
    (h : ChanPhase numbits a s) {i : In} (hr : i.reset = false)
    (hpol : i.dig_cntrl.polarity = true) (hn : i.dac_numbits_sel = numbits)
    (ht : i.tenkhz_trig = true → 1999 ≤ a) :
    ChanPhase numbits (if i.tenkhz_trig then 0 else a + 1) (step s i) := by
  have hstart : (s.spiIn i).start = true → a = 11 := by
    intro hd
    have hd' : s.gain.done = true := hd
    rcases h.gain with ⟨-, ⟨-, ha⟩ | ⟨hf, -⟩⟩ | ⟨hf, -⟩
    · exact ha
    · rw [hf] at hd'
      exact absurd hd' (by decide)
    · rw [hf] at hd'
      exact absurd hd' (by decide)
  have hgain := GainOffset.step_gainPhase h.gain i.tenkhz_trig numbits
    (fun htick => by have := ht htick; omega) s.dac_setpt_raw i.dac_cntrl
  have hspi := Ad5781.step_spiPhase h.spi (s.spiIn i) i.tenkhz_trig hstart ht
  cases htick : i.tenkhz_trig
  · simp only [htick, Bool.false_eq_true, if_false] at hgain hspi ⊢
    refine ⟨?_, ?_, ?_, ?_, ?_, hspi⟩
    · simpa only [step, hr, htick, hn] using hgain
    · intro h4 h6
      have hl := GainOffset.step_limited h.gain (by omega)
        (fun ha => h.limited ha (by omega)) i.reset i.tenkhz_trig s.dac_setpt_raw i.dac_cntrl hr
      simpa only [step, hn] using hl
    · intro h4 h6
      have hl := h.limited (by omega) (by omega)
      simp only [step, hpol, true_and]
      split
      · exact ⟨fun _ => by decide, by decide⟩
      · next hneg => exact ⟨hl, by omega⟩
    · intro h4 h6
      obtain ⟨hl, h0⟩ := h.wlim (by omega) (by omega)
      simp only [step, hn]
      cases numbits
      · exact msb_slice18 h0 (hl rfl).2
      · exact msb_of_nonneg h0
    · intro h4 h6
      have hd := h.data (by omega) (by omega)
      have hdata : (step s i).spi.data_in_reg = if i.dac_cntrl.reset then 0 else s.dac_data :=
        Ad5781.step_data_in_reg spiClkDiv s.spi (s.spiIn i)
      rw [hdata]
      split
      · rfl
      · exact hd
  · simp only [htick, if_true] at hgain hspi ⊢
    refine ⟨?_, fun h4 => ?_, fun h4 => ?_, fun h4 => ?_, fun h4 => ?_, hspi⟩
    · simpa only [step, hr, htick, hn] using hgain
    all_goals omega

/-- One clock of a channel in reset, long after the last pass. -/
theorem step_chanPhase_reset {numbits : Bool} {a : ℕ} {s : DacChan ram cordic}
    (h : ChanPhase numbits a s) (ha : 2000 ≤ a) {i : In} (hr : i.reset = true) :
    ChanPhase numbits (a + 1) (step s i) := by
  have hgain : s.gain.state = .IDLE ∧ s.gain.done = false := by
    rcases h.gain with ⟨hs, ⟨-, ha'⟩ | ⟨hf, -⟩⟩ | ⟨-, h'⟩
    · omega
    · exact ⟨hs, hf⟩
    · omega
  have hspi := Ad5781.step_spiPhase h.spi (s.spiIn i) false
    (fun hd => by
      have hd' : s.gain.done = true := hd
      rw [hgain.2] at hd'
      exact absurd hd' (by decide)) (by simp)
  simp only [Bool.false_eq_true, if_false] at hspi
  refine ⟨Or.inl ⟨?_, Or.inr ⟨?_, by omega⟩⟩, fun _ h6 => ?_, fun _ h6 => ?_, fun _ h6 => ?_,
    fun _ h6 => ?_, hspi⟩
  · simp [step, GainOffset.step, hr, hgain.1]
  · simp [step, GainOffset.step, hr]
  all_goals omega

/-- The channel at power-up: gain stage and SPI engine idle. The data registers may hold
anything. -/
structure PowerUp (s : DacChan ram cordic) : Prop where
  gain : s.gain.state = .IDLE ∧ s.gain.done = false
  spi : s.spi.present_state = .IDLE ∧ s.spi.clk_count = 0 ∧ s.spi.bit_count = 0

/-- A unipolar channel: polarity 1 and a constant resolution, 10 kHz ticks at least 2000 clocks
apart, and a reset only at the start. -/
structure Unipolar (numbits : Bool) (inp : ℕ → In) : Prop where
  polarity : ∀ t, (inp t).dig_cntrl.polarity = true
  numbits_sel : ∀ t, (inp t).dac_numbits_sel = numbits
  ticks : TicksApart 2000 fun t => (inp t).tenkhz_trig
  reset : ∀ t, (inp (t + 1)).reset = true → (inp t).reset = true

theorem reset_before {numbits : Bool} {inp : ℕ → In} (h : Unipolar numbits inp) {t u : ℕ}
    (hu : u ≤ t) (ht : (inp t).reset = true) : (inp u).reset = true := by
  induction t with
  | zero =>
    rw [show u = 0 by omega]
    exact ht
  | succ t ih =>
    by_cases hut : u = t + 1
    · rw [hut]
      exact ht
    · exact ih (by omega) (h.reset t ht)

/-- The ticks that reach the gain stage: those out of reset. -/
def accepted (inp : ℕ → In) (t : ℕ) : Bool := (inp t).tenkhz_trig && !(inp t).reset

theorem accepted_apart {numbits : Bool} {inp : ℕ → In} (h : Unipolar numbits inp) :
    TicksApart 2000 (accepted inp) := by
  intro t t' htt ht ht'
  simp only [accepted, Bool.and_eq_true] at ht ht'
  exact h.ticks t t' htt ht.1 ht'.1

/-- In every run of a unipolar channel from power-up, each clock finds the channel in the phase
given by the time since the last tick. -/
theorem chanPhase_trace {numbits : Bool} {inp : ℕ → In} (h : Unipolar numbits inp)
    {s : DacChan ram cordic} (hs : PowerUp s) (t : ℕ) :
    ChanPhase numbits (sinceTick 2000 (accepted inp) t) (trace step s inp t) := by
  induction t with
  | zero =>
    obtain ⟨⟨hg, hd⟩, hp, hc, hb⟩ := hs
    refine ⟨Or.inl ⟨hg, Or.inr ⟨hd, by simp [sinceTick]⟩⟩, fun _ h6 => ?_, fun _ h6 => ?_,
      fun _ h6 => ?_, fun _ h6 => ?_, ?_, fun hne => absurd hp hne⟩
    case refine_5 => simp only [Ad5781.Counts, trace_zero, hp]; exact ⟨hc, hb⟩
    all_goals simp [sinceTick] at h6
  | succ t ih =>
    rw [trace_succ, sinceTick]
    cases hr : (inp t).reset
    · have hacc : accepted inp t = (inp t).tenkhz_trig := by simp [accepted, hr]
      rw [hacc]
      refine step_chanPhase ih hr (h.polarity t) (h.numbits_sel t) ?_
      intro htick
      have := le_sinceTick (accepted_apart h) (hacc.trans htick)
      omega
    · have hacc : accepted inp t = false := by simp [accepted, hr]
      rw [hacc]
      refine step_chanPhase_reset ih (le_sinceTick_of_none ?_) hr
      intro u hu
      simp [accepted, reset_before h hu.le hr]

/-! ## Frames -/

def frameAddr (f : BitVec 24) : BitVec 3 := f.extractLsb' 20 3

/-- The two's-complement code of a frame for the DAC register: 20 bits, or the upper 18 of them. -/
def frameCode (numbits : Bool) (f : BitVec 24) : ℤ :=
  if numbits then (f.extractLsb' 0 20).toInt else (f.extractLsb' 2 18).toInt

theorem frameAddr_ctrlFrame (s : Ad5781.Spi) : frameAddr (Ad5781.ctrlFrame s) = 0b010#3 := by
  cases h1 : s.sdo_dis_reg <;> cases h2 : s.bin2sc_reg <;> cases h3 : s.dac_tri_reg <;>
    cases h4 : s.op_gnd_reg <;> cases h5 : s.rbuf_reg <;>
    simp [frameAddr, Ad5781.ctrlFrame, h1, h2, h3, h4, h5]

/-- Only `SEND_SETPOINT` loads a frame for the DAC register. -/
theorem state_of_loaded {s : Ad5781.Spi} {i : Ad5781.In} {f : BitVec 24}
    (h : Ad5781.loaded s i = some f) (ha : frameAddr f = 0b001#3) :
    s.present_state = .SEND_SETPOINT ∧ f = Ad5781.setpointFrame s := by
  cases hs : s.present_state
  case SEND_SETPOINT =>
    simp only [Ad5781.loaded, hs] at h
    split at h
    · exact absurd h (by simp)
    · exact ⟨rfl, (Option.some.inj h).symm⟩
  case SEND_CTRL_REG =>
    simp only [Ad5781.loaded, hs] at h
    split at h
    · exact absurd h (by simp)
    · rw [← Option.some.inj h, frameAddr_ctrlFrame] at ha
      exact absurd ha (by decide)
  case IDLE =>
    simp only [Ad5781.loaded, hs] at h
    split_ifs at h
    · rw [← Option.some.inj h] at ha
      exact absurd ha (by decide)
    · rw [← Option.some.inj h] at ha
      exact absurd ha (by decide)
  all_goals simp [Ad5781.loaded, hs] at h

theorem frameCode_setpointFrame {s : Ad5781.Spi} (h : s.data_in_reg.msb = false)
    (numbits : Bool) : 0 ≤ frameCode numbits (Ad5781.setpointFrame s) := by
  have hbit : (Ad5781.setpointFrame s).getLsbD 19 = false := by
    rw [BitVec.msb_eq_getLsbD_last] at h
    rw [Ad5781.setpointFrame, BitVec.getLsbD_append]
    simpa using h
  have hnonneg : ∀ {w : ℕ} (x : BitVec w), x.msb = false → 0 ≤ x.toInt := by
    intro w x hx
    rw [BitVec.toInt_eq_toNat_of_msb hx]
    omega
  unfold frameCode
  split
  · refine hnonneg _ ?_
    rw [BitVec.msb_eq_getLsbD_last, BitVec.getLsbD_extractLsb']
    simpa using hbit
  · refine hnonneg _ ?_
    rw [BitVec.msb_eq_getLsbD_last, BitVec.getLsbD_extractLsb']
    simpa using hbit

/-- Unipolar output safety: no frame for the DAC register that the SPI engine of a unipolar channel
loads, at any clock of any run from power-up, carries a negative code. -/
theorem unipolar_code_nonneg {numbits : Bool} {inp : ℕ → In} (h : Unipolar numbits inp)
    {s : DacChan ram cordic} (hs : PowerUp s) (t : ℕ) {f : BitVec 24}
    (hf : Ad5781.loaded (trace step s inp t).spi ((trace step s inp t).spiIn (inp t)) = some f)
    (ha : frameAddr f = 0b001#3) :
    (trace step s inp (t + 1)).spi.shift_reg = f ∧ 0 ≤ frameCode numbits f := by
  refine ⟨Ad5781.shift_reg_of_loaded hf spiClkDiv, ?_⟩
  obtain ⟨hstate, rfl⟩ := state_of_loaded hf ha
  have hphase := chanPhase_trace h hs t
  obtain ⟨h12, h600⟩ := hphase.spi.2 (by rw [hstate]; decide)
  exact frameCode_setpointFrame (hphase.data_in (by omega) (by omega)) numbits

/-- An 18-bit unipolar channel in jump mode with unity gain and a setpoint above its range, with one
tick at clock 3. -/
def jumpInputs (t : ℕ) : In where
  reset := false
  tenkhz_trig := decide (t = 3)
  dig_cntrl := ⟨false, false, true, false, false, false, false⟩
  fofb_dac_setpt := 0
  dac_numbits_sel := false
  smoothramp_type := false
  dac_cntrl :=
    { setpoint := 0x30000, setpoint_last := 0, setpoint_changed := false, ramprun := false
      ramplen := 0, gain := 0x100000, offset := 0, smooth_phaseinc := 0, linear_len := 0
      curved_len := 0, dy_hi := 0, dy_lo := 0, dy_q16_48 := 0, dy_per_pt_hi := 0
      dy_per_pt_lo := 0, dy_per_pt_q16_48 := 0, cntrl := 0, dpram_addr := 0, dpram_data := 0
      dpram_we := false, reset := false, mode := 0b11 }

theorem jumpInputs_unipolar : Unipolar false jumpInputs where
  polarity := fun _ => rfl
  numbits_sel := fun _ => rfl
  ticks := by
    intro t t' htt ht ht'
    simp only [jumpInputs, decide_eq_true_eq] at ht ht'
    omega
  reset := fun _ h => h

/-- The first setpoint frame of that channel is loaded at clock 282 and carries the 18-bit limit. -/
theorem jump_code_nonneg :
    (trace step (configured () () : DacChan .blank .blank) jumpInputs 283).spi.shift_reg =
      0x17FFFC#24 ∧ 0 ≤ frameCode false 0x17FFFC#24 :=
  unipolar_code_nonneg jumpInputs_unipolar
    (s := (configured () () : DacChan .blank .blank))
    ⟨⟨rfl, rfl⟩, rfl, rfl, rfl⟩ 282 (by decide +kernel) (by decide)

end DacChan

end Zpsc
