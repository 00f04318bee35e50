import Zpsc.Bits.Serial
import Zpsc.Clocked.Run
import Zpsc.Clocked.Sampled

/-!
# The monitor ADC (`adc_ads8568_intf.vhd`)

A conversion is a pulse of `cnv`, a wait, and 128 bits from `sdi`, one at each falling edge of
`sclk`. Three counters serve all states, and each state takes them as the one before has left them.
-/

namespace Zpsc.Ads8568

open Bits Clocked

/-! ## The source -/

inductive State where
  | IDLE | SET_CNV | WAIT_FOR_NOT_BUSY | WAIT_FOR_MSB_VALID | CLOCK_MSB | SCLK_HI | SCLK_LO | DONE
  deriving DecidableEq, Repr

structure In where
  reset : Bool
  start : Bool
  sdi : Bool
  deriving DecidableEq, Repr

/-- `DATA_BITS` of the three ADCs. -/
def DATA_BITS : ℕ := 128

structure Regs where
  present_state : State
  shift_reg : BitVec 128
  /-- The clocks in `SET_CNV` and in the two states that wait. -/
  cnv_count : ℕ
  /-- The clocks of the half period of `sclk`. -/
  clk_count : ℕ
  bit_count : ℕ
  cnv : Bool
  /-- The frame select of the ADC, low while it is read. -/
  n_fs : Bool
  sclk : Bool
  /-- The eight words of the last conversion. -/
  data_out : BitVec 128
  data_rdy : Bool
  deriving DecidableEq, Repr

def CNV_PULSE : ℕ := 12

def CNV_WIDTH : ℕ := 400

def WAIT_MSB : ℕ := 6

/-- A count plus 1, in the 9 bits that a range up to 500 has. -/
def next (count : ℕ) : ℕ := (count + 1) % 512

/-- One rising edge of `clk`. -/
def step (SPI_CLK_DIV : ℕ) (s : Regs) (i : In) : Regs :=
  if i.reset then
    { s with
      cnv_count := 0, clk_count := 0, bit_count := 0, shift_reg := 0, data_out := 0
      data_rdy := false, cnv := false, present_state := .IDLE }
  else match s.present_state with
  | .IDLE =>
    { s with
      present_state := if i.start then .SET_CNV else .IDLE
      n_fs := true, sclk := true, data_rdy := false }
  | .SET_CNV =>
    if s.cnv_count = CNV_PULSE then
      { s with cnv := false, cnv_count := 0, present_state := .WAIT_FOR_NOT_BUSY }
    else { s with cnv := true, cnv_count := next s.cnv_count }
  | .WAIT_FOR_NOT_BUSY =>
    if s.cnv_count = CNV_WIDTH then
      { s with cnv_count := 0, n_fs := false, present_state := .WAIT_FOR_MSB_VALID }
    else { s with cnv_count := next s.cnv_count }
  | .WAIT_FOR_MSB_VALID =>
    if s.cnv_count = WAIT_MSB then
      { s with
        sclk := false, shift_reg := shiftIn s.shift_reg i.sdi, present_state := .CLOCK_MSB }
    else { s with cnv_count := next s.cnv_count }
  | .CLOCK_MSB =>
    if s.clk_count + 1 = SPI_CLK_DIV then
      { s with clk_count := 0, sclk := true, present_state := .SCLK_HI }
    else { s with clk_count := next s.clk_count, sclk := false }
  | .SCLK_HI =>
    if s.clk_count + 1 = SPI_CLK_DIV then
      { s with
        sclk := false, clk_count := 0, bit_count := next s.bit_count
        shift_reg := shiftIn s.shift_reg i.sdi, present_state := .SCLK_LO }
    else { s with clk_count := next s.clk_count, sclk := true }
  | .SCLK_LO =>
    if s.bit_count = DATA_BITS - 1 then { s with bit_count := 0, present_state := .DONE }
    else if s.clk_count + 1 = SPI_CLK_DIV then
      { s with clk_count := 0, sclk := true, present_state := .SCLK_HI }
    else { s with clk_count := next s.clk_count, sclk := false }
  | .DONE => { s with data_out := s.shift_reg, data_rdy := true, present_state := .IDLE }

section Run

variable (SPI_CLK_DIV : ℕ) (s : Regs) (inp : ℕ → In)

/-- The registers before clock `t`, from the registers `s`. -/
def regs (t : ℕ) : Regs := trace (step SPI_CLK_DIV) s inp t

/-! ## Conversions -/

/-- A reset at clock 0 and none later. -/
def ResetFirst : Prop := (inp 0).reset = true ∧ ∀ t, 0 < t → (inp t).reset = false

/-- A conversion starts at clock `c`, and clock `e` is its last one. -/
structure Conversion (c e : ℕ) : Prop where
  pos : 0 < c
  lt : c < e
  idle : (regs SPI_CLK_DIV s inp c).present_state = .IDLE
  busy : ∀ v, c < v → v ≤ e → (regs SPI_CLK_DIV s inp v).present_state ≠ .IDLE
  /-- The state machine is idle again one clock after `e`. -/
  done : (regs SPI_CLK_DIV s inp (e + 1)).present_state = .IDLE

/-- The first conversion after the reset. -/
structure First (c e : ℕ) : Prop extends Conversion SPI_CLK_DIV s inp c e where
  /-- There was no conversion before. -/
  before : ∀ v, 0 < v → v < c → (regs SPI_CLK_DIV s inp v).present_state = .IDLE

/-- What the ADC sees. -/
structure Out where
  cnv : Bool
  n_fs : Bool
  sclk : Bool
  deriving DecidableEq, Repr

def out (t : ℕ) : Out :=
  let r := regs SPI_CLK_DIV s inp t
  ⟨r.cnv, r.n_fs, r.sclk⟩

/-- The outputs from the clock after the start to the clock after the end. -/
def waveform (c e : ℕ) : List Out := sampled (fun _ => true) (out SPI_CLK_DIV s inp) (c + 1) (e + 2)

/-- `sclk` falls at clock `t`. -/
def sclkFalls (t : ℕ) : Bool :=
  (regs SPI_CLK_DIV s inp t).sclk && !(regs SPI_CLK_DIV s inp (t + 1)).sclk

/-- `sdi` at the falling edges of `sclk` from clock `a` on and before clock `b`. -/
def sdiBits (a b : ℕ) : List Bool :=
  sampled (sclkFalls SPI_CLK_DIV s inp) (fun t => (inp t).sdi) a b

/-- All conversions have the waveforms of the first one, `cnv` is high for `CNV_PULSE` clocks, and
`data_out` has the bits sampled in them. -/
def AllAlike : Prop :=
  ∀ c e, Conversion SPI_CLK_DIV s inp c e →
    (∀ c₀ e₀, First SPI_CLK_DIV s inp c₀ e₀ →
      waveform SPI_CLK_DIV s inp c e = waveform SPI_CLK_DIV s inp c₀ e₀) ∧
    (waveform SPI_CLK_DIV s inp c e).countP Out.cnv = CNV_PULSE ∧
    msbFirst (regs SPI_CLK_DIV s inp (e + 1)).data_out = sdiBits SPI_CLK_DIV s inp c (e + 1)

/-- The number of clocks from a start that finds the interface idle after a reset to the end of its
conversion. -/
def firstTime (SPI_CLK_DIV : ℕ) : ℕ := 254 * SPI_CLK_DIV + 424

/-- `clk_count` can count up to `SPI_CLK_DIV - 1`. -/
def DivOk (SPI_CLK_DIV : ℕ) : Prop := 0 < SPI_CLK_DIV ∧ SPI_CLK_DIV ≤ 512

/-- A second conversion is started: there are two starts as far apart as the first conversion takes,
and this comes to an end. -/
def StartedTwice : Prop :=
  DivOk SPI_CLK_DIV ∧ ∃ f t, 0 < f ∧ f + firstTime SPI_CLK_DIV ≤ t ∧ (inp f).start = true ∧
    (inp t).start = true

end Run

end Zpsc.Ads8568
