import Zpsc.Dac.Ramps

/-!
# A DAC channel (`dac_chan.vhd`)

The setpoint of the selected generator goes through the gain and offset stage
(`dac_gainoffset.vhd`), the polarity limit and the 18/20 bit selection to the SPI engine of the
AD5781 (`dac_ad5781.vhd`). Every stage is registered and the SPI engine takes its data at its own
time. `DacChan.step` is one rising edge of `clk` of the whole channel.
-/

namespace Zpsc

open Bits

/-! ## `dac_gainoffset` -/

namespace GainOffset

inductive State where
  | IDLE | APPLY_OFFSETS | APPLY_GAINS | SCALE | CHECKFORSAT | MULT_DLY
  deriving DecidableEq, Repr

/-- The registers of `dac_gainoffset`. -/
structure Stage where
  state : State
  /-- The clocks since the check. -/
  multdlycnt : BitVec 4
  /-- The setpoint less its offset. -/
  dac_setpt_oc : BitVec 20
  /-- That times the gain. -/
  dac_setpt_fs : BitVec 44
  /-- The result has been limited. -/
  sat : Bool
  /-- The result. -/
  dac_setpt : BitVec 20
  done : Bool
  deriving DecidableEq

/-- The limits of `CHECKFORSAT`: in 20-bit mode a change of sign is taken for an overflow, in 18-bit
mode the value is compared with the 18-bit range. -/
def saturate (numbits_sel : Bool) (s : Stage) : Stage :=
  if numbits_sel then
    if s.dac_setpt.msb && !s.dac_setpt_oc.msb then
      { s with sat := true, dac_setpt := BitVec.ofInt 20 (2 ^ 19 - 1) }
    else if !s.dac_setpt.msb && s.dac_setpt_oc.msb then
      { s with sat := true, dac_setpt := BitVec.ofInt 20 (-2 ^ 19) }
    else s
  else if 131071 < s.dac_setpt.toInt then
    { s with sat := true, dac_setpt := BitVec.ofInt 20 131071 }
  else if s.dac_setpt.toInt < -131072 then
    { s with sat := true, dac_setpt := BitVec.ofInt 20 (-131072) }
  else s

/-- One rising edge of `clk`. A reset clears `done` and stops the state machine where it is. -/
def step (s : Stage) (reset tenkhz_trig numbits_sel : Bool) (dac_setpt_raw : BitVec 20)
    (c : DacCntrl) : Stage :=
  if reset then { s with done := false }
  else match s.state with
  | .IDLE =>
    let idle := { s with done := false, sat := false }
    if tenkhz_trig then { idle with state := .APPLY_OFFSETS } else idle
  | .APPLY_OFFSETS => { s with dac_setpt_oc := dac_setpt_raw - c.offset, state := .APPLY_GAINS }
  | .APPLY_GAINS =>
    { s with
      dac_setpt_fs := sresize 44 s.dac_setpt_oc * sresize 44 c.gain
      multdlycnt := 0, state := .SCALE }
  | .SCALE => { s with dac_setpt := s.dac_setpt_fs.extractLsb' 20 20, state := .CHECKFORSAT }
  | .CHECKFORSAT => { saturate numbits_sel s with state := .MULT_DLY }
  | .MULT_DLY =>
    if s.multdlycnt = 6 then { s with state := .IDLE, done := true }
    else { s with multdlycnt := s.multdlycnt + 1 }

end GainOffset

/-! ## `dac_ad5781` -/

namespace Ad5781

inductive State where
  | IDLE | SEND_CTRL_REG | SEND_SETPOINT | N_SYNC_ZERO | FIRST_BIT | SCLK_LO | SCLK_HI | DAC_DONE
  | WAIT_SYNC_LOW
  deriving DecidableEq, Repr

/-- The registers of `dac_ad5781`, output registers included. -/
structure Spi where
  present_state : State
  /-- The setpoint of the next frame. -/
  data_in_reg : BitVec 20
  /-- This and the next four are the bits of the control register. -/
  bin2sc_reg : Bool
  rbuf_reg : Bool
  dac_tri_reg : Bool
  sdo_dis_reg : Bool
  op_gnd_reg : Bool
  shift_reg : BitVec 24
  /-- The bits of the frame that are out. -/
  bit_count : ℕ
  /-- The clocks of the half period of `sclk`, or of a wait. -/
  clk_count : ℕ
  /-- The frames so far, up to 2. -/
  init_count : ℕ
  /-- The frame with the setpoint has been loaded. -/
  setpoint_sent : Bool
  n_sync : Bool
  sclk : Bool
  done : Bool
  deriving DecidableEq

def SYNC_WIDTH : ℕ := 10

def BITS : ℕ := 24

/-- The inputs of `dac_ad5781` at one clock edge. -/
structure In where
  reset : Bool
  start : Bool
  dac_data : BitVec 20
  dac_ctrl_bits : BitVec 5

def ctrlFrame (s : Spi) : BitVec 24 :=
  0b0#1 ++ 0b010#3 ++ 0#10 ++ 0#4 ++ BitVec.ofBool s.sdo_dis_reg ++ BitVec.ofBool s.bin2sc_reg ++
    BitVec.ofBool s.dac_tri_reg ++ BitVec.ofBool s.op_gnd_reg ++ BitVec.ofBool s.rbuf_reg ++ 0#1

def setpointFrame (s : Spi) : BitVec 24 := 0b0#1 ++ 0b001#3 ++ s.data_in_reg

/-- The input registers of the engine. -/
def stepData (s : Spi) (i : In) : Spi :=
  if i.reset then { s with data_in_reg := 0 }
  else
    { s with
      data_in_reg := i.dac_data
      bin2sc_reg := i.dac_ctrl_bits.getLsbD 4
      rbuf_reg := i.dac_ctrl_bits.getLsbD 3
      dac_tri_reg := i.dac_ctrl_bits.getLsbD 2
      sdo_dis_reg := i.dac_ctrl_bits.getLsbD 1
      op_gnd_reg := i.dac_ctrl_bits.getLsbD 0 }

/-- `clk_count + 1`, in the 10 bits that a range up to 1000 has. -/
def nextClk (clk_count : ℕ) : ℕ := (clk_count + 1) % 1024

/-- One rising edge of `clk`. -/
def step (SPI_CLK_DIV : ℕ) (s : Spi) (i : In) : Spi :=
  let s' := stepData s i
  if i.reset then
    { s' with
      present_state := .IDLE, init_count := 0, sclk := false, bit_count := 0, clk_count := 0
      setpoint_sent := false, n_sync := true, shift_reg := 0 }
  else match s.present_state with
  | .IDLE =>
    let idle := { s' with done := false }
    if i.start then
      if s.init_count = 0 then
        { idle with n_sync := true, shift_reg := 0x400004, present_state := .N_SYNC_ZERO }
      else if s.init_count = 1 then
        { idle with n_sync := true, shift_reg := 0x400000, present_state := .N_SYNC_ZERO }
      else { idle with n_sync := true, present_state := .SEND_CTRL_REG }
    else idle
  | .SEND_CTRL_REG =>
    { s' with shift_reg := ctrlFrame s, setpoint_sent := false, present_state := .N_SYNC_ZERO }
  | .SEND_SETPOINT =>
    { s' with shift_reg := setpointFrame s, setpoint_sent := true, present_state := .N_SYNC_ZERO }
  | .N_SYNC_ZERO =>
    if s.clk_count = SYNC_WIDTH then
      { s' with n_sync := false, clk_count := 0, sclk := true, present_state := .FIRST_BIT }
    else { s' with n_sync := true, clk_count := nextClk s.clk_count }
  | .FIRST_BIT =>
    if s.clk_count + 1 = SPI_CLK_DIV then
      { s' with
        sclk := false, clk_count := 0, bit_count := s.bit_count + 1, present_state := .SCLK_LO }
    else { s' with sclk := true, clk_count := nextClk s.clk_count }
  | .SCLK_HI =>
    if s.clk_count + 1 = SPI_CLK_DIV then
      if s.bit_count = BITS then
        { s' with
          init_count := if s.init_count = 2 then 2 else s.init_count + 1
          bit_count := 0, clk_count := 0, present_state := .DAC_DONE }
      else
        { s' with
          sclk := false, bit_count := s.bit_count + 1, clk_count := 0, present_state := .SCLK_LO }
    else { s' with sclk := true, clk_count := nextClk s.clk_count }
  | .SCLK_LO =>
    if s.clk_count + 1 = SPI_CLK_DIV then
      { s' with
        sclk := true, clk_count := 0, shift_reg := s.shift_reg.extractLsb' 0 23 ++ 0#1
        present_state := .SCLK_HI }
    else { s' with sclk := false, clk_count := nextClk s.clk_count }
  | .DAC_DONE =>
    if s.clk_count = SYNC_WIDTH - 1 then
      if s.setpoint_sent then
        { s' with clk_count := 0, n_sync := false, done := true, present_state := .WAIT_SYNC_LOW }
      else { s' with clk_count := 0, n_sync := true, present_state := .SEND_SETPOINT }
    else { s' with n_sync := true, clk_count := nextClk s.clk_count }
  | .WAIT_SYNC_LOW =>
    if s.clk_count = SYNC_WIDTH - 1 then
      { s' with clk_count := 0, n_sync := false, present_state := .IDLE }
    else { s' with n_sync := false, clk_count := nextClk s.clk_count }

/-- The frame that is loaded into the shift register at a clock edge, if any. -/
def loaded (s : Spi) (i : In) : Option (BitVec 24) :=
  if i.reset then none
  else match s.present_state with
  | .IDLE =>
    if i.start then
      if s.init_count = 0 then some 0x400004
      else if s.init_count = 1 then some 0x400000
      else none
    else none
  | .SEND_CTRL_REG => some (ctrlFrame s)
  | .SEND_SETPOINT => some (setpointFrame s)
  | _ => none

/-- `clk_count` can count up to `SPI_CLK_DIV - 1`. -/
def DivOk (SPI_CLK_DIV : ℕ) : Prop := 0 < SPI_CLK_DIV ∧ SPI_CLK_DIV ≤ 1024

def sdo (s : Spi) : Bool := s.shift_reg.getLsbD 23

end Ad5781

/-! ## `dac_chan` -/

/-- The registers of `dac_chan`. -/
structure DacChan (ram : Dpram) (cordic : Cordic) where
  table : RampTable.Ramp ram
  cosine : SmoothCosine.Ramp cordic
  linear : SmoothLinear.Ramp
  /-- The setpoint of the selected mode. -/
  dac_setpt_raw : BitVec 20
  gain : GainOffset.Stage
  /-- The calibrated setpoint, limited for a unipolar supply. -/
  dac_setpt_wlim : BitVec 20
  /-- What goes to the DAC. -/
  dac_data : BitVec 20
  /-- What the readback registers show. -/
  dac_data_rdbk : BitVec 20
  spi : Ad5781.Spi

namespace DacChan

variable {ram : Dpram} {cordic : Cordic}

/-- The inputs of `dac_chan` at one clock edge. -/
structure In where
  reset : Bool
  tenkhz_trig : Bool
  dig_cntrl : DigCntrl
  fofb_dac_setpt : BitVec 20
  dac_numbits_sel : Bool
  smoothramp_type : Bool
  dac_cntrl : DacCntrl

def smooth_dac_setpt (s : DacChan ram cordic) (i : In) : BitVec 20 :=
  if i.smoothramp_type then s.cosine.rampout else s.linear.rampout

/-- The setpoint of the selected mode: 0 smooth ramp, 1 ramp table, 2 FOFB, 3 jump. -/
def modeSetpt (s : DacChan ram cordic) (i : In) : BitVec 20 :=
  if i.dac_cntrl.mode = 0b00#2 then s.smooth_dac_setpt i
  else if i.dac_cntrl.mode = 0b01#2 then s.table.ramp_dac_setpt
  else if i.dac_cntrl.mode = 0b10#2 then i.fofb_dac_setpt
  else i.dac_cntrl.setpoint

def linearIn (s : DacChan ram cordic) (i : In) : SmoothLinear.In where
  reset := i.reset
  tenkhz_trig := i.tenkhz_trig
  mode := i.dac_cntrl.mode
  cur_setpt := s.gain.dac_setpt
  new_setpt := i.dac_cntrl.setpoint
  linear_len := i.dac_cntrl.linear_len
  curved_len := i.dac_cntrl.curved_len
  dy := i.dac_cntrl.dy_q16_48
  dy_per_pt := i.dac_cntrl.dy_per_pt_q16_48

def spiIn (s : DacChan ram cordic) (i : In) : Ad5781.In where
  reset := i.dac_cntrl.reset
  start := s.gain.done
  dac_data := s.dac_data
  dac_ctrl_bits := i.dac_cntrl.cntrl.extractLsb' 0 5

/-- `SPI_CLK_DIV` of `spi_dac`. -/
def spiClkDiv : ℕ := 5

/-- One rising edge of `clk`. -/
def step (s : DacChan ram cordic) (i : In) : DacChan ram cordic where
  table := RampTable.step s.table i.reset i.tenkhz_trig i.dac_cntrl.mode i.dac_cntrl
  cosine :=
    SmoothCosine.step s.cosine i.reset i.tenkhz_trig i.dac_cntrl.mode s.gain.dac_setpt
      i.dac_cntrl.setpoint i.dac_cntrl.smooth_phaseinc
  linear := SmoothLinear.step s.linear (s.linearIn i)
  dac_setpt_raw :=
    if i.reset then 0 else if i.tenkhz_trig then s.modeSetpt i else s.dac_setpt_raw
  gain :=
    GainOffset.step s.gain i.reset i.tenkhz_trig i.dac_numbits_sel s.dac_setpt_raw i.dac_cntrl
  dac_setpt_wlim :=
    if i.dig_cntrl.polarity ∧ s.gain.dac_setpt.toInt < 0 then 0 else s.gain.dac_setpt
  dac_data :=
    if i.dac_numbits_sel then s.dac_setpt_wlim
    else s.dac_setpt_wlim.extractLsb' 0 18 ++ 0#2
  dac_data_rdbk :=
    if i.dac_numbits_sel then s.dac_setpt_wlim
    else sresize 20 (s.dac_setpt_wlim.extractLsb' 0 18)
  spi := Ad5781.step spiClkDiv s.spi (s.spiIn i)

/-- All registers zero and all state machines in their first state, as the FPGA is configured. -/
def configured (table : ram.σ) (core : cordic.σ) : DacChan ram cordic where
  table := ⟨.IDLE, 0, false, false, 0, table⟩
  cosine := ⟨.IDLE, 0, 0, 0, 0, 0, 0, 0, false, false, 0, 0, 0, core⟩
  linear := ⟨.IDLE, 0, 0, 0, 0, 0, 0, 0, false⟩
  dac_setpt_raw := 0
  gain := ⟨.IDLE, 0, 0, 0, false, 0, false⟩
  dac_setpt_wlim := 0
  dac_data := 0
  dac_data_rdbk := 0
  spi :=
    ⟨.IDLE, 0, false, false, false, false, false, 0, 0, 0, 0, false, false, false, false⟩

def dac_stat (s : DacChan ram cordic) : DacStat where
  active := s.table.ramp_active || s.cosine.smooth_active || s.linear.smooth_active
  dac_setpt := s.dac_data_rdbk

end DacChan

def Dpram.blank : Dpram := ⟨Unit, fun s _ _ _ _ _ => s, fun _ => 0⟩

def Cordic.blank : Cordic := ⟨Unit, fun s _ _ => s, fun _ => 0⟩

end Zpsc
