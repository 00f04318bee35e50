import Zpsc.Bits.NumericStd
import Zpsc.Clocked.Run
import Zpsc.PscPkg

/-!
# The setpoint generators of a DAC channel

`ramptable_ramp.vhd` plays a table from a dual-port RAM, `smooth_cosine_ramp.vhd` a raised cosine
computed by a CORDIC core and `smooth_linear_ramp.vhd` a linear ramp with parabolic ends. Each
`step` is one rising edge of `clk`. The RAM and the CORDIC are generated cores; they are machines
given as parameters.
-/

namespace Zpsc

open Bits

/-- The block RAM `dac_dpram`: a write port and an enabled read port. -/
structure Dpram where
  /-- The contents and the read register. -/
  σ : Type
  step : σ → (wea : Bool) → (addra : BitVec 16) → (dina : BitVec 20) → (enb : Bool) →
    (addrb : BitVec 16) → σ
  /-- What was read last. -/
  doutb : σ → BitVec 20

/-- The core `cordic_sine`. -/
structure Cordic where
  σ : Type
  step : σ → (tvalid : Bool) → (phase : BitVec 24) → σ
  /-- The sine and the cosine, 24 bits each. -/
  dout : σ → BitVec 48

/-! ## `ramptable_ramp` -/

namespace RampTable

inductive State where
  | IDLE | RUN_RAMP | UPDATE_DAC
  deriving DecidableEq, Repr

/-- The registers of `ramptable_ramp`, with its RAM. -/
structure Ramp (ram : Dpram) where
  state : State
  /-- The entry that is read. -/
  dac_rdaddr : BitVec 16
  dac_rden : Bool
  ramp_active : Bool
  /-- The entry that is put out. -/
  ramp_dac_setpt : BitVec 20
  table : ram.σ

def step {ram : Dpram} (s : Ramp ram) (reset tenkhz_trig : Bool) (mode : BitVec 2) (c : DacCntrl) :
    Ramp ram :=
  let s' := { s with
    table := ram.step s.table c.dpram_we c.dpram_addr c.dpram_data s.dac_rden s.dac_rdaddr }
  if reset then
    { s' with
      state := .IDLE, dac_rdaddr := 0, dac_rden := false, ramp_active := false
      ramp_dac_setpt := 0 }
  else match s.state with
  | .IDLE =>
    if c.ramprun ∧ mode = 0b01#2 then
      { s' with state := .RUN_RAMP, dac_rdaddr := 0, dac_rden := true, ramp_active := false }
    else { s' with ramp_active := false }
  | .RUN_RAMP =>
    if tenkhz_trig then { s' with state := .UPDATE_DAC, ramp_active := true, dac_rden := true }
    else s'
  | .UPDATE_DAC =>
    -- the sum has the width of `dac_rdaddr` and wraps
    if c.ramplen < s.dac_rdaddr + 1 then { s' with state := .IDLE, dac_rden := false }
    else
      { s' with
        state := .RUN_RAMP, dac_rdaddr := s.dac_rdaddr + 1, dac_rden := true, ramp_active := true
        ramp_dac_setpt := ram.doutb s.table }

end RampTable

/-! ## `smooth_cosine_ramp` -/

namespace SmoothCosine

inductive State where
  | IDLE | RUN_RAMP
  deriving DecidableEq, Repr

def NEG_PI : BitVec 32 := BitVec.ofInt 32 (-421657300)

/-- The registers of `smooth_cosine_ramp`, with its CORDIC. `sin` and `diff_setpt`, which nothing
reads, are left out. -/
structure Ramp (cordic : Cordic) where
  state : State
  phase : BitVec 32
  /-- The phase for the CORDIC. -/
  phase_out : BitVec 24
  /-- Half of the cosine plus 1. -/
  raised_cos : BitVec 24
  /-- The ticks of the run. -/
  cnt : BitVec 20
  /-- `raised_cos` times the way from the old setpoint to the new one. -/
  rampout_wdiff : BitVec 48
  /-- The old setpoint plus that. -/
  rampout_fp : BitVec 24
  rampout : BitVec 20
  /-- The phase is past the end. -/
  last_point : Bool
  smooth_active : Bool
  /-- The setpoint register when `IDLE` last looked at it. -/
  new_setpt_prev : BitVec 20
  /-- The end of the run. -/
  new_setpt_lat : BitVec 20
  /-- Where the run has started. -/
  old_setpt : BitVec 20
  core : cordic.σ

def step {cordic : Cordic} (s : Ramp cordic) (reset tenkhz_trig : Bool) (mode : BitVec 2)
    (cur_setpt new_setpt : BitVec 20) (phase_inc : BitVec 32) : Ramp cordic :=
  let cos := (cordic.dout s.core).extractLsb' 0 24
  let s' := { s with core := cordic.step s.core tenkhz_trig s.phase_out }
  if reset then
    { s' with
      state := .IDLE, phase := NEG_PI, phase_out := NEG_PI.extractLsb' 8 24, rampout_wdiff := 0
      rampout := 0, raised_cos := 0, rampout_fp := 0, cnt := 0, last_point := false
      smooth_active := false, new_setpt_prev := 0 }
  else match s.state with
  | .IDLE =>
    let idle := { s' with
      new_setpt_prev := new_setpt, last_point := false, smooth_active := false, phase := NEG_PI
      raised_cos := 0, rampout_wdiff := 0 }
    if s.new_setpt_prev ≠ new_setpt ∧ mode = 0b00#2 then
      { idle with
        old_setpt := cur_setpt, new_setpt_lat := new_setpt, state := .RUN_RAMP, cnt := 0
        phase_out := NEG_PI.extractLsb' 8 24, smooth_active := true }
    else idle
  | .RUN_RAMP =>
    if tenkhz_trig then
      let diff := sresize 24 s.new_setpt_lat - sresize 24 s.old_setpt
      let run := { s' with
        raised_cos := (cos + BitVec.ofNat 24 (2 ^ 20)) >>> 1
        rampout_wdiff := sresize 48 diff * sresize 48 s.raised_cos
        rampout_fp := sresize 24 s.old_setpt + s.rampout_wdiff.extractLsb' 20 24
        rampout := s.rampout_fp.extractLsb' 0 20
        state := if s.last_point then .IDLE else .RUN_RAMP }
      if 0 < s.phase.toInt then { run with phase := 0, last_point := true }
      else
        { run with
          cnt := s.cnt + 1, phase := s.phase + phase_inc, phase_out := s.phase.extractLsb' 8 24 }
    else s'

end SmoothCosine

/-! ## `smooth_linear_ramp` -/

namespace SmoothLinear

inductive State where
  | IDLE
  | START_CURVED | SC_CALC_DY0 | SC_WAIT_DY0_MULT | SC_CALC_SETPT_CUR | SC_UPDATE_SETPT_LAST
  | LINEAR | LN_CALC_SETPT_CUR | LN_UPDATE_SETPT_LAST
  | END_CURVED | EC_CALC_DY0 | EC_WAIT_DY0_MULT | EC_CALC_SETPT_CUR | EC_UPDATE_SETPT_LAST
  deriving DecidableEq, Repr

/-- The registers of `smooth_linear_ramp`, less the debug flags `ramp_curved_active` and
`ramp_linear_active` and the unused `last_point` and `old_setpt`. -/
structure Ramp where
  state : State
  /-- The points that have been put out. -/
  cnt : BitVec 32
  /-- The setpoint register when `IDLE` last looked at it. -/
  new_setpt_prev : BitVec 20
  /-- The step of a point of a curved section. -/
  dy0 : BitVec 96
  /-- The next level, in units of `2^-48`. -/
  setpt_cur : BitVec 96
  /-- The level that is put out. -/
  setpt_last : BitVec 96
  /-- The points of the run. -/
  total_len : BitVec 32
  /-- The clocks that the multiplier still needs. -/
  mult_wait_cnt : BitVec 4
  smooth_active : Bool
  deriving DecidableEq

/-- The inputs of `smooth_linear_ramp` at one clock edge. -/
structure In where
  reset : Bool
  tenkhz_trig : Bool
  mode : BitVec 2
  /-- The calibrated setpoint that is out. -/
  cur_setpt : BitVec 20
  /-- The setpoint register. -/
  new_setpt : BitVec 20
  linear_len : BitVec 32
  curved_len : BitVec 32
  /-- The step of the linear section. -/
  dy : BitVec 64
  /-- What the step changes by at each point of a curved section. -/
  dy_per_pt : BitVec 64

def Ramp.rampout (s : Ramp) : BitVec 20 := sresize 20 (s.setpt_last.sshiftRight 48)

/-- `cnt * dy_per_pt`: the product of a 32-bit and a 64-bit `signed`. -/
def mul96 (n : BitVec 32) (d : BitVec 64) : BitVec 96 := sresize 96 n * sresize 96 d

def step (s : Ramp) (i : In) : Ramp :=
  if i.reset then
    { s with
      state := .IDLE, cnt := 0, smooth_active := false, new_setpt_prev := 0, dy0 := 0
      setpt_cur := 0, setpt_last := 0 }
  else match s.state with
  | .IDLE =>
    let idle := { s with new_setpt_prev := i.new_setpt, smooth_active := false }
    if s.new_setpt_prev ≠ i.new_setpt ∧ i.mode = 0b00#2 then
      { idle with
        setpt_last := sresize 96 i.cur_setpt <<< 48
        state := .START_CURVED, cnt := 0, smooth_active := true
        total_len := i.curved_len + i.curved_len + i.linear_len }
    else idle
  | .START_CURVED =>
    if i.tenkhz_trig then
      if s.cnt.toInt < i.curved_len.toInt then { s with state := .SC_CALC_DY0 }
      else { s with state := .LINEAR }
    else s
  | .SC_CALC_DY0 =>
    { s with dy0 := mul96 s.cnt i.dy_per_pt, mult_wait_cnt := 10, state := .SC_WAIT_DY0_MULT }
  | .SC_WAIT_DY0_MULT =>
    if s.mult_wait_cnt = 0 then { s with state := .SC_CALC_SETPT_CUR }
    else { s with mult_wait_cnt := s.mult_wait_cnt - 1 }
  | .SC_CALC_SETPT_CUR =>
    { s with setpt_cur := s.setpt_last + s.dy0, state := .SC_UPDATE_SETPT_LAST }
  | .SC_UPDATE_SETPT_LAST =>
    { s with setpt_last := s.setpt_cur, cnt := s.cnt + 1, state := .START_CURVED }
  | .LINEAR =>
    if i.tenkhz_trig then
      if s.cnt.toInt < (i.curved_len + i.linear_len).toInt then
        { s with state := .LN_CALC_SETPT_CUR }
      else { s with state := .END_CURVED }
    else s
  | .LN_CALC_SETPT_CUR =>
    { s with setpt_cur := s.setpt_last + sresize 96 i.dy, state := .LN_UPDATE_SETPT_LAST }
  | .LN_UPDATE_SETPT_LAST =>
    { s with setpt_last := s.setpt_cur, cnt := s.cnt + 1, state := .LINEAR }
  | .END_CURVED =>
    if i.tenkhz_trig then
      if s.cnt.toInt < s.total_len.toInt then { s with state := .EC_CALC_DY0 }
      else { s with state := .IDLE }
    else s
  | .EC_CALC_DY0 =>
    { s with
      dy0 := mul96 (s.total_len - s.cnt) i.dy_per_pt, mult_wait_cnt := 10
      state := .EC_WAIT_DY0_MULT }
  | .EC_WAIT_DY0_MULT =>
    if s.mult_wait_cnt = 0 then { s with state := .EC_CALC_SETPT_CUR }
    else { s with mult_wait_cnt := s.mult_wait_cnt - 1 }
  | .EC_CALC_SETPT_CUR =>
    { s with setpt_cur := s.setpt_last + s.dy0, state := .EC_UPDATE_SETPT_LAST }
  | .EC_UPDATE_SETPT_LAST =>
    { s with setpt_last := s.setpt_cur, cnt := s.cnt + 1, state := .END_CURVED }

end SmoothLinear

end Zpsc
