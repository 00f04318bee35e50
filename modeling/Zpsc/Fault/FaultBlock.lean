import Zpsc.Bits.NumericStd
import Zpsc.Clocked.Run
import Zpsc.PscPkg

/-!
# The interlock of one channel (`fault_block.vhd`)

`step` is one rising edge of `clk`. The eleven fault checks of the main process are one debounce
each: a counter that runs while the fault condition holds and sets its bit of `fault_reg` when it
has reached its limit. They are told apart by `FaultBit`, which gives each check its bit number, its
condition, its limit and the width of its counter. The heartbeat detector and `error_sub`, which
feed nothing, are left out.
-/

namespace Zpsc

open Bits

/-- The fault checks with a counter, in the order of their bits. -/
inductive FaultBit where
  | ovc1 | ovc2 | ovv | err1 | err2 | ignd | dcct | flt1 | flt2 | flt3 | on
  deriving DecidableEq, Repr

namespace FaultBit

/-- The bit of `fault_reg`, `fault_live` and `fault_reg_lat` that belongs to a check. -/
def idx : FaultBit → ℕ
  | ovc1 => 0
  | ovc2 => 1
  | ovv => 2
  | err1 => 3
  | err2 => 4
  | ignd => 5
  | dcct => 6
  | flt1 => 7
  | flt2 => 8
  | flt3 => 9
  | on => 10

def ofIdx : ℕ → Option FaultBit
  | 0 => some ovc1
  | 1 => some ovc2
  | 2 => some ovv
  | 3 => some err1
  | 4 => some err2
  | 5 => some ignd
  | 6 => some dcct
  | 7 => some flt1
  | 8 => some flt2
  | 9 => some flt3
  | 10 => some on
  | _ => none

/-- The width of the counter: `on_fault_cnt` has 32 bits, the others 16. -/
def cntWidth : FaultBit → ℕ
  | on => 32
  | _ => 16

/-- The limit a counter is compared with. -/
def cntlim (p : FaultParams) : FaultBit → BitVec 16
  | ovc1 => p.ovc1_cntlim
  | ovc2 => p.ovc2_cntlim
  | ovv => p.ovv_cntlim
  | err1 => p.err1_cntlim
  | err2 => p.err2_cntlim
  | ignd => p.ignd_cntlim
  | dcct => p.dcct_cntlim
  | flt1 => p.flt1_cntlim
  | flt2 => p.flt2_cntlim
  | flt3 => p.flt3_cntlim
  | on => p.on_cntlim

end FaultBit

namespace FaultBlock

/-- The registers of `fault_block`. `cnt` holds the counters `ovc_fault_cnt1`, `ovc_fault_cnt2`,
`ovv_fault_cnt`, `err_fault_cnt1`, `err_fault_cnt2`, `ignd_fault_cnt`, `dcct_fault_cnt`,
`fault1_cnt`, `fault2_cnt`, `fault3_cnt` and `on_fault_cnt`. -/
structure Block where
  /-- This and `dff1` delay `tenkhz_trig`. -/
  dff0 : Bool
  dff1 : Bool
  /-- The checks are evaluated. -/
  ten_khz_pulse : Bool
  /-- This and `re_reg` find the rising edge of fault clear. -/
  re : Bool
  re_reg : Bool
  /-- Faults are cleared, until the next evaluation. -/
  clear_pulse : Bool
  /-- The setpoint at the last trigger. -/
  dac_setpoint_reg_new : BitVec 20
  /-- The setpoint at the trigger before. -/
  dac_setpoint_reg_old : BitVec 20
  /-- They differ. -/
  dac_change_flag : Bool
  /-- `on1` at the last evaluation. -/
  digcntrl_on1_last : Bool
  /-- `on1` has risen and `rsts(1)` has not come since. -/
  startup_state : Bool
  run_state : Bool
  cnt : (b : FaultBit) → BitVec b.cntWidth
  /-- The checks that have failed for their count limits. -/
  fault_reg : BitVec 16
  /-- The checks that failed at the last evaluation. -/
  fault_live : BitVec 16
  /-- The bits of `fault_reg` since the last clear. -/
  fault_reg_lat : BitVec 16
  /-- Of these the ones that interlock and are enabled. -/
  fault_reg_lat_mask : BitVec 16
  /-- Bit 4 of `fault_reg`, if it is enabled. -/
  error_reg_mask : BitVec 16

structure In where
  reset : Bool
  tenkhz_trig : Bool
  dig_cntrl : DigCntrl
  fault_params : FaultParams
  dcct_adcs : DcctAdcs
  mon_adcs : MonAdcs
  /-- The status bits of the supply. -/
  rsts : BitVec 4
  dcct_fault : Bool
  ac_on_out : Bool
  park : Bool
  dac_setpoint : BitVec 20
  /-- The fault of the timing receiver. -/
  evr_flt_in : Bool

/-- The test of the analog checks: the reading is at or above the threshold in absolute value. -/
def overThresh {w : ℕ} (x t : BitVec w) : Bool := sge (sabs x) (sabs t)

/-- The loop error checks are made at all: not in park, and no setpoint change. -/
def errChecked (s : Block) (i : In) : Bool := !i.park && !s.dac_change_flag

/-- Bipolar supplies and the main dipole share the logic of bits 7 and 10. -/
def bipolar (i : In) : Bool := !i.dig_cntrl.polarity || i.dig_cntrl.main_dipole

/-- The condition of a fault check, as the main process tests it, less `clear_pulse`. -/
def cond (s : Block) (i : In) : FaultBit → Bool
  | .ovc1 => overThresh i.dcct_adcs.dcct0 i.fault_params.ovc1_thresh
  | .ovc2 => overThresh i.dcct_adcs.dcct1 i.fault_params.ovc2_thresh
  | .ovv => overThresh i.mon_adcs.voltage i.fault_params.ovv_thresh
  | .err1 => errChecked s i && overThresh i.mon_adcs.ps_error i.fault_params.err1_thresh
  | .err2 => errChecked s i && overThresh i.mon_adcs.ps_error i.fault_params.err2_thresh
  | .ignd => overThresh i.mon_adcs.ignd i.fault_params.ignd_thresh
  | .dcct => !i.dcct_fault
  | .flt1 =>
    if bipolar i then i.rsts.getLsbD 1
    else !i.rsts.getLsbD 1 && i.dig_cntrl.on1 && s.run_state
  | .flt2 => i.rsts.getLsbD 2
  | .flt3 => i.rsts.getLsbD 3
  | .on =>
    if bipolar i then i.ac_on_out && !i.rsts.getLsbD 0
    else i.ac_on_out && !i.rsts.getLsbD 1

/-- The loop error checks leave their live bit alone when they are not made. -/
def liveHeld (s : Block) (i : In) : FaultBit → Bool
  | .err1 | .err2 => !errChecked s i
  | _ => false

def atLimit (s : Block) (i : In) (b : FaultBit) : Bool :=
  (s.cnt b).toNat = (b.cntlim i.fault_params).toNat

def evalCnt (s : Block) (i : In) (b : FaultBit) : BitVec b.cntWidth :=
  if cond s i b && !s.clear_pulse then
    if atLimit s i b then s.cnt b else s.cnt b + 1
  else 0

def evalReg (s : Block) (i : In) (b : FaultBit) : Bool :=
  if cond s i b && !s.clear_pulse then
    if atLimit s i b then true else s.fault_reg.getLsbD b.idx
  else false

def evalLive (s : Block) (i : In) (b : FaultBit) : Bool :=
  if liveHeld s i b then s.fault_live.getLsbD b.idx else cond s i b && !s.clear_pulse

/-- Bit `k` of `fault_reg` after a clock without reset. Bit 12 is not debounced. -/
def nextReg (s : Block) (i : In) (k : ℕ) : Bool :=
  if k = 12 then i.evr_flt_in
  else match FaultBit.ofIdx k with
  | some b => if s.ten_khz_pulse then evalReg s i b else s.fault_reg.getLsbD k
  | none => s.fault_reg.getLsbD k

/-- Bit `k` of `fault_live` after a clock without reset. Bit 13 toggles with the evaluations. -/
def nextLive (s : Block) (i : In) (k : ℕ) : Bool :=
  if s.ten_khz_pulse then
    if k = 13 then !s.fault_live.getLsbD 13
    else match FaultBit.ofIdx k with
    | some b => evalLive s i b
    | none => s.fault_live.getLsbD k
  else s.fault_live.getLsbD k

def nextLat (s : Block) (k : ℕ) : Bool :=
  if k ≤ 12 then
    if s.clear_pulse then false else s.fault_reg.getLsbD k || s.fault_reg_lat.getLsbD k
  else s.fault_reg_lat.getLsbD k

/-- The bits that interlock, in `main_dipole` mode without Fault2 and Fault3. -/
def interlockMask (main_dipole : Bool) : BitVec 16 :=
  if main_dipole then 0x1CEF#16 else 0x1FEF#16

/-- The counters that the reset branch clears. -/
def cntReset : FaultBit → Bool
  | .ovc1 | .ovc2 | .ovv | .err1 | .err2 | .ignd => true
  | _ => false

/-- One rising edge of `clk`. -/
def step (s : Block) (i : In) : Block where
  fault_reg_lat_mask :=
    interlockMask i.dig_cntrl.main_dipole &&& s.fault_reg_lat &&& i.fault_params.enable
  error_reg_mask := 0x0010#16 &&& s.fault_reg &&& i.fault_params.enable
  dac_setpoint_reg_new :=
    if i.reset then 0 else if i.tenkhz_trig then i.dac_setpoint else s.dac_setpoint_reg_new
  dac_setpoint_reg_old :=
    if i.reset then 0
    else if i.tenkhz_trig then s.dac_setpoint_reg_new else s.dac_setpoint_reg_old
  dff0 := if i.reset then false else i.tenkhz_trig
  dff1 := if i.reset then false else s.dff0
  ten_khz_pulse := if i.reset then false else s.dff1
  re := i.fault_params.clear
  re_reg := s.re
  clear_pulse :=
    if !s.re_reg && s.re then true
    else if s.ten_khz_pulse then false else s.clear_pulse
  dac_change_flag :=
    if i.reset then false else s.dac_setpoint_reg_new != s.dac_setpoint_reg_old
  digcntrl_on1_last :=
    if !i.reset && s.ten_khz_pulse then i.dig_cntrl.on1 else s.digcntrl_on1_last
  startup_state :=
    if i.reset then false
    else if s.ten_khz_pulse then
      -- the second assignment of the source overrides the first
      if s.startup_state && i.rsts.getLsbD 1 then false
      else if !s.digcntrl_on1_last && i.dig_cntrl.on1 then true
      else s.startup_state
    else s.startup_state
  run_state :=
    if i.reset then false
    else if s.ten_khz_pulse then
      if s.run_state && !i.dig_cntrl.on1 then false
      else if s.startup_state && i.rsts.getLsbD 1 then true
      else s.run_state
    else s.run_state
  cnt := fun b =>
    if i.reset then if cntReset b then 0 else s.cnt b
    else if s.ten_khz_pulse then evalCnt s i b else s.cnt b
  fault_reg := if i.reset then 0 else ofBits 16 (nextReg s i)
  fault_live := if i.reset then 0 else ofBits 16 (nextLive s i)
  fault_reg_lat := if i.reset then 0 else ofBits 16 (nextLat s)

/-- The outputs; `main_dipole` is that of the current inputs. -/
def stat (s : Block) (main_dipole : Bool) : FaultStat where
  live := s.fault_live
  lat := s.fault_reg_lat_mask
  trig_ss := if main_dipole then s.fault_live.getLsbD 8 else false
  flt_trig := orReduce s.fault_reg_lat_mask
  err_trig := orReduce s.error_reg_mask

end FaultBlock

end Zpsc
