import Zpsc.Bits.NumericStd
import Zpsc.Clocked.Run
import Zpsc.PscPkg

/-!
# The snapshot writer (`adc2ddr.vhd`)

At every 10 kHz trigger `axi4_write_adc` writes one record of 40 words to a ring in the DDR memory,
as one AXI4 burst: a header, the sample count, eight readings of each channel, one word of digital
bits of each channel, and the words 39 and 40. A word is put on the bus when the slave is ready for
the one before it.

`wordnum` and `debug_trig` go to no port and are read by nothing, and are left out.
-/

namespace Zpsc

/-- `t_dig_stat_onech`. -/
structure DigStat where
  acon : Bool
  flt1 : Bool
  flt2 : Bool
  spare : Bool
  dcct_flt : Bool
  deriving DecidableEq

/-- The fields of `t_mon_adcs_onech` after the calibration. -/
structure MonAdcsCal extends MonAdcs where
  dacmon : BitVec 16
  spare : BitVec 16
  ps_reg : BitVec 16
  deriving DecidableEq

namespace AxiWrite

def BURST_LEN : ℕ := 40

def DDR_BASE_ADDR : BitVec 32 := 0x10000000

def DDR_MAX_ADDR : BitVec 32 := 0x11E84760

/-- The part of a state's name after `PS1_` .. `PS4_`. -/
inductive Quantity where
  | DCCT1 | DCCT2 | MON1 | MON2 | MON3 | MON4 | MON5 | MON6
  deriving DecidableEq

/-- `state_type`: `PS c q` are the states `PS1_DCCT1` .. `PS4_MON6`, `WRD c` are `WRD35` ..
`WRD38`. -/
inductive State where
  | IDLE | ADDRESS | HDR | CNT
  | PS (c : Chan) (q : Quantity)
  | WRD (c : Chan)
  | WRD39 | WRDLAST | AWAITRESP
  deriving DecidableEq

/-- The inputs of one clock. -/
structure Input where
  reset : Bool
  trigger : Bool
  awready : Bool
  wready : Bool
  bvalid : Bool
  dcct_adcs : Chan → DcctAdcs
  mon_adcs : Chan → MonAdcsCal
  dig_cntrl : Chan → DigCntrl
  dig_stat : Chan → DigStat
  fault_stat : Chan → FaultStat

end AxiWrite

/-- The registers, those of `s_axi4_m2s` and `ss_buf_stat` included. -/
structure AxiWrite where
  state : AxiWrite.State
  /-- The address of the next record. -/
  addr_base : BitVec 32
  /-- The number of the next record, modulo the ring. -/
  datacnt : BitVec 32
  /-- `trigger` one clock ago. -/
  prev_trigger : Bool
  awaddr : BitVec 32
  awburst : BitVec 2
  awcache : BitVec 4
  awlen : BitVec 8
  awlock : BitVec 1
  awprot : BitVec 3
  awqos : BitVec 4
  awsize : BitVec 3
  awvalid : Bool
  wdata : BitVec 32
  wlast : Bool
  wstrb : BitVec 4
  wvalid : Bool
  /-- The response is awaited. -/
  bready : Bool
  /-- The address of the last record. -/
  addr_ptr : BitVec 32
  /-- Its number. -/
  tenkhzcnt : BitVec 32
  deriving DecidableEq

namespace AxiWrite

open Bits

/-- The registers when the device is configured: `addr_base` has an initial value, the others are
cleared. -/
def powerUp : AxiWrite where
  state := .IDLE
  addr_base := DDR_BASE_ADDR
  datacnt := 0
  prev_trigger := false
  awaddr := 0
  awburst := 0
  awcache := 0
  awlen := 0
  awlock := 0
  awprot := 0
  awqos := 0
  awsize := 0
  awvalid := false
  wdata := 0
  wlast := false
  wstrb := 0
  wvalid := false
  bready := false
  addr_ptr := 0
  tenkhzcnt := 0

/-- `ps1_digbits` .. `ps4_digbits`. -/
def digbits (i : Input) (c : Chan) : BitVec 32 :=
  ofBits 32 fun j =>
    if j < 16 then (i.fault_stat c).lat.getLsbD j
    else if j = 19 then (i.dig_cntrl c).park
    else if j = 20 then (i.dig_cntrl c).spare
    else if j = 21 then (i.dig_cntrl c).reset
    else if j = 22 then (i.dig_cntrl c).on2
    else if j = 23 then (i.dig_cntrl c).on1
    else if j = 27 then (i.dig_stat c).dcct_flt
    else if j = 28 then (i.dig_stat c).spare
    else if j = 29 then (i.dig_stat c).flt2
    else if j = 30 then (i.dig_stat c).flt1
    else if j = 31 then (i.dig_stat c).acon
    else false

def write_word (s : AxiWrite) (wready : Bool) (data : BitVec 32) (next : State) : AxiWrite :=
  if wready then { s with wvalid := true, wdata := data, state := next } else s

/-- The word of the states `PSn_DCCT1` .. `PSn_MON6`. -/
def psWord (i : Input) (c : Chan) : Quantity → BitVec 32
  | .DCCT1 => sresize 32 (i.dcct_adcs c).dcct0
  | .DCCT2 => sresize 32 (i.dcct_adcs c).dcct1
  | .MON1 => sresize 32 (i.mon_adcs c).dacmon
  | .MON2 => sresize 32 (i.mon_adcs c).voltage
  | .MON3 => sresize 32 (i.mon_adcs c).ignd
  | .MON4 => sresize 32 (i.mon_adcs c).spare
  | .MON5 => sresize 32 (i.mon_adcs c).ps_reg
  | .MON6 => sresize 32 (i.mon_adcs c).ps_error

/-- The state after `PSn_DCCT1` .. `PSn_MON6`. -/
def psNext : Chan → Quantity → State
  | c, .DCCT1 => .PS c .DCCT2
  | c, .DCCT2 => .PS c .MON1
  | c, .MON1 => .PS c .MON2
  | c, .MON2 => .PS c .MON3
  | c, .MON3 => .PS c .MON4
  | c, .MON4 => .PS c .MON5
  | c, .MON5 => .PS c .MON6
  | .ps1, .MON6 => .PS .ps2 .DCCT1
  | .ps2, .MON6 => .PS .ps3 .DCCT1
  | .ps3, .MON6 => .PS .ps4 .DCCT1
  | .ps4, .MON6 => .WRD .ps1

/-- The state after `WRD35` .. `WRD38`. -/
def wrdNext : Chan → State
  | .ps1 => .WRD .ps2
  | .ps2 => .WRD .ps3
  | .ps3 => .WRD .ps4
  | .ps4 => .WRD39

def step (s : AxiWrite) (i : Input) : AxiWrite :=
  if i.reset then
    -- neither `addr_base` nor `wlast` is reset
    { s with awvalid := false, wvalid := false, bready := false, wdata := 0, state := .IDLE,
             datacnt := 0 }
  else
    match s.state with
    | .IDLE =>
      if i.trigger && !s.prev_trigger then
        { s with
          prev_trigger := i.trigger
          addr_ptr := s.addr_base
          tenkhzcnt := s.datacnt
          awaddr := s.addr_base
          awvalid := true
          awburst := 0b01
          awcache := 0b0011
          awlen := BitVec.ofNat 8 (BURST_LEN - 1)
          awlock := 0
          awprot := 0
          awqos := 0
          awsize := 0b010
          state := .ADDRESS }
      else { s with prev_trigger := i.trigger }
    | .ADDRESS =>
      if i.awready then { s with awvalid := false, wdata := 0, wstrb := 0xF, state := .HDR } else s
    | .HDR => write_word s i.wready 0x80000000 .CNT
    | .CNT => write_word s i.wready s.datacnt (.PS .ps1 .DCCT1)
    | .PS c q => write_word s i.wready (psWord i c q) (psNext c q)
    | .WRD c => write_word s i.wready (digbits i c) (wrdNext c)
    | .WRD39 => write_word s i.wready 39 .WRDLAST
    | .WRDLAST =>
      if i.wready then { s with wvalid := true, wlast := true, wdata := 40, state := .AWAITRESP }
      else s
    | .AWAITRESP =>
      let s := { s with wlast := false, wvalid := false, bready := true }
      if i.bvalid then
        if s.addr_base < DDR_MAX_ADDR then
          { s with datacnt := s.datacnt + 1,
                   addr_base := s.addr_base + BitVec.ofNat 32 (4 * BURST_LEN),
                   bready := false, state := .IDLE }
        else
          { s with datacnt := 0, addr_base := DDR_BASE_ADDR, bready := false, state := .IDLE }
      else s

end AxiWrite

end Zpsc
