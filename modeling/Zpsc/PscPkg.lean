import Mathlib.Data.Fintype.Pi
import Mathlib.Tactic.Common

/-!
# The record types of `psc_pkg.vhd`

The firmware bundles the signals of the four power supply channels in records with one component
`ps1 .. ps4` per channel. Here such a record is a function on `Chan`; the components themselves are
structures with the field names of the package. `std_logic` is `Bool` and a `std_logic_vector` or a
`signed` of width `w` is a `BitVec w`.
-/

namespace Zpsc

/-- The power supply channels. -/
inductive Chan where
  | ps1 | ps2 | ps3 | ps4
  deriving DecidableEq, Repr

instance : Fintype Chan := ⟨{.ps1, .ps2, .ps3, .ps4}, by intro c; cases c <;> decide⟩

/-! ## Digital controls and faults -/

structure DigCntrl where
  on1 : Bool
  on2 : Bool
  polarity : Bool
  main_dipole : Bool
  reset : Bool
  spare : Bool
  park : Bool
  deriving DecidableEq

/-- `t_fault_params_onech`, less the field `heart_cntlim`, which nothing reads. -/
structure FaultParams where
  clear : Bool
  enable : BitVec 16
  ovc1_thresh : BitVec 20
  ovc2_thresh : BitVec 20
  ovv_thresh : BitVec 16
  err1_thresh : BitVec 16
  err2_thresh : BitVec 16
  ignd_thresh : BitVec 16
  ovc1_cntlim : BitVec 16
  ovc2_cntlim : BitVec 16
  ovv_cntlim : BitVec 16
  err1_cntlim : BitVec 16
  err2_cntlim : BitVec 16
  ignd_cntlim : BitVec 16
  dcct_cntlim : BitVec 16
  flt1_cntlim : BitVec 16
  flt2_cntlim : BitVec 16
  flt3_cntlim : BitVec 16
  on_cntlim : BitVec 16
  deriving DecidableEq

structure FaultStat where
  /-- The checks that fail now. -/
  live : BitVec 16
  /-- The bits that are latched until they are cleared. -/
  lat : BitVec 16
  /-- The trigger of a snapshot. -/
  trig_ss : Bool
  flt_trig : Bool
  err_trig : Bool
  deriving DecidableEq

structure DcctAdcs where
  dcct0 : BitVec 20
  dcct1 : BitVec 20
  deriving DecidableEq

/-- The fields of `t_mon_adcs_onech` that the interlocks read. -/
structure MonAdcs where
  voltage : BitVec 16
  ignd : BitVec 16
  ps_error : BitVec 16
  deriving DecidableEq

/-! ## DAC channels -/

/-- `t_dac_cntrl_onech`. -/
structure DacCntrl where
  setpoint : BitVec 20
  setpoint_last : BitVec 20
  setpoint_changed : Bool
  /-- Starts the ramp table. -/
  ramprun : Bool
  ramplen : BitVec 16
  gain : BitVec 24
  offset : BitVec 20
  /-- The step of the phase of the cosine ramp at a tick. -/
  smooth_phaseinc : BitVec 32
  /-- The points of the linear section of the smooth ramp. -/
  linear_len : BitVec 32
  /-- The points of each of its curved sections. -/
  curved_len : BitVec 32
  dy_hi : BitVec 32
  dy_lo : BitVec 32
  /-- The step of the linear section. -/
  dy_q16_48 : BitVec 64
  dy_per_pt_hi : BitVec 32
  dy_per_pt_lo : BitVec 32
  /-- What the step changes by at each point of a curved section. -/
  dy_per_pt_q16_48 : BitVec 64
  /-- The control bits of the DAC. -/
  cntrl : BitVec 8
  dpram_addr : BitVec 16
  dpram_data : BitVec 20
  dpram_we : Bool
  reset : Bool
  /-- 0 smooth ramp, 1 ramp table, 2 FOFB, 3 jump. -/
  mode : BitVec 2
  deriving DecidableEq

/-- `t_dac_stat_onech`, less the field `cur_addr`, which nothing assigns. -/
structure DacStat where
  active : Bool
  dac_setpt : BitVec 20
  deriving DecidableEq

/-! ## Fast orbit feedback -/

/-- `t_fofb_params`; the `psN_` fields are the functions on `Chan`. -/
structure FofbParams where
  ipaddr : BitVec 32
  /-- The address of the record of a channel. -/
  addr : Chan → BitVec 16
  scalefactor : Chan → BitVec 32

structure FofbStat where
  packets_rcvd : BitVec 32
  command : BitVec 32
  nonce : BitVec 32
  /-- The setpoint of a channel, a `float`. -/
  setpt_flt : Chan → BitVec 32
  deriving DecidableEq

/-- `t_udp_pkt`, less the field `ps_ctrl_bits`, which nothing assigns. -/
structure UdpPkt where
  mac_src_addr : BitVec 48
  mac_dest_addr : BitVec 48
  mac_len_type : BitVec 16
  ip_ver : BitVec 4
  ip_ihl : BitVec 4
  ip_tos : BitVec 8
  ip_ident : BitVec 16
  ip_ttl : BitVec 8
  ip_protocol : BitVec 8
  ip_flags : BitVec 3
  ip_fragoffset : BitVec 13
  udp_src_port : BitVec 16
  udp_dest_port : BitVec 16
  header_checksum : BitVec 16
  total_len : BitVec 16
  ip_src_addr : BitVec 32
  ip_dest_addr : BitVec 32
  udp_len : BitVec 16
  udp_checksum : BitVec 16
  fast_ps_id : BitVec 16
  readback_cmd : BitVec 16
  nonce : BitVec 64
  deriving DecidableEq

end Zpsc
