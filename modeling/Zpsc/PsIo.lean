import Zpsc.Dac.DacChan
import Zpsc.Regs

/-!
# The register wiring (`ps_io.vhd`)

`ps_io` connects the register map to the records of the FPGA blocks, with one hand-written copy of
the wiring per channel. Here a record is one definition with the channel as a parameter; where a
copy differs from the others, the difference is a definition of its own: `dyPerPtLow` and `ramprun`.
-/

namespace Zpsc.PsIo

/-- What `ps_io` reads at a clock edge: the registers, the strobes of software accesses to the
registers `dac_rampdata` and `dac_runramp`, and the injection trigger. -/
structure In where
  regs : RegFile
  rampdata_swacc : Chan → Bool
  runramp_swacc : Chan → Bool
  inj_trig : Bool

/-- The registers of `ps_io` that belong to the DAC records. -/
structure SetpointRegs where
  /-- The setpoint register one clock ago. -/
  setpoint_last : Chan → BitVec 20
  /-- The register has changed since. -/
  setpoint_changed : Chan → Bool

/-- The channel whose register supplies the low word of `dy_per_pt_q16_48`. -/
def dyPerPtLow : Chan → Chan
  | .ps1 => .ps1
  | .ps2 => .ps1
  | .ps3 => .ps3
  | .ps4 => .ps4

/-- `ramprun`; only channel 1 is started by the injection trigger too. -/
def ramprun (i : In) : Chan → Bool
  | .ps1 => i.runramp_swacc .ps1 || i.inj_trig
  | .ps2 => i.runramp_swacc .ps2
  | .ps3 => i.runramp_swacc .ps3
  | .ps4 => i.runramp_swacc .ps4

/-- The bit of the global polarity register that belongs to a channel. -/
def polarityBit : Chan → ℕ
  | .ps1 => 0
  | .ps2 => 1
  | .ps3 => 2
  | .ps4 => 3

def dacCntrl (s : SetpointRegs) (i : In) (c : Chan) : DacCntrl where
  setpoint := i.regs.chan c .dac_setpt
  setpoint_last := s.setpoint_last c
  setpoint_changed := s.setpoint_changed c
  ramprun := ramprun i c
  ramplen := i.regs.chan c .dac_ramplen
  gain := (i.regs.chan c .dac_setpt_gain).extractLsb' 0 24
  offset := (i.regs.chan c .dac_setpt_offset).extractLsb' 0 20
  smooth_phaseinc := i.regs.chan c .dac_smooth_phaseinc
  linear_len := i.regs.chan c .dac_smooth_linear_len
  curved_len := i.regs.chan c .dac_smooth_curved_len
  dy_hi := i.regs.chan c .dac_smooth_dy_hi
  dy_lo := i.regs.chan c .dac_smooth_dy_lo
  dy_q16_48 :=
    (i.regs.chan c .dac_smooth_dy_hi : BitVec 32) ++ (i.regs.chan c .dac_smooth_dy_lo : BitVec 32)
  dy_per_pt_hi := i.regs.chan c .dac_smooth_dy_per_pt_hi
  dy_per_pt_lo := i.regs.chan c .dac_smooth_dy_per_pt_lo
  dy_per_pt_q16_48 :=
    (i.regs.chan c .dac_smooth_dy_per_pt_hi : BitVec 32) ++
      (i.regs.chan (dyPerPtLow c) .dac_smooth_dy_per_pt_lo : BitVec 32)
  cntrl := i.regs.chan c .dac_cntrl
  dpram_addr := i.regs.chan c .dac_rampaddr
  dpram_data := i.regs.chan c .dac_rampdata
  dpram_we := i.rampdata_swacc c
  reset := (i.regs.chan c .dac_reset).getLsbD 0
  mode := i.regs.chan c .dac_opmode

def step (s : SetpointRegs) (i : In) : SetpointRegs where
  setpoint_last := fun c => i.regs.chan c .dac_setpt
  setpoint_changed := fun c => s.setpoint_last c != i.regs.chan c .dac_setpt

def digCntrl (r : RegFile) (c : Chan) : DigCntrl where
  on1 := (r.chan c .digout_on1).getLsbD 0
  on2 := (r.chan c .digout_on2).getLsbD 0
  polarity := (r.glob .polarity).getLsbD (polarityBit c)
  main_dipole := (r.glob .main_dipole).getLsbD 0
  reset := (r.chan c .digout_reset).getLsbD 0
  spare := (r.chan c .digout_spare).getLsbD 0
  park := (r.chan c .digout_park).getLsbD 0

/-- `fault_params.psN`. Nothing drives `dcct_cntlim`; `u` stands for the value it then has. -/
def faultParams (r : RegFile) (u : BitVec 16) (c : Chan) : FaultParams where
  clear := (r.chan c .fault_clear).getLsbD 0
  enable := r.chan c .fault_mask
  ovc1_thresh := r.chan c .ovc1_thresh
  ovc2_thresh := r.chan c .ovc2_thresh
  ovv_thresh := r.chan c .ovv_thresh
  err1_thresh := r.chan c .err1_thresh
  err2_thresh := r.chan c .err2_thresh
  ignd_thresh := r.chan c .ignd_thresh
  ovc1_cntlim := r.chan c .ovc1_cntlim
  ovc2_cntlim := r.chan c .ovc2_cntlim
  ovv_cntlim := r.chan c .ovv_cntlim
  err1_cntlim := r.chan c .err1_cntlim
  err2_cntlim := r.chan c .err2_cntlim
  ignd_cntlim := r.chan c .ignd_cntlim
  dcct_cntlim := u
  flt1_cntlim := r.chan c .flt1_cntlim
  flt2_cntlim := r.chan c .flt2_cntlim
  flt3_cntlim := r.chan c .flt3_cntlim
  on_cntlim := r.chan c .on_cntlim

end Zpsc.PsIo
