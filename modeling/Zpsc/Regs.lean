import Zpsc.PscPkg

/-!
# The register map (`pl_regs.rdl`, `pl_regs.h`)

Software writes 32-bit words to addresses of the AXI bus; the FPGA sees the low bits of a word, as
many as the register's field has. Each channel has a window of `0x200` bytes with the same registers
at the same offsets. The names are those of `pl_regs.rdl`; the offsets of the header used by the
software are the same. Registers that only the FPGA writes are not listed, nor those of the
Manchester receiver, which only channel 1 has.
-/

namespace Zpsc

/-- The registers of a channel that the software writes. -/
inductive ChanReg where
  | dac_setpt_offset | dac_setpt_gain | dac_setpt | dac_opmode | dac_cntrl | dac_reset
  | dac_ramplen | dac_rampaddr | dac_rampdata | dac_runramp | dcct0_offset | dcct0_gain
  | dcct1_offset | dcct1_gain | dacmon_offset | dacmon_gain | volt_offset | volt_gain | gnd_offset
  | gnd_gain | spare_offset | spare_gain | reg_offset | reg_gain | err_offset | err_gain
  | ovc1_thresh | ovc2_thresh | ovv_thresh
  | err1_thresh | err2_thresh | ignd_thresh | ovc1_cntlim | ovc2_cntlim | ovv_cntlim
  | err1_cntlim | err2_cntlim | ignd_cntlim | dcct_cntlim | flt1_cntlim | flt2_cntlim
  | flt3_cntlim | on_cntlim | fault_clear | fault_mask | heartbeat_cntlim | digout_on1 | digout_on2
  | digout_reset | digout_spare | digout_park | avemode | dac_smooth_phaseinc | digout_on2_pulseenb
  | fofb_addr | fofb_scalefactor
  | dac_smooth_linear_len | dac_smooth_curved_len | dac_smooth_dy_hi | dac_smooth_dy_lo
  | dac_smooth_dy_per_pt_hi | dac_smooth_dy_per_pt_lo
  deriving DecidableEq, Repr

namespace ChanReg

def offset : ChanReg → ℕ
  | dac_setpt_offset => 0x20
  | dac_setpt_gain => 0x24
  | dac_setpt => 0x28
  | dac_opmode => 0x2C
  | dac_cntrl => 0x30
  | dac_reset => 0x34
  | dac_ramplen => 0x38
  | dac_rampaddr => 0x3C
  | dac_rampdata => 0x40
  | dac_runramp => 0x44
  | dcct0_offset => 0x50
  | dcct0_gain => 0x54
  | dcct1_offset => 0x58
  | dcct1_gain => 0x5C
  | dacmon_offset => 0x60
  | dacmon_gain => 0x64
  | volt_offset => 0x68
  | volt_gain => 0x6C
  | gnd_offset => 0x70
  | gnd_gain => 0x74
  | spare_offset => 0x78
  | spare_gain => 0x7C
  | reg_offset => 0x80
  | reg_gain => 0x84
  | err_offset => 0x88
  | err_gain => 0x8C
  | ovc1_thresh => 0x90
  | ovc2_thresh => 0x94
  | ovv_thresh => 0x98
  | err1_thresh => 0x9C
  | err2_thresh => 0xA0
  | ignd_thresh => 0xA4
  | ovc1_cntlim => 0xA8
  | ovc2_cntlim => 0xAC
  | ovv_cntlim => 0xB0
  | err1_cntlim => 0xB4
  | err2_cntlim => 0xB8
  | ignd_cntlim => 0xBC
  | dcct_cntlim => 0xC0
  | flt1_cntlim => 0xC4
  | flt2_cntlim => 0xC8
  | flt3_cntlim => 0xCC
  | on_cntlim => 0xD0
  | fault_clear => 0xD4
  | fault_mask => 0xD8
  | heartbeat_cntlim => 0xDC
  | digout_on1 => 0xE0
  | digout_on2 => 0xE4
  | digout_reset => 0xE8
  | digout_spare => 0xEC
  | digout_park => 0xF0
  | avemode => 0x100
  | dac_smooth_phaseinc => 0x104
  | digout_on2_pulseenb => 0x108
  | fofb_addr => 0x120
  | fofb_scalefactor => 0x128
  | dac_smooth_linear_len => 0x150
  | dac_smooth_curved_len => 0x154
  | dac_smooth_dy_hi => 0x158
  | dac_smooth_dy_lo => 0x15C
  | dac_smooth_dy_per_pt_hi => 0x160
  | dac_smooth_dy_per_pt_lo => 0x164

def width : ChanReg → ℕ
  | .dac_reset | .dac_runramp | .fault_clear | .digout_on1 | .digout_on2 | .digout_reset
  | .digout_spare | .digout_park | .digout_on2_pulseenb => 1
  | .dac_opmode | .avemode => 2
  | .dac_cntrl => 8
  | .dac_ramplen | .dac_rampaddr | .ovv_thresh | .err1_thresh | .err2_thresh | .ignd_thresh
  | .ovc1_cntlim | .ovc2_cntlim | .ovv_cntlim | .err1_cntlim | .err2_cntlim | .ignd_cntlim
  | .dcct_cntlim | .flt1_cntlim | .flt2_cntlim | .flt3_cntlim | .on_cntlim | .fault_mask
  | .heartbeat_cntlim | .fofb_addr => 16
  | .dac_setpt | .dac_rampdata | .ovc1_thresh | .ovc2_thresh => 20
  | _ => 32

def ofOffset : ℕ → Option ChanReg
  | 0x20 => some .dac_setpt_offset
  | 0x24 => some .dac_setpt_gain
  | 0x28 => some .dac_setpt
  | 0x2C => some .dac_opmode
  | 0x30 => some .dac_cntrl
  | 0x34 => some .dac_reset
  | 0x38 => some .dac_ramplen
  | 0x3C => some .dac_rampaddr
  | 0x40 => some .dac_rampdata
  | 0x44 => some .dac_runramp
  | 0x50 => some .dcct0_offset
  | 0x54 => some .dcct0_gain
  | 0x58 => some .dcct1_offset
  | 0x5C => some .dcct1_gain
  | 0x60 => some .dacmon_offset
  | 0x64 => some .dacmon_gain
  | 0x68 => some .volt_offset
  | 0x6C => some .volt_gain
  | 0x70 => some .gnd_offset
  | 0x74 => some .gnd_gain
  | 0x78 => some .spare_offset
  | 0x7C => some .spare_gain
  | 0x80 => some .reg_offset
  | 0x84 => some .reg_gain
  | 0x88 => some .err_offset
  | 0x8C => some .err_gain
  | 0x90 => some .ovc1_thresh
  | 0x94 => some .ovc2_thresh
  | 0x98 => some .ovv_thresh
  | 0x9C => some .err1_thresh
  | 0xA0 => some .err2_thresh
  | 0xA4 => some .ignd_thresh
  | 0xA8 => some .ovc1_cntlim
  | 0xAC => some .ovc2_cntlim
  | 0xB0 => some .ovv_cntlim
  | 0xB4 => some .err1_cntlim
  | 0xB8 => some .err2_cntlim
  | 0xBC => some .ignd_cntlim
  | 0xC0 => some .dcct_cntlim
  | 0xC4 => some .flt1_cntlim
  | 0xC8 => some .flt2_cntlim
  | 0xCC => some .flt3_cntlim
  | 0xD0 => some .on_cntlim
  | 0xD4 => some .fault_clear
  | 0xD8 => some .fault_mask
  | 0xDC => some .heartbeat_cntlim
  | 0xE0 => some .digout_on1
  | 0xE4 => some .digout_on2
  | 0xE8 => some .digout_reset
  | 0xEC => some .digout_spare
  | 0xF0 => some .digout_park
  | 0x100 => some .avemode
  | 0x104 => some .dac_smooth_phaseinc
  | 0x108 => some .digout_on2_pulseenb
  | 0x120 => some .fofb_addr
  | 0x128 => some .fofb_scalefactor
  | 0x150 => some .dac_smooth_linear_len
  | 0x154 => some .dac_smooth_curved_len
  | 0x158 => some .dac_smooth_dy_hi
  | 0x15C => some .dac_smooth_dy_lo
  | 0x160 => some .dac_smooth_dy_per_pt_hi
  | 0x164 => some .dac_smooth_dy_per_pt_lo
  | _ => none

theorem ofOffset_offset (r : ChanReg) : ofOffset r.offset = some r := by
  cases r <;> rfl

end ChanReg

/-- The global registers that the modelled parts read or write. -/
inductive GlobReg where
  | leds | resolution | polarity | evr_inj_eventno | evr_pm_eventno | evr_1hz_eventno
  | evr_10hz_eventno | evr_10khz_eventno | evr_reset | ioc_access | fofb_ipaddr | ch34_dualmode
  | main_dipole | smoothramp_type | softtrig | testtrig
  deriving DecidableEq, Repr

namespace GlobReg

def offset : GlobReg → ℕ
  | leds => 0x4
  | resolution => 0x8
  | polarity => 0x14
  | evr_inj_eventno => 0x20
  | evr_pm_eventno => 0x24
  | evr_1hz_eventno => 0x28
  | evr_10hz_eventno => 0x2C
  | evr_10khz_eventno => 0x30
  | evr_reset => 0x48
  | ioc_access => 0x50
  | fofb_ipaddr => 0x60
  | ch34_dualmode => 0x70
  | main_dipole => 0x74
  | smoothramp_type => 0x78
  | softtrig => 0xA08
  | testtrig => 0xA0C

def width : GlobReg → ℕ
  | .fofb_ipaddr => 32
  | .testtrig => 16
  | .leds | .resolution | .polarity | .evr_inj_eventno | .evr_pm_eventno | .evr_1hz_eventno
  | .evr_10hz_eventno | .evr_10khz_eventno | .evr_reset | .softtrig => 8
  | .ioc_access | .ch34_dualmode | .main_dipole | .smoothramp_type => 1

def ofOffset : ℕ → Option GlobReg
  | 0x4 => some .leds
  | 0x8 => some .resolution
  | 0x14 => some .polarity
  | 0x20 => some .evr_inj_eventno
  | 0x24 => some .evr_pm_eventno
  | 0x28 => some .evr_1hz_eventno
  | 0x2C => some .evr_10hz_eventno
  | 0x30 => some .evr_10khz_eventno
  | 0x48 => some .evr_reset
  | 0x50 => some .ioc_access
  | 0x60 => some .fofb_ipaddr
  | 0x70 => some .ch34_dualmode
  | 0x74 => some .main_dipole
  | 0x78 => some .smoothramp_type
  | 0xA08 => some .softtrig
  | 0xA0C => some .testtrig
  | _ => none

theorem ofOffset_offset (g : GlobReg) : ofOffset g.offset = some g := by
  cases g <;> rfl

theorem offset_inj {g g' : GlobReg} (h : g.offset = g'.offset) : g = g' :=
  Option.some.inj ((ofOffset_offset g).symm.trans ((congrArg ofOffset h).trans (ofOffset_offset g')))

/-- The global registers lie below and above the windows of the channels. -/
theorem offset_lt_or (g : GlobReg) : g.offset < 0x200 ∨ 0xA00 ≤ g.offset := by
  cases g <;> decide

end GlobReg

/-- The number of a channel, as the software passes it. -/
def Chan.num : Chan → ℕ
  | .ps1 => 1
  | .ps2 => 2
  | .ps3 => 3
  | .ps4 => 4

theorem Chan.num_pos (c : Chan) : 1 ≤ c.num := by
  cases c <;> decide

theorem Chan.num_le (c : Chan) : c.num ≤ 4 := by
  cases c <;> decide

theorem Chan.exists_num {n : ℕ} (h1 : 1 ≤ n) (h4 : n ≤ 4) : ∃ c : Chan, c.num = n := by
  obtain rfl | rfl | rfl | rfl : n = 1 ∨ n = 2 ∨ n = 3 ∨ n = 4 := by omega
  exacts [⟨.ps1, rfl⟩, ⟨.ps2, rfl⟩, ⟨.ps3, rfl⟩, ⟨.ps4, rfl⟩]

def CHBASEADDR : ℕ := 0x200

def chanAddr (c : Chan) (r : ChanReg) : ℕ := c.num * CHBASEADDR + r.offset

/-- The contents of the registers. -/
@[ext]
structure RegFile where
  glob : (g : GlobReg) → BitVec g.width
  chan : Chan → (r : ChanReg) → BitVec r.width

def RegFile.zeros : RegFile := ⟨fun _ => 0, fun _ _ => 0⟩

/-- `Xil_Out32` to an address of the register map: the addressed register keeps the low bits of the
word. -/
def RegFile.out32 (rf : RegFile) (a : ℕ) (v : BitVec 32) : RegFile where
  glob := fun g => if g.offset = a then v.setWidth g.width else rf.glob g
  chan := fun c r => if chanAddr c r = a then v.setWidth r.width else rf.chan c r

theorem ChanReg.offset_lt (r : ChanReg) : r.offset < 0x200 := by
  cases r <;> decide

theorem ChanReg.width_le (r : ChanReg) : r.width ≤ 32 := by
  cases r <;> decide

theorem ChanReg.le_offset (r : ChanReg) : 0x20 ≤ r.offset := by
  cases r <;> decide

theorem chanAddr_inj {c c' : Chan} {r r' : ChanReg} (h : chanAddr c r = chanAddr c' r') :
    c = c' ∧ r = r' := by
  have h1 := r.offset_lt
  have h2 := r'.offset_lt
  simp only [chanAddr, CHBASEADDR] at h
  have hnum : c.num = c'.num := by omega
  have hoff : r.offset = r'.offset := by omega
  refine ⟨?_, ?_⟩
  · cases c <;> cases c' <;> first | rfl | exact absurd hnum (by decide)
  · have := ChanReg.ofOffset_offset r
    rw [hoff, ChanReg.ofOffset_offset] at this
    exact (Option.some.inj this).symm

theorem GlobReg.offset_ne_chanAddr (g : GlobReg) (c : Chan) (r : ChanReg) :
    g.offset ≠ chanAddr c r := by
  have h1 := g.offset_lt_or
  have h2 := c.num_pos
  have h3 := c.num_le
  have h4 := r.offset_lt
  intro e
  simp only [chanAddr, CHBASEADDR] at e
  omega

/-- A write to a channel register changes that register only. -/
theorem RegFile.out32_chan (rf : RegFile) (c : Chan) (r : ChanReg) (v : BitVec 32) (c' : Chan)
    (r' : ChanReg) :
    (rf.out32 (chanAddr c r) v).chan c' r' =
      if c' = c ∧ r' = r then v.setWidth r'.width else rf.chan c' r' := by
  by_cases h : c' = c ∧ r' = r
  · rw [if_pos h]
    exact if_pos (by rw [h.1, h.2])
  · rw [if_neg h]
    exact if_neg fun e => h (chanAddr_inj e)

theorem RegFile.out32_glob (rf : RegFile) (c : Chan) (r : ChanReg) (v : BitVec 32) (g : GlobReg) :
    (rf.out32 (chanAddr c r) v).glob g = rf.glob g :=
  if_neg (g.offset_ne_chanAddr c r)

end Zpsc
