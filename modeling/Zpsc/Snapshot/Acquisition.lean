import Zpsc.Adc.DcctModule
import Zpsc.Adc.MonModule
import Zpsc.Nco
import Zpsc.Snapshot.Burst

/-!
# From a trigger to its record (`top.vhd`)

The 10 kHz trigger starts the DCCT readings, the monitor readings and the snapshot writer at one
clock. A record is written while the new conversions run, so it holds the readings of the trigger
before. The digital signals that go into a record are inputs here, as is the port of the memory.
-/

namespace Zpsc.Acquisition

open Bits Clocked
open AdcGainOffset (Dcct Mon Params)

/-! ## The source -/

/-- The inputs of one clock; `nco_stepsize` and `onehz_trig` come from the timing receiver and its
registers. -/
structure In where
  pl_reset : Bool
  nco_stepsize : BitVec 32
  onehz_trig : Bool
  numbits_sel : Bool
  dcct_params : Chan → Params Dcct 20
  /-- The serial lines of the DCCT ADCs. -/
  dcct_adc_sdo : Chan → Bool
  numchan_sel : Bool
  mon_params : Chan → Params Mon 16
  /-- Those of the monitor ADCs. -/
  mon_adc_sdo : Fin 3 → Bool
  awready : Bool
  wready : Bool
  bvalid : Bool
  dig_cntrl : Chan → DigCntrl
  dig_stat : Chan → DigStat
  fault_stat : Chan → FaultStat

structure Regs where
  sroc_gen : Nco
  read_dcct_adcs : DcctModule.Regs
  read_mon_adcs : MonModule.Regs
  adc2ddr : AxiWrite

def tenkhz_trig (s : Regs) : Bool := s.sroc_gen.pulse_out

/-- The ports of `read_dcct_adcs`. -/
def dcctIn (s : Regs) (i : In) : DcctModule.In :=
  ⟨i.pl_reset, tenkhz_trig s, i.numbits_sel, i.dcct_params, i.dcct_adc_sdo⟩

/-- The ports of `read_mon_adcs`. -/
def monIn (s : Regs) (i : In) : MonModule.In :=
  ⟨i.pl_reset, tenkhz_trig s, i.numchan_sel, i.mon_params, i.mon_adc_sdo⟩

/-- The monitor readings of a channel as a record of `t_mon_adcs`. -/
def monAdcs (x : Mon → BitVec 16) : MonAdcsCal where
  voltage := x .voltage
  ignd := x .ignd
  ps_error := x .ps_error
  dacmon := x .dacmon
  spare := x .spare
  ps_reg := x .ps_reg

/-- The ports of `adc2ddr`. -/
def writeIn (s : Regs) (i : In) : AxiWrite.Input where
  reset := i.pl_reset
  trigger := tenkhz_trig s
  awready := i.awready
  wready := i.wready
  bvalid := i.bvalid
  dcct_adcs := DcctModule.dcct_out s.read_dcct_adcs
  mon_adcs := fun c => monAdcs (MonModule.mon_adcs s.read_mon_adcs c)
  dig_cntrl := i.dig_cntrl
  dig_stat := i.dig_stat
  fault_stat := i.fault_stat

/-- One rising edge of `pl_clk0`. -/
def step (s : Regs) (i : In) : Regs where
  sroc_gen := s.sroc_gen.step i.pl_reset i.nco_stepsize i.onehz_trig
  read_dcct_adcs := DcctModule.step s.read_dcct_adcs (dcctIn s i)
  read_mon_adcs := MonModule.step s.read_mon_adcs (monIn s i)
  adc2ddr := AxiWrite.step s.adc2ddr (writeIn s i)

/-! ## Runs -/

section Run

variable (s : Regs) (inp : ℕ → In)

/-- The registers before clock `t`, from the registers `s`. -/
def regs (t : ℕ) : Regs := trace step s inp t

/-- A trigger comes at clock `t`. -/
def trigger (t : ℕ) : Bool := tenkhz_trig (regs s inp t)

/-- The ports of `read_dcct_adcs` in a run. -/
def dcctInputs (t : ℕ) : DcctModule.In := dcctIn (regs s inp t) (inp t)

/-- The ports of `read_mon_adcs` in a run. -/
def monInputs (t : ℕ) : MonModule.In := monIn (regs s inp t) (inp t)

/-- The ports of `adc2ddr` from clock `t` on. -/
def writeInputs (t v : ℕ) : AxiWrite.Input := writeIn (regs s inp (t + v)) (inp (t + v))

/-- The largest step size with which the triggers leave time for the readings; that of 10 kHz is
427853. -/
def MAX_STEPSIZE : ℕ := 1256573

/-- The device is configured and then reset for one clock, at clock 0; later on the step size may
change, up to the bound. -/
structure Started : Prop where
  sroc_gen : s.sroc_gen = .configured
  adc2ddr : s.adc2ddr = AxiWrite.powerUp
  dcct_idle : DcctModule.NoPass s.read_dcct_adcs
  mon_idle : MonModule.NoPass s.read_mon_adcs
  reset : (inp 0).pl_reset = true
  no_reset : ∀ t, 0 < t → (inp t).pl_reset = false
  stepsize : ∀ t, (inp t).nco_stepsize.toNat ≤ MAX_STEPSIZE

/-- The memory takes the words of a burst as fast as the readings need: the DCCT words before the
next conversion of the DCCTs ends, and all others and the response before that of the monitors
ends. -/
structure Prompt (t : ℕ) : Prop where
  /-- The 28 words up to the last DCCT reading are on the bus. -/
  dccts : 28 ≤ Nat.count (AxiWrite.Loads (writeInputs s inp t)) 685
  /-- The burst has its response. -/
  ends : ∃ T ≤ 1691, 40 ≤ Nat.count (AxiWrite.Loads (writeInputs s inp t)) T ∧
    (writeInputs s inp t T).bvalid = true
  last : AxiWrite.LastReady (writeInputs s inp t)

/-! ## What a record is for -/

/-- The DCCT readings `d` and the monitor readings `m` are those of the conversions that the trigger
at clock `t` starts. -/
structure ReadAt (t : ℕ) (d : Chan → DcctAdcs) (m : Chan → MonAdcsCal) : Prop where
  dccts : ∃ w : Chan → Dcct → BitVec 20,
    (∀ c, DcctModule.Words s.read_dcct_adcs (dcctInputs s inp) t c (w c)) ∧
    ∀ c, d c = ⟨DcctModule.calibrated (dcctInputs s inp) t c .dcct0 (w c .dcct0),
      DcctModule.calibrated (dcctInputs s inp) t c .dcct1 (w c .dcct1)⟩
  mons : ∃ (e : ℕ) (w : Chan → Mon → BitVec 16), t + 1687 ≤ e ∧ e ≤ t + 1693 ∧
    (∀ c q, MonModule.Reads s.read_mon_adcs (monInputs s inp) t e c q (w c q)) ∧
    ∀ c, m c = monAdcs fun q => MonModule.calibrated (monInputs s inp) e c q (w c q)

/-- The trigger at clock `t` starts a burst to the slot `slot` of the ring, which brings the
readings `d` and `m` in one whole record; each word of digital bits is the one in force when it was
put on the bus. -/
structure Records (t slot : ℕ) (d : Chan → DcctAdcs) (m : Chan → MonAdcsCal) : Prop where
  accepts : AxiWrite.Accepts (regs s inp t).adc2ddr (writeInputs s inp t 0)
  awaddr : ∀ v, t < v → AxiWrite.Running (regs s inp t).adc2ddr (writeInputs s inp t) (v - t) →
    (regs s inp v).adc2ddr.awaddr.toNat = AxiWrite.slotAddr slot
  whole : ∃ T, AxiWrite.Running (regs s inp t).adc2ddr (writeInputs s inp t) T ∧
    AxiWrite.Completes (regs s inp t).adc2ddr (writeInputs s inp t) T ∧
    AxiWrite.beats (regs s inp t).adc2ddr (writeInputs s inp t) (T + 1) =
      (List.range AxiWrite.BURST_LEN).map fun k =>
        ((AxiWrite.record
          { writeInputs s inp t (Nat.nth (AxiWrite.Loads (writeInputs s inp t)) k) with
            dcct_adcs := d, mon_adcs := m } (BitVec.ofNat 32 slot)).getD k 0,
          decide (k + 1 = AxiWrite.BURST_LEN))

end Run

end Zpsc.Acquisition
