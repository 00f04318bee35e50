import Zpsc.Fault.Debounce
import Zpsc.Snapshot.Acquisition

/-!
# From a reading to the switched-off supply (`top.vhd`)

The ADC modules, the fault blocks and the digital outputs run at one clock from one 10 kHz trigger.
The evaluation three clocks after a trigger sees the readings of the trigger before, so a supply is
switched off as many triggers after a bad reading as its check has to find it, and one more.
-/

namespace Zpsc.Reaction

open Clocked FaultBlock
open Acquisition (tenkhz_trig monAdcs)

/-! ## The source -/

/-- The inputs of one clock; the `fault_stat` of `acquisition` is that of the fault blocks. -/
structure In where
  acquisition : Acquisition.In
  fault_params : Chan → FaultParams
  dac_setpt : Chan → BitVec 20
  rsts : BitVec 20
  ch34_dualmode : Bool

structure Regs where
  acquisition : Acquisition.Regs
  interlock : Interlock

/-- The ports of `fault_gen` and `dig_io`. -/
def topIn (s : Regs) (i : In) : Top.In where
  mod :=
    { reset := i.acquisition.pl_reset
      tenkhz_trig := tenkhz_trig s.acquisition
      dig_cntrl := i.acquisition.dig_cntrl
      fault_params := i.fault_params
      dcct_adcs := DcctModule.dcct_out s.acquisition.read_dcct_adcs
      mon_adcs := fun c => (monAdcs (MonModule.mon_adcs s.acquisition.read_mon_adcs c)).toMonAdcs
      dac_setpt := i.dac_setpt
      rsts := i.rsts }
  ch34_dualmode := i.ch34_dualmode

def acquisitionIn (s : Regs) (i : In) : Acquisition.In :=
  { i.acquisition with fault_stat := Top.faultStat s.interlock (topIn s i) }

/-- One rising edge of `pl_clk0`. -/
def step (s : Regs) (i : In) : Regs where
  acquisition := Acquisition.step s.acquisition (acquisitionIn s i)
  interlock := Top.step s.interlock (topIn s i)

/-! ## Runs -/

section Run

variable (s : Regs) (inp : ℕ → In)

/-- The registers before clock `t`, from the registers `s`. -/
def regs (t : ℕ) : Regs := trace step s inp t

def acquisitionInputs (t : ℕ) : Acquisition.In := acquisitionIn (regs s inp t) (inp t)

/-- The ports of the fault block of a channel. -/
def blockInputs (c : Chan) (t : ℕ) : FaultBlock.In :=
  (Top.interlockIn (regs s inp t).interlock (topIn (regs s inp t) (inp t))).blk c

/-- The commands to the supplies. -/
def rcom (t : ℕ) : BitVec 20 :=
  (regs s inp t).interlock.rcom
    (Top.interlockIn (regs s inp t).interlock (topIn (regs s inp t) (inp t)))

/-- A trigger comes at clock `t`. -/
def trigger (t : ℕ) : Bool := Acquisition.trigger s.acquisition (acquisitionInputs s inp) t

/-- The triggers at the clocks `τ 0` .. `τ n` come one after the other. -/
structure Consecutive (τ : ℕ → ℕ) (n : ℕ) : Prop where
  comes : ∀ k ≤ n, trigger s inp (τ k) = true
  lt : ∀ k < n, τ k < τ (k + 1)
  between : ∀ k < n, ∀ v, τ k < v → v < τ (k + 1) → trigger s inp v = false

end Run

/-- The checks that go by the readings alone. -/
inductive Check where
  | ovc1 | ovc2 | ovv | ignd
  deriving DecidableEq, Repr

namespace Check

def bit : Check → FaultBit
  | ovc1 => .ovc1
  | ovc2 => .ovc2
  | ovv => .ovv
  | ignd => .ignd

/-- The check finds its condition in the readings of a channel. -/
def found (p : FaultParams) (d : DcctAdcs) (m : MonAdcs) : Check → Bool
  | ovc1 => overThresh d.dcct0 p.ovc1_thresh
  | ovc2 => overThresh d.dcct1 p.ovc2_thresh
  | ovv => overThresh m.voltage p.ovv_thresh
  | ignd => overThresh m.ignd p.ignd_thresh

end Check

end Zpsc.Reaction
