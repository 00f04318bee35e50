import Zpsc.Clocked.Signal
import Zpsc.Fault.Digio

/-!
# The staggered start of channels 3 and 4

With `ch34_dualmode` the supplies of channels 3 and 4 are switched on one after the other: channel 4
follows the pulse train of channel 3 through `pulse_delay`. The delay watches the train before it is
gated by the faults, so it can be ahead of `rcom(8)`, which is gated.
-/

namespace Zpsc.Digio

open Clocked

/-- The registers at power-up. -/
def configured : Digio where
  on1 := fun _ => ⟨0, false, false, false⟩
  on2 := fun _ => ⟨0, false, false, false⟩
  pwr_delay := ⟨0, 0, false, false, false, false⟩

/-- The pulse train of channel 3 before clock `t` of a run from power-up, not gated by faults. -/
def train (inp : ℕ → In) (t : ℕ) : Bool := ps_on1 (trace step configured inp t) .ps3

/-- The registers of `pwr_delay` before clock `t`. -/
def delayAt (inp : ℕ → In) (t : ℕ) : PulseDelay := (trace step configured inp t).pwr_delay

/-- `rcom(8)`, the ON command of channel 3. -/
def chan3 (inp : ℕ → In) (t : ℕ) : Bool :=
  (rcom (trace step configured inp t) (inp t)).getLsbD 8

/-- `rcom(12)`, the ON command of channel 4. -/
def chan4 (inp : ℕ → In) (t : ℕ) : Bool :=
  (rcom (trace step configured inp t) (inp t)).getLsbD 12

/-- Channel 4 is only ever enabled when channel 3 rose `delayCounts` clocks ago or earlier and has
never been off for `delayCounts` clocks since. -/
def Staggered (inp : ℕ → In) : Prop :=
  ∀ t, chan4 inp t = true →
    ∃ s, Rises (chan3 inp) s ∧ s + delayCounts ≤ t ∧
      Sustained delayCounts (chan3 inp) s (t + 1)

/-- A fault of channel 3 or 4, which in dual mode switches both off. -/
def faulty (i : In) : Bool := (i.fault .ps3).flt_trig || (i.fault .ps4).flt_trig

/-- At clock `t` the delay is not ahead of the gated train: when `rcom(8)` comes on after a gap, or
for the first time, the delay is disarmed; and when a fault is released one clock after the delay
let a pulse through, no gap of `rcom(8)` ends there. -/
structure InStep (inp : ℕ → In) (t : ℕ) : Prop where
  restart : faulty (inp t) = false → train inp t = true →
    QuietFor delayCounts (chan3 inp) t →
    (delayAt inp t).started = false ∧
      (delayAt inp t).qualified = false
  release : faulty (inp t) = true → faulty (inp (t + 1)) = false →
    train inp t = true →
    (delayAt inp t).qualified = true →
    ¬ QuietFor delayCounts (chan3 inp) (t + 1) ∧ ¬ QuietFor delayCounts (chan3 inp) (t + 2)

/-! ## Runs in which channel 3 is switched on at power-up -/

/-- The fault status of a channel with the overcurrent bit latched, or without a fault. -/
def overcurrent (latched : Bool) : FaultStat where
  live := 0
  lat := if latched then 1 else 0
  trig_ss := false
  flt_trig := latched
  err_trig := false

/-- In dual mode, with `on1` of channel 3 set and the fault of channel 3 latched when `flt` is 1. -/
def onInDualMode (flt : ℕ → Bool) (t : ℕ) : In where
  reset := false
  ch34_dualmode := true
  fault := fun c => overcurrent (c = .ps3 && flt t)
  dig_cntrl := fun c => ⟨c = .ps3, false, false, false, false, false, false⟩

/-- A start without a fault. -/
def cleanStart : ℕ → In := onInDualMode fun _ => false

/-- A fault latched 4 ms after power-up, before the first pulse, and cleared 51 ms later. -/
def lateClear : ℕ → In := onInDualMode fun t => 400000 ≤ t ∧ t < 5500008

end Zpsc.Digio
