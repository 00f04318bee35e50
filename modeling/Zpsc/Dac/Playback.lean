import Zpsc.Clocked.Signal
import Zpsc.Dac.Ramps

/-!
# Runs of the ramp table

What it means for `ramptable_ramp` to play a table: one entry at each tick, and after the last one
back to `IDLE`, where the last entry is held.
-/

namespace Zpsc.RampTable

open Clocked

/-- The inputs of a clock. -/
structure In where
  reset : Bool
  tenkhz_trig : Bool
  mode : BitVec 2
  cntrl : DacCntrl

/-- The start condition. -/
def In.Starts (i : In) : Prop := i.cntrl.ramprun = true ∧ i.mode = 0b01#2

variable {ram : Dpram}

def stepIn (s : Ramp ram) (i : In) : Ramp ram := step s i.reset i.tenkhz_trig i.mode i.cntrl

/-- The inputs of a run that is started at clock 0: the length stays, there is no reset, and ticks
keep coming. What starts a run may come and go after clock 0. -/
structure Started (ramplen : BitVec 16) (tick : ℕ → ℕ) (inp : ℕ → In) : Prop where
  starts : (inp 0).Starts
  ramplen : ∀ t, (inp t).cntrl.ramplen = ramplen
  reset : ∀ t, (inp t).reset = false
  ticks : Ticks (fun t => (inp t).tenkhz_trig) 8 tick

/-- When an entry is due, the RAM puts out the word at the read address. -/
def Reads (mem : BitVec 16 → BitVec 20) (s : Ramp ram) (inp : ℕ → In) : Prop :=
  ∀ t, (trace stepIn s inp t).state = .UPDATE_DAC →
    ram.doutb (trace stepIn s inp t).table = mem (trace stepIn s inp t).dac_rdaddr

/-- The setpoint after `k` entries. -/
def played (mem : BitVec 16 → BitVec 20) (setpt : BitVec 20) : ℕ → BitVec 20
  | 0 => setpt
  | k + 1 => mem (BitVec.ofNat 16 k)

/-- The run plays the first `n` entries: each from its tick to the next, and the last one also when
the run has ended at the tick after it, until another run starts. -/
structure Playback (mem : BitVec 16 → BitVec 20) (n : ℕ) (tick : ℕ → ℕ) (s : Ramp ram)
    (inp : ℕ → In) : Prop where
  /-- Until the first tick the output stays. -/
  before : ∀ t, 0 < t → t ≤ tick 0 + 1 →
    (trace stepIn s inp t).state ≠ .IDLE ∧
      (trace stepIn s inp t).ramp_dac_setpt = s.ramp_dac_setpt
  entry : ∀ k < n, ∀ t, tick k + 2 ≤ t → t ≤ tick (k + 1) + 1 →
    (trace stepIn s inp t).state ≠ .IDLE ∧
      (trace stepIn s inp t).ramp_dac_setpt = mem (BitVec.ofNat 16 k)
  /-- Then the run has ended. -/
  after : ∀ t, tick n + 2 ≤ t → (∀ u, tick n + 2 ≤ u → u < t → ¬ (inp u).Starts) →
    (trace stepIn s inp t).state = .IDLE ∧
      (trace stepIn s inp t).ramp_dac_setpt = played mem s.ramp_dac_setpt n

end Zpsc.RampTable
