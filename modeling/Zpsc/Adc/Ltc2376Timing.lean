import Zpsc.Adc.Ltc2376

/-!
# When the DCCT ADC converts (`adc_ltc2376.vhd`)

After a reset at clock 0 the clock enable is at the clocks `6, 11, 16, ...`. A start is taken at the
next of them, and the conversion ends after a number of clock enables that the resolution
determines.
-/

namespace Zpsc.Ltc2376

open Clocked

/-- The number of clocks that the interface, and the calibration after it, may need for a start. -/
def PERIOD : ℕ := 740

/-- A reset at clock 0 and none later, and starts that leave time for a conversion. -/
structure Paced (inp : ℕ → In) : Prop where
  reset : (inp 0).reset = true
  no_reset : ∀ t, 0 < t → (inp t).reset = false
  apart : TicksApart PERIOD fun t => (inp t).start

/-- The first clock enable after clock `t`. -/
def nextEnable (t : ℕ) : ℕ := t + 1 + (5 - t % 5) % 5

/-- The number of clock enables of a conversion. -/
def TICKS (resolution : Bool) : ℕ := 64 + 2 * num_bits resolution

/-- The last clock of the conversion that a start at clock `t` makes. -/
def lastClock (inp : ℕ → In) (t : ℕ) : ℕ :=
  nextEnable t + 5 * TICKS (inp (nextEnable t)).resolution

/-- The interface waits for a start. -/
structure Quiet (s : Regs) : Prop where
  state : s.state = .IDLE
  start_lat : s.start_lat = false
  data_rdy : s.data_rdy = false

/-- The words that are put out. -/
def dccts (s : Regs) : BitVec 20 × BitVec 20 := (s.dcct1, s.dcct2)

/-- No start comes after clock `t` and before clock `v`. -/
def NoStart (inp : ℕ → In) (t v : ℕ) : Prop := ∀ u, t < u → u < v → (inp u).start = false

/-- What a start at clock `t` makes of the interface, up to the next start. -/
structure Converts (s : Regs) (inp : ℕ → In) (t : ℕ) : Prop where
  conversion : Conversion s inp (nextEnable t) (lastClock inp t)
  /-- Until the end the words of the conversion before stay out. -/
  before : ∀ v, t < v → v ≤ lastClock inp t →
    (regs s inp v).data_rdy = false ∧ dccts (regs s inp v) = dccts (regs s inp t)
  /-- `data_rdy` is up for a period of the clock enable. -/
  rdy : ∀ v, lastClock inp t < v → v ≤ lastClock inp t + 5 → (regs s inp v).data_rdy = true
  after : ∀ v, lastClock inp t + 5 < v → NoStart inp t v → Quiet (regs s inp v)
  stays : ∀ v, lastClock inp t < v → NoStart inp t v →
    dccts (regs s inp v) = dccts (regs s inp (lastClock inp t + 1))

/-- The counters in each state. -/
def Counts (s : Regs) : Prop :=
  match s.state with
  | .SET_CNV => s.cnv_count ≤ CNV_PULSE ∧ s.bit_count < 40
  | .WAIT_FOR_NOT_BUSY => s.cnv_count ≤ CNV_WIDTH ∧ s.bit_count < 40
  | .SCLK_HI | .SCLK_LO => s.cnv_count = 0 ∧ s.bit_count < 40
  | .IDLE | .DONE => s.cnv_count = 0

/-- The number of clock enables to the end of the conversion. -/
def ticks (s : Regs) : ℕ :=
  match s.state with
  | .IDLE => 0
  | .SET_CNV => CNV_PULSE - s.cnv_count + CNV_WIDTH + 2 * s.bit_count + 5
  | .WAIT_FOR_NOT_BUSY => CNV_WIDTH - s.cnv_count + 2 * s.bit_count + 4
  | .SCLK_HI => 2 * s.bit_count + 3
  | .SCLK_LO => 2 * s.bit_count + 2
  | .DONE => 1

end Zpsc.Ltc2376
