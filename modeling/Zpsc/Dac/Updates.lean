import Zpsc.Dac.Bumpless
import Zpsc.Dac.Frames

/-!
# What a tick sends to the DAC (`dac_chan.vhd`)

A tick registers the setpoint of the selected generator, and the gain and offset stage works on it
for twelve clocks. Its `done` starts the SPI engine, which sends the control register and then the
data that has come through the pipeline in the meantime.
-/

namespace Zpsc.DacChan

open Bits Clocked

variable {ram : Dpram} {cordic : Cordic}

section Run

variable (s : DacChan ram cordic) (inp : ℕ → In)

/-- The registers before clock `t`, from the registers `s`. -/
def regs (t : ℕ) : DacChan ram cordic := trace step s inp t

/-- The ports of the SPI engine in a run. -/
def spiInputs (t : ℕ) : Ad5781.In := (regs s inp t).spiIn (inp t)

/-- Resets of the channel and of its DAC at clock 0 and none later, and ticks that leave time for
two frames. -/
structure Paced : Prop where
  reset : (inp 0).reset = true
  dac_reset : (inp 0).dac_cntrl.reset = true
  no_reset : ∀ t, 0 < t → (inp t).reset = false
  no_dac_reset : ∀ t, 0 < t → (inp t).dac_cntrl.reset = false
  apart : TicksApart 2000 fun t => (inp t).tenkhz_trig

/-- The output of the gain and offset stage for the tick at clock `t`; the offset, the gain and the
resolution are taken in the clocks after it. -/
def calibrated (t : ℕ) : BitVec 20 :=
  GainOffset.calibrate (inp (t + 4)).dac_numbits_sel
    { (inp (t + 1)).dac_cntrl with gain := (inp (t + 2)).dac_cntrl.gain }
    ((regs s inp t).modeSetpt (inp t))

/-- The frame for the DAC register of the tick at clock `t`. It is loaded at clock `t + 280`; the
limit and the resolution are taken three and two clocks before. -/
def setpointWord (t : ℕ) : BitVec 24 :=
  let wlim :=
    if (inp (t + 277)).dig_cntrl.polarity ∧ (calibrated s inp t).toInt < 0 then 0
    else calibrated s inp t
  0b0#1 ++ 0b001#3 ++
    if (inp (t + 278)).dac_numbits_sel then wlim else wlim.extractLsb' 0 18 ++ 0#2

/-- The frame for the control register of the tick at clock `t`. -/
def ctrlWord (t : ℕ) : BitVec 24 :=
  let b := (inp (t + 12)).dac_cntrl.cntrl
  0b0#1 ++ 0b010#3 ++ 0#10 ++ 0#4 ++ BitVec.ofBool (b.getLsbD 1) ++ BitVec.ofBool (b.getLsbD 4) ++
    BitVec.ofBool (b.getLsbD 2) ++ BitVec.ofBool (b.getLsbD 0) ++ BitVec.ofBool (b.getLsbD 3) ++ 0#1

/-- The ticks from clock `a` on and before clock `b`. -/
def ticks (a b : ℕ) : List ℕ := sampled (fun v => (inp v).tenkhz_trig) id a b

end Run

end Zpsc.DacChan
