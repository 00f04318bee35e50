import Zpsc.Dac.DacCtrlr

/-!
# The serial lines of the four DACs (`dac_ctrlr.vhd`)

Every channel has its own SPI engine, but only the clock of channel 1 and the `n_sync` of channels 1
and 2 leave the FPGA: each DAC gets channel 1's clock, one of the two `n_sync` lines and the data
line of its own channel. What a DAC makes of its lines is `Receiver`.
-/

namespace Zpsc

namespace GainOffset

/-- Two stages at the same point of their sequence. -/
structure SameTiming (a b : Stage) : Prop where
  state : a.state = b.state
  multdlycnt : a.multdlycnt = b.multdlycnt
  done : a.done = b.done

end GainOffset

namespace Ad5781

/-- Two engines at the same point of their sequence. -/
structure SameTiming (a b : Spi) : Prop where
  present_state : a.present_state = b.present_state
  bit_count : a.bit_count = b.bit_count
  clk_count : a.clk_count = b.clk_count
  init_count : a.init_count = b.init_count
  setpoint_sent : a.setpoint_sent = b.setpoint_sent
  n_sync : a.n_sync = b.n_sync
  sclk : a.sclk = b.sclk

/-- The engine is at rest, as when the device is configured. -/
structure AtRest (s : Spi) : Prop where
  present_state : s.present_state = .IDLE
  bit_count : s.bit_count = 0
  clk_count : s.clk_count = 0

end Ad5781

/-! ## A DAC -/

/-- The lines of a DAC. -/
structure Lines where
  n_sync : Bool
  sclk : Bool
  sdi : Bool
  deriving DecidableEq

/-- The input stage of a DAC: its lines when it last looked at them, and the bits it has taken since
`n_sync` went low, the first one first. -/
structure Receiver where
  n_sync : Bool
  sclk : Bool
  bits : List Bool
  deriving DecidableEq

namespace Receiver

def init (l : Lines) : Receiver := ⟨l.n_sync, l.sclk, []⟩

/-- A DAC takes a bit at every falling edge of the clock while `n_sync` is low. -/
def step (r : Receiver) (l : Lines) : Receiver where
  n_sync := l.n_sync
  sclk := l.sclk
  bits := if l.n_sync then [] else if r.sclk && !l.sclk then r.bits ++ [l.sdi] else r.bits

/-- The word of 24 bits, the first one the most significant. -/
def word (bits : List Bool) : BitVec 24 := Bits.ofBits 24 fun j => bits.getD (23 - j) false

/-- A DAC accepts its word when `n_sync` goes high after exactly 24 bits. -/
def latch (r : Receiver) (l : Lines) : Option (BitVec 24) :=
  if !r.n_sync && l.n_sync && r.bits.length == 24 then some (word r.bits) else none

end Receiver

/-! ## The DACs of the four channels -/

namespace DacCtrlr

open Clocked

variable {ram : Dpram} {cordic : Cordic}

/-- All channels are at the same point of their sequences. -/
def Aligned (s : System ram cordic) : Prop :=
  ∀ c c', GainOffset.SameTiming (s.chan c).gain (s.chan c').gain ∧
    Ad5781.SameTiming (s.chan c).spi (s.chan c').spi

/-- The bit `dac_reset` of a channel. -/
def dacReset (i : In) (c : Chan) : Bool := (i.psIo.regs.chan c .dac_reset).getLsbD 0

/-- The lines of the DAC of channel `c`, whose `n_sync` comes from channel `sync`. -/
def lines (s : System ram cordic) (sync c : Chan) : Lines where
  n_sync := (s.chan sync).spi.n_sync
  sclk := (s.chan .ps1).spi.sclk
  sdi := Ad5781.sdo (s.chan c).spi

section

variable (s : System ram cordic) (inp : ℕ → In) (sync c : Chan)

/-- The DAC of channel `c` before clock `t`. -/
def receiver : ℕ → Receiver
  | 0 => .init (lines s sync c)
  | t + 1 => (receiver t).step (lines (trace step s inp (t + 1)) sync c)

/-- The word the DAC of channel `c` accepts at clock `t`. -/
def sampled (t : ℕ) : Option (BitVec 24) :=
  (receiver s inp sync c t).latch (lines (trace step s inp (t + 1)) sync c)

/-- The frame the engine of channel `c` loads at clock `t`. -/
def loaded (t : ℕ) : Option (BitVec 24) :=
  let s := trace step s inp t
  Ad5781.loaded (s.chan c).spi ((s.chan c).spiIn (chanIn s (inp t) c))

/-- The DAC of channel `c` gets the frames its own engine loads: what it accepts is the last frame
loaded, which it has not accepted before, and a frame is accepted 257 clocks after it was loaded
unless `dac_reset` stops it. -/
structure OwnFrames : Prop where
  /-- What is accepted was loaded last, and is accepted once. -/
  last : ∀ t f, sampled s inp sync c t = some f → ∃ u < t, loaded s inp c u = some f ∧
    (∀ v, u < v → v ≤ t → loaded s inp c v = none) ∧
    ∀ v, u < v → v < t → sampled s inp sync c v = none
  /-- What is loaded is accepted. -/
  all : ∀ u f, loaded s inp c u = some f →
    (∀ v, u < v → v < u + 257 → dacReset (inp v) c = false) →
    sampled s inp sync c (u + 257) = some f

end

end DacCtrlr

end Zpsc
