import Zpsc.Bits.Serial
import Zpsc.Clocked.Run
import Zpsc.Clocked.Sampled
import Zpsc.Dac.DacChan

/-!
# The frames of a DAC (`dac_ad5781.vhd`)

A start sends two frames of 24 bits, each while `n_sync` is low: the control register and the
setpoint. The first starts after a reset are meant to reset the DAC by its software control register
instead.
-/

namespace Zpsc.Ad5781

open Bits Clocked

section Run

variable (SPI_CLK_DIV : ℕ) (s : Spi) (inp : ℕ → In)

/-- The registers before clock `t`, from the registers `s`. -/
def regs (t : ℕ) : Spi := trace (step SPI_CLK_DIV) s inp t

/-! ## Frames -/

/-- A reset at clock 0 and none later. -/
def ResetFirst : Prop := (inp 0).reset = true ∧ ∀ t, 0 < t → (inp t).reset = false

/-- `n_sync` falls at clock `a` and rises at clock `b`, and is low in between. -/
structure SyncLow (a b : ℕ) : Prop where
  lt : a < b
  fall : (regs SPI_CLK_DIV s inp a).n_sync = true
  low : ∀ v, a < v → v ≤ b → (regs SPI_CLK_DIV s inp v).n_sync = false
  rise : (regs SPI_CLK_DIV s inp (b + 1)).n_sync = true

/-- `sclk` falls at clock `t`. -/
def sclkFalls (t : ℕ) : Bool :=
  (regs SPI_CLK_DIV s inp t).sclk && !(regs SPI_CLK_DIV s inp (t + 1)).sclk

/-- `sdo` at the falling edges of `sclk` from clock `a` on and before clock `b`. -/
def sdoBits (a b : ℕ) : List Bool :=
  sampled (sclkFalls SPI_CLK_DIV s inp) (fun t => sdo (regs SPI_CLK_DIV s inp t)) a b

/-- There is a transmission between the clocks `a` and `b`: its first bit is sent. -/
def Transmits (a b : ℕ) : Prop :=
  ∃ v, a < v ∧ v ≤ b ∧ (regs SPI_CLK_DIV s inp v).present_state = .FIRST_BIT

/-- The word that is loaded into `shift_reg` at clock `t`. -/
def loads (t : ℕ) : Option (BitVec 24) := loaded (regs SPI_CLK_DIV s inp t) (inp t)

/-- `w` is the last word that is loaded before clock `a`. -/
def LastLoaded (w : BitVec 24) (a : ℕ) : Prop :=
  ∃ v < a, loads SPI_CLK_DIV s inp v = some w ∧
    ∀ u, v < u → u < a → loads SPI_CLK_DIV s inp u = none

/-- While `n_sync` is low, there is one transmission with the 24 bits of the word that has been
loaded for it, or `sclk` does not fall. -/
def FramesSpelled : Prop :=
  ∀ a b, SyncLow SPI_CLK_DIV s inp a b →
    (Transmits SPI_CLK_DIV s inp a b →
      ∃ w, LastLoaded SPI_CLK_DIV s inp w a ∧ sdoBits SPI_CLK_DIV s inp a b = msbFirst w) ∧
    (¬ Transmits SPI_CLK_DIV s inp a b → sdoBits SPI_CLK_DIV s inp a b = [])

/-- `n_sync` falls at clock `t` for a transmission. -/
def frameStarts (t : ℕ) : Bool :=
  (regs SPI_CLK_DIV s inp t).n_sync && !(regs SPI_CLK_DIV s inp (t + 1)).n_sync &&
    (regs SPI_CLK_DIV s inp (t + 1)).present_state == .FIRST_BIT

/-- The words of the transmissions for which `n_sync` falls from clock `a` on and before clock
`b`. -/
def frames (a b : ℕ) : List (BitVec 24) :=
  sampled (frameStarts SPI_CLK_DIV s inp) (fun t => (regs SPI_CLK_DIV s inp t).shift_reg) a b

/-- A start that is accepted after the initialisation sends two frames before the next one is
accepted: the control register, and the data registered when the second frame is loaded. -/
def TwoFrames : Prop :=
  ∀ t, 0 < t → (regs SPI_CLK_DIV s inp t).present_state = .IDLE →
    (regs SPI_CLK_DIV s inp t).init_count = 2 → (inp t).start = true →
    ∃ v u, t < v ∧ v < u ∧ (regs SPI_CLK_DIV s inp u).present_state = .IDLE ∧
      (∀ w, t < w → w < u → (regs SPI_CLK_DIV s inp w).present_state ≠ .IDLE) ∧
      (regs SPI_CLK_DIV s inp v).present_state = .SEND_SETPOINT ∧
      frames SPI_CLK_DIV s inp t u =
        [ctrlFrame (regs SPI_CLK_DIV s inp (t + 1)), setpointFrame (regs SPI_CLK_DIV s inp v)] ∧
      sdoBits SPI_CLK_DIV s inp t u =
        msbFirst (ctrlFrame (regs SPI_CLK_DIV s inp (t + 1))) ++
          msbFirst (setpointFrame (regs SPI_CLK_DIV s inp v))

/-- Starts that come outside `IDLE` make no difference. -/
def StartsIgnored : Prop :=
  ∀ inp' : ℕ → In, (∀ t, inp' t = { inp t with start := (inp' t).start }) →
    (∀ t, (regs SPI_CLK_DIV s inp t).present_state = .IDLE → (inp' t).start = (inp t).start) →
    ∀ t, regs SPI_CLK_DIV s inp' t = regs SPI_CLK_DIV s inp t

/-! ## The initialisation -/

/-- The word `w` is completely shifted out between the clocks `a` and `b`. -/
def ShiftedOut (w : BitVec 24) (a b : ℕ) : Prop :=
  SyncLow SPI_CLK_DIV s inp a b ∧ sdoBits SPI_CLK_DIV s inp a b = msbFirst w

/-- A frame for the control register is sent only after the DAC has been reset and the reset has
been cleared. -/
def Initialised : Prop :=
  ∀ t, 0 < t → (regs SPI_CLK_DIV s inp t).present_state = .SEND_CTRL_REG →
    ∃ a b a' b', ShiftedOut SPI_CLK_DIV s inp 0x400004 a b ∧ b < a' ∧
      ShiftedOut SPI_CLK_DIV s inp 0x400000 a' b' ∧ b' < t

/-- The number of clocks from a start that finds the interface idle after a reset to the end of its
two frames. -/
def firstStart (SPI_CLK_DIV : ℕ) : ℕ := 98 * SPI_CLK_DIV + 54

/-- The second start is accepted: there are two starts as far apart as the first two frames take,
and these come to an end. -/
def StartedTwice : Prop :=
  DivOk SPI_CLK_DIV ∧ ∃ f t, 0 < f ∧ f + firstStart SPI_CLK_DIV ≤ t ∧ (inp f).start = true ∧
    (inp t).start = true

end Run

end Zpsc.Ad5781
