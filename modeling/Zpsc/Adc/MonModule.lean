import Zpsc.Adc.Ads8568Timing
import Zpsc.Adc.GainOffsetTiming
import Zpsc.PscPkg

/-!
# The monitor readings (`adc_8ch_module.vhd`)

Three ADCs with eight inputs each are started together and clocked by the outputs of the first one.
The words of a conversion are sorted by power supply, in one way for four channels and in another
for two, and then calibrated; the `data_rdy` of the first ADC starts the four calibrations. The
counter `count` goes to no port and is left out.
-/

namespace Zpsc.MonModule

open Bits Clocked
open AdcGainOffset (Mon Params Stage mon_gainoffset)

/-! ## The source -/

structure In where
  reset : Bool
  start : Bool
  /-- Selects the mapping for two channels or the one for four. -/
  numchan_sel : Bool
  mon_params : Chan → Params Mon 16
  /-- The serial lines of the three ADCs. -/
  sdo : Fin 3 → Bool

/-- `adc1_8ch` .. `adc3_8ch` are numbered from 0. -/
structure Regs where
  adc_8ch : Fin 3 → Ads8568.Regs
  /-- The words of the ADCs, sorted by channel. -/
  mon_adcs_in : Chan → Mon → BitVec 16
  gainoff : Chan → Stage Mon 16

/-- The ports of an ADC. -/
def adcIn (k : Fin 3) (i : In) : Ads8568.In := ⟨i.reset, i.start, i.sdo k⟩

def conv_done (s : Regs) : Bool := (s.adc_8ch 0).data_rdy

/-- The ADC whose outputs go to all three. -/
def firstAdc (s : Regs) : Ads8568.Regs := s.adc_8ch 0

/-- The bits `lo + 15` .. `lo`. -/
def slice (x : BitVec 128) (lo : ℕ) : BitVec 16 := x.extractLsb' lo 16

/-- The mapping for four channels. -/
def fourChannels (adc1 adc2 adc3 : BitVec 128) : Chan → Mon → BitVec 16
  | .ps1, .dacmon => slice adc1 112
  | .ps3, .dacmon => slice adc1 96
  | .ps2, .dacmon => slice adc1 80
  | .ps4, .dacmon => slice adc1 64
  | .ps1, .voltage => slice adc1 48
  | .ps1, .spare => slice adc1 32
  | .ps1, .ignd => slice adc1 16
  | .ps2, .voltage => slice adc1 0
  | .ps2, .ignd => slice adc2 112
  | .ps3, .voltage => slice adc2 96
  | .ps2, .spare => slice adc2 80
  | .ps3, .ignd => slice adc2 64
  | .ps3, .spare => slice adc2 48
  | .ps4, .ignd => slice adc2 32
  | .ps4, .voltage => slice adc2 16
  | .ps4, .spare => slice adc2 0
  | .ps1, .ps_reg => slice adc3 112
  | .ps2, .ps_reg => slice adc3 96
  | .ps1, .ps_error => slice adc3 80
  | .ps2, .ps_error => slice adc3 64
  | .ps3, .ps_reg => slice adc3 48
  | .ps4, .ps_reg => slice adc3 32
  | .ps3, .ps_error => slice adc3 16
  | .ps4, .ps_error => slice adc3 0

/-- The mapping for two channels. -/
def twoChannels (adc1 adc2 : BitVec 128) : Chan → Mon → BitVec 16
  | .ps1, .dacmon => slice adc1 112
  | .ps1, .voltage => slice adc1 96
  | .ps2, .dacmon => slice adc1 80
  | .ps1, .ignd => slice adc1 64
  | .ps1, .spare => slice adc1 48
  | .ps2, .voltage => slice adc1 32
  | .ps2, .ignd => slice adc2 112
  | .ps1, .ps_reg => slice adc2 96
  | .ps2, .spare => slice adc2 80
  | .ps1, .ps_error => slice adc2 64
  | .ps2, .ps_reg => slice adc2 48
  | .ps2, .ps_error => slice adc2 32
  | .ps3, _ | .ps4, _ => 0

/-- The process that fills `mon_adcs_in`. -/
def mapping (numchan_sel : Bool) (x : Fin 3 → BitVec 128) : Chan → Mon → BitVec 16 :=
  if numchan_sel then fourChannels (x 0) (x 1) (x 2) else twoChannels (x 0) (x 1)

/-- The ports of a calibration. -/
def gainIn (c : Chan) (s : Regs) (i : In) : AdcGainOffset.In Mon 16 :=
  ⟨i.reset, conv_done s, s.mon_adcs_in c, i.mon_params c⟩

/-- One rising edge of `clk`. -/
def step (s : Regs) (i : In) : Regs where
  adc_8ch := fun k => Ads8568.step Ads8568.SPI_CLK_DIV (s.adc_8ch k) (adcIn k i)
  mon_adcs_in := mapping i.numchan_sel fun k => (s.adc_8ch k).data_out
  gainoff := fun c => mon_gainoffset (s.gainoff c) (gainIn c s i)

def mon_adcs (s : Regs) (c : Chan) : Mon → BitVec 16 := (s.gainoff c).out

/-! ## The wiring -/

/-- The ADC and the input that a monitor is wired to, in a supply of four or of two channels. -/
def wiring (numchan_sel : Bool) (c : Chan) (q : Mon) : Option (Fin 3 × ℕ) :=
  if numchan_sel then
    match c, q with
    | .ps1, .dacmon => some (0, 0)
    | .ps3, .dacmon => some (0, 1)
    | .ps2, .dacmon => some (0, 2)
    | .ps4, .dacmon => some (0, 3)
    | .ps1, .voltage => some (0, 4)
    | .ps1, .spare => some (0, 5)
    | .ps1, .ignd => some (0, 6)
    | .ps2, .voltage => some (0, 7)
    | .ps2, .ignd => some (1, 0)
    | .ps3, .voltage => some (1, 1)
    | .ps2, .spare => some (1, 2)
    | .ps3, .ignd => some (1, 3)
    | .ps3, .spare => some (1, 4)
    | .ps4, .ignd => some (1, 5)
    | .ps4, .voltage => some (1, 6)
    | .ps4, .spare => some (1, 7)
    | .ps1, .ps_reg => some (2, 0)
    | .ps2, .ps_reg => some (2, 1)
    | .ps1, .ps_error => some (2, 2)
    | .ps2, .ps_error => some (2, 3)
    | .ps3, .ps_reg => some (2, 4)
    | .ps4, .ps_reg => some (2, 5)
    | .ps3, .ps_error => some (2, 6)
    | .ps4, .ps_error => some (2, 7)
  else
    match c, q with
    | .ps1, .dacmon => some (0, 0)
    | .ps1, .voltage => some (0, 1)
    | .ps2, .dacmon => some (0, 2)
    | .ps1, .ignd => some (0, 3)
    | .ps1, .spare => some (0, 4)
    | .ps2, .voltage => some (0, 5)
    | .ps2, .ignd => some (1, 0)
    | .ps1, .ps_reg => some (1, 1)
    | .ps2, .spare => some (1, 2)
    | .ps1, .ps_error => some (1, 3)
    | .ps2, .ps_reg => some (1, 4)
    | .ps2, .ps_error => some (1, 5)
    | .ps3, _ | .ps4, _ => none

/-! ## What a start reads -/

section Run

variable (s : Regs) (inp : ℕ → In)

/-- The registers before clock `t`, from the registers `s`. -/
def regs (t : ℕ) : Regs := trace step s inp t

/-- A reset at clock 0 and none later, and starts that leave time for a conversion. -/
def Paced : Prop := Ads8568.Paced fun t => adcIn 0 (inp t)

/-- No calibration is on when the device is configured; the reset does not stop one. -/
def NoPass : Prop := ∀ c, (s.gainoff c).state = .IDLE ∧ (s.gainoff c).conv_done_last = false

/-- What a line has at the clocks at which `sclk` of the first ADC falls. -/
def lineBits (k : Fin 3) (a b : ℕ) : List Bool :=
  sampled (Ads8568.sclkFalls Ads8568.SPI_CLK_DIV (s.adc_8ch 0) fun v => adcIn 0 (inp v))
    (fun v => (inp v).sdo k) a b

/-- `word` is the reading of a monitor in the conversion of a start at clock `t` whose last clock
is `e`: the 16 bits of its input on the line of its ADC, or 0 where nothing is wired. -/
def Reads (t e : ℕ) (c : Chan) (q : Mon) (word : BitVec 16) : Prop :=
  match wiring (inp (e + 1)).numchan_sel c q with
  | some (k, input) => msbFirst word = ((lineBits s inp k t (e + 1)).drop (16 * input)).take 16
  | none => word = 0

/-- The word less its offset, times its gain; the parameters are taken after the conversion. -/
def calibrated (e : ℕ) (c : Chan) (q : Mon) (word : BitVec 16) : BitVec 16 :=
  AdcGainOffset.fixed_mul (word - ((inp (e + 2)).mon_params c).offset q)
    (((inp (e + 3)).mon_params c).gain q) 4

end Run

end Zpsc.MonModule
