import Zpsc.Adc.GainOffsetTiming
import Zpsc.Adc.Ltc2376Timing
import Zpsc.PscPkg

/-!
# The DCCT readings (`dcct_adc_module.vhd`)

Four ADCs with two DCCTs each are started together and clocked by the outputs of the first one; each
has a calibration of its own, which the `data_rdy` of the first ADC starts. Of the calibrations only
`done` of the first one goes out.
-/

namespace Zpsc.DcctModule

open Bits Clocked
open AdcGainOffset (Dcct Params Stage dcct_gainoffset Waits)

/-! ## The source -/

structure In where
  reset : Bool
  start : Bool
  /-- 1 is 20 bits, 0 is 18 bits. -/
  numbits_sel : Bool
  dcct_params : Chan → Params Dcct 20
  /-- The serial line of the ADC of a channel. -/
  sdi : Chan → Bool

structure Regs where
  dcct_adc : Chan → Ltc2376.Regs
  gainoff_adc : Chan → Stage Dcct 20

/-- The ports of an ADC. -/
def adcIn (c : Chan) (i : In) : Ltc2376.In := ⟨i.reset, i.start, i.numbits_sel, i.sdi c⟩

/-- `dcct(0)` .. `dcct(7)`. -/
def dcct (s : Regs) (c : Chan) : Dcct → BitVec 20
  | .dcct0 => (s.dcct_adc c).dcct1
  | .dcct1 => (s.dcct_adc c).dcct2

def conv_done (s : Regs) : Bool := (s.dcct_adc .ps1).data_rdy

/-- The ports of a calibration. -/
def gainIn (c : Chan) (s : Regs) (i : In) : AdcGainOffset.In Dcct 20 :=
  ⟨i.reset, conv_done s, dcct s c, i.dcct_params c⟩

/-- One rising edge of `clk`. -/
def step (s : Regs) (i : In) : Regs where
  dcct_adc := fun c => Ltc2376.step (s.dcct_adc c) (adcIn c i)
  gainoff_adc := fun c => dcct_gainoffset (s.gainoff_adc c) (gainIn c s i)

def dcct_out (s : Regs) (c : Chan) : DcctAdcs :=
  ⟨(s.gainoff_adc c).out .dcct0, (s.gainoff_adc c).out .dcct1⟩

def done (s : Regs) : Bool := (s.gainoff_adc .ps1).done

/-! ## What a start reads -/

section Run

variable (s : Regs) (inp : ℕ → In)

/-- The registers before clock `t`, from the registers `s`. -/
def regs (t : ℕ) : Regs := trace step s inp t

/-- A reset at clock 0 and none later, and starts that leave time for a conversion. -/
def Paced : Prop := Ltc2376.Paced fun t => adcIn .ps1 (inp t)

/-- No calibration is on when the device is configured; the reset does not stop one. -/
def NoPass : Prop := ∀ c, (s.gainoff_adc c).state = .IDLE ∧ (s.gainoff_adc c).conv_done_last = false

/-- The last clock of the conversion of a start at clock `t`. -/
def lastClock (t : ℕ) : ℕ := Ltc2376.lastClock (fun v => adcIn .ps1 (inp v)) t

/-- What the line of a channel has at the clocks at which the first ADC samples its own. -/
def lineBits (c : Chan) (a b : ℕ) : List Bool :=
  sampled (Ltc2376.samples (s.dcct_adc .ps1) fun v => adcIn .ps1 (inp v)) (fun v => (inp v).sdi c)
    a b

/-- The word less its offset, times its gain; the parameters are taken after the conversion. -/
def calibrated (t : ℕ) (c : Chan) (q : Dcct) (word : BitVec 20) : BitVec 20 :=
  -AdcGainOffset.fixed_mul (word - ((inp (lastClock inp t + 2)).dcct_params c).offset q)
    (((inp (lastClock inp t + 3)).dcct_params c).gain q) 4

/-- The words of the conversion of a start at clock `t`: while the resolution stays the same they
are those on the line of the channel. -/
def Words (t : ℕ) (c : Chan) (w : Dcct → BitVec 20) : Prop :=
  ∀ r, (∀ v, Ltc2376.nextEnable t ≤ v → v ≤ lastClock inp t → (inp v).numbits_sel = r) →
    Ltc2376.Words r (lineBits s inp c (Ltc2376.nextEnable t) (lastClock inp t)) (w .dcct1)
      (w .dcct0)

end Run

end Zpsc.DcctModule
