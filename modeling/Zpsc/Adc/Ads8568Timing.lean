import Zpsc.Adc.Ads8568

/-!
# When the monitor ADC converts (`adc_ads8568_intf.vhd`)

With the divider 5 a conversion takes 1694 clocks after a reset, and 6 clocks less from then on.
-/

namespace Zpsc.Ads8568

open Clocked

/-- `SPI_CLK_DIV` of the three ADCs. -/
def SPI_CLK_DIV : ℕ := 5

/-- The number of clocks that the interface, and the calibration after it, may need for a start. -/
def PERIOD : ℕ := 1710

/-- A reset at clock 0 and none later, and starts that leave time for a conversion. -/
structure Paced (inp : ℕ → In) : Prop where
  reset : ResetFirst inp
  apart : TicksApart PERIOD fun t => (inp t).start

/-- The interface waits for a start. -/
structure Quiet (s : Regs) : Prop where
  present_state : s.present_state = .IDLE
  data_rdy : s.data_rdy = false

/-- No start comes after clock `t` and before clock `v`. -/
def NoStart (inp : ℕ → In) (t v : ℕ) : Prop := ∀ u, t < u → u < v → (inp u).start = false

/-- What a start at clock `t` makes of the interface, up to the next start, when clock `e` is the
last of its conversion. -/
structure Converts (s : Regs) (inp : ℕ → In) (t e : ℕ) : Prop where
  conversion : Conversion SPI_CLK_DIV s inp t e
  ge : t + 1687 ≤ e
  le : e ≤ t + 1693
  before : ∀ v, t < v → v ≤ e → (regs SPI_CLK_DIV s inp v).data_rdy = false
  /-- `data_rdy` comes with the end of the conversion. -/
  rdy : (regs SPI_CLK_DIV s inp (e + 1)).data_rdy = true
  /-- From one clock later on the interface waits, until the next start. -/
  after : ∀ v, e + 1 < v → NoStart inp t v → Quiet (regs SPI_CLK_DIV s inp v)

end Zpsc.Ads8568
