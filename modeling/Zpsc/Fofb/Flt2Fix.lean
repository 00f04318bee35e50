import Mathlib.Data.Nat.Count
import Zpsc.Bits.CConv
import Zpsc.Clocked.DelayLine
import Zpsc.Fofb.UdpRx

/-!
# From a received setpoint to the DAC clock (`fofb_flt2fix.vhd`, `fofb_top.vhd`)

`fofb_flt2fix` multiplies a received setpoint with the scale factor of its channel, converts the
product to an integer and hands it over from `fofb_clk` to `pl_clk0`: the `fofb_clk` side flips a
toggle with every new value, the `pl_clk0` side takes the value when it sees the toggle change. A
run is a sequence of edges of the two clocks in any order. The output `data_rdy`, which feeds
nothing, is left out.
-/

namespace Zpsc

open Clocked

/-- What is used of the floating-point cores. `fp_mult` is exact, and `float_to_fix` rounds to
nearest. -/
structure Cores where
  /-- The number that a word stands for. -/
  val : BitVec 32 → ℚ
  /-- The rounding of `float_to_fix`. -/
  round : ℚ → ℤ
  nearest : ∀ x, |(round x : ℚ) - x| ≤ 1 / 2

namespace Flt2Fix

def multLatency : ℕ := 8

def fixLatency : ℕ := 6

/-- The registers of `fofb_flt2fix` and of its two cores. -/
structure Regs where
  /-- What is in the multiplier. -/
  mult : DelayLine ℚ
  /-- What is in `float_to_fix`. -/
  fix : DelayLine (BitVec 24)
  /-- The last result. -/
  setpt : BitVec 20
  /-- Toggles with each result. -/
  fofb_data_toggle : Bool
  /-- `fofb_data_toggle` at the last edge of `pl_clk0`. -/
  toggle_seen : Bool
  /-- This and the next three take the toggle to `pl_clk0`. -/
  data_toggle_meta : Bool
  data_toggle_sync1 : Bool
  data_toggle_sync2 : Bool
  data_toggle_prev : Bool
  /-- The setpoint in the clock domain of the DAC. -/
  fofb_setpt : BitVec 20

/-- The result of `float_to_fix`: a signed 24-bit integer, saturated. -/
def toFix (co : Cores) (x : ℚ) : BitVec 24 :=
  BitVec.ofInt 24 (max (-2 ^ 23) (min (co.round x) (2 ^ 23 - 1)))

def fofbEdge (co : Cores) (s : Regs) (fofb_new : Bool) (fofb_setpt_flt scale_factor : BitVec 32) :
    Regs :=
  let s' := { s with
    mult := s.mult.push
      (if fofb_new then some (co.val scale_factor * co.val fofb_setpt_flt) else none)
    fix := s.fix.push ((s.mult.out multLatency).map (toFix co)) }
  match s.fix.out fixLatency with
  | some setptout_fp =>
    { s' with
      setpt := setptout_fp.extractLsb' 0 20
      fofb_data_toggle := !s.fofb_data_toggle }
  | none => s'

/-- One rising edge of `pl_clk0`. A toggle that has changed since the last edge may be sampled as it
was or as it is. -/
def plEdge (s : Regs) (sampled : Bool) : Regs :=
  { s with
    toggle_seen := s.fofb_data_toggle
    data_toggle_meta := if sampled then s.fofb_data_toggle else s.toggle_seen
    data_toggle_sync1 := s.data_toggle_meta
    data_toggle_sync2 := s.data_toggle_sync1
    data_toggle_prev := s.data_toggle_sync2
    fofb_setpt := if s.data_toggle_sync2 ≠ s.data_toggle_prev then s.setpt else s.fofb_setpt }

/-- Nothing is on its way. -/
structure Quiet (s : Regs) : Prop where
  mult : s.mult = .empty
  fix : s.fix = .empty
  seen : s.toggle_seen = s.fofb_data_toggle
  meta_ : s.data_toggle_meta = s.fofb_data_toggle
  sync1 : s.data_toggle_sync1 = s.fofb_data_toggle
  sync2 : s.data_toggle_sync2 = s.fofb_data_toggle
  prev : s.data_toggle_prev = s.fofb_data_toggle

end Flt2Fix

/-! ## `fofb_top` -/

/-- The registers of `fofb_top`: the receiver and one conversion per channel. -/
structure FofbTop where
  rx : UdpRx.Rx
  flt2fix : Chan → Flt2Fix.Regs

namespace FofbTop

/-- An edge of one of the two clocks, with what is sampled at it. -/
inductive Edge where
  | fofb_clk (i : UdpRx.In)
  | pl_clk0 (sampled : Chan → Bool)

def Edge.isFofb : Edge → Bool
  | .fofb_clk _ => true
  | .pl_clk0 _ => false

def Edge.scale (c : Chan) : Edge → BitVec 32
  | .fofb_clk i => i.fofb_params.scalefactor c
  | .pl_clk0 _ => 0

def step (co : Cores) (s : FofbTop) : Edge → FofbTop
  | .fofb_clk i =>
    { rx := UdpRx.step s.rx i
      flt2fix := fun c =>
        Flt2Fix.fofbEdge co (s.flt2fix c) s.rx.rx_done (s.rx.fofb_stat.setpt_flt c)
          (i.fofb_params.scalefactor c) }
  | .pl_clk0 sampled => { s with flt2fix := fun c => Flt2Fix.plEdge (s.flt2fix c) (sampled c) }

section Runs

variable (co : Cores) (s : FofbTop) (ev : ℕ → Edge)

/-- An accepted packet is handed on at edge `a`: `rx_done` is high at an edge of `fofb_clk`. -/
def Packet (a : ℕ) : Prop := (ev a).isFofb = true ∧ (trace (step co) s ev a).rx.rx_done = true

/-- `a` is the newest packet before edge `t`. -/
def Newest (a t : ℕ) : Prop := Packet co s ev a ∧ a < t ∧ ∀ b, a < b → b < t → ¬ Packet co s ev b

/-- The number of edges of `fofb_clk` from `a` to before `t`. -/
def fofbEdges (a t : ℕ) : ℕ :=
  Nat.count (fun b => (ev b).isFofb = true) t - Nat.count (fun b => (ev b).isFofb = true) a

/-- The number of edges of `pl_clk0` from `a` to before `t`. -/
def plEdges (a t : ℕ) : ℕ :=
  Nat.count (fun b => (ev b).isFofb = false) t - Nat.count (fun b => (ev b).isFofb = false) a

/-- The time a packet has: 40 edges of `fofb_clk` and 20 of `pl_clk0`. -/
def TimeUp (a t : ℕ) : Prop := 40 ≤ fofbEdges ev a t ∧ 20 ≤ plEdges ev a t

/-- Packets leave each other the time they have. -/
def Spaced : Prop := ∀ a t, Newest co s ev a t → Packet co s ev t → TimeUp ev a t

/-- The setpoint of channel `c` after packet `a`, scaled. -/
def scaled (c : Chan) (a : ℕ) : ℚ :=
  co.val ((ev a).scale c) * co.val ((trace (step co) s ev a).rx.fofb_stat.setpt_flt c)

/-- What packet `a` asks for. -/
def wanted (c : Chan) (a : ℕ) : ℤ :=
  max (-2 ^ 19) (min (co.round (scaled co s ev c a)) (2 ^ 19 - 1))

def setptOut (c : Chan) (t : ℕ) : BitVec 20 := ((trace (step co) s ev t).flt2fix c).fofb_setpt

/-- `x` is what the packet before packet `a` asked for, or the setpoint at the start if there is
none. -/
def Older (c : Chan) (a : ℕ) (x : BitVec 20) : Prop :=
  (∃ b, Newest co s ev b a ∧ x.toInt = wanted co s ev c b) ∨
    ((∀ b < a, ¬ Packet co s ev b) ∧ x = setptOut co s ev c 0)

/-- The hand-over of a run: each packet's setpoint is there when its time is up, and until then the
output is that setpoint or the one before. -/
structure HandsOver (c : Chan) : Prop where
  initial : ∀ t, (∀ b < t, ¬ Packet co s ev b) → setptOut co s ev c t = setptOut co s ev c 0
  between : ∀ a t, Newest co s ev a t →
    (setptOut co s ev c t).toInt = wanted co s ev c a ∨ Older co s ev c a (setptOut co s ev c t)
  arrived : ∀ a t, Newest co s ev a t → TimeUp ev a t →
    (setptOut co s ev c t).toInt = wanted co s ev c a

/-- The low 20 bits of the saturated 24-bit integer are `v` limited to 20 bits. -/
def Fits (v : ℤ) : Prop :=
  (-2 ^ 19 ≤ v ∧ v < 2 ^ 19) ∨ (2 ^ 19 ≤ v ∧ v < 2 ^ 23 ∧ v % 2 ^ 20 = 2 ^ 19 - 1) ∨
    (-2 ^ 23 ≤ v ∧ v < -2 ^ 19 ∧ v % 2 ^ 20 = 2 ^ 19)

instance (v : ℤ) : Decidable (Fits v) := inferInstanceAs (Decidable (_ ∨ _ ∨ _))

/-- The edges of `pl_clk0` do not all come before the conversion is done: of the time a packet has,
5 edges come after the 15th edge of `fofb_clk`. -/
def Unbunched : Prop := ∀ a t, Newest co s ev a t → TimeUp ev a t →
  ∃ u ≤ t, 15 ≤ fofbEdges ev a u ∧ 5 ≤ plEdges ev u t

end Runs

end FofbTop

end Zpsc
