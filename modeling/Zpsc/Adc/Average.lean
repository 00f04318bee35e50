import Mathlib.Data.Nat.Nth
import Zpsc.Bits.NumericStd
import Zpsc.Clocked.Run
import Zpsc.Clocked.Window

/-!
# Moving average (`average.vhd`)

A start stores a sample in a RAM and adds the RAM up. The place for the next sample (`ram_cnt`) and
the place that is read (`addr_cnt`) both start again when they are at `addr_max`.
-/

namespace Zpsc.Average

open Bits Clocked

/-! ## The source -/

inductive State where
  | IDLE | WRITE_TO_RAM | ACCUMULATE | FINISHED
  deriving DecidableEq, Repr

structure In where
  reset : Bool
  start : Bool
  /-- The sample. -/
  data_in : BitVec 20
  /-- The mode. -/
  sel : BitVec 2
  deriving DecidableEq, Repr

/-- The registers. The counters are `integer`s; the RAM has the slots below 500. -/
structure Regs where
  present_state : State
  /-- The samples. -/
  ram : ℕ → BitVec 20
  /-- The sum so far. -/
  accum : BitVec 29
  /-- The slot that is added next. -/
  addr_cnt : ℕ
  /-- The number of slots that the mode adds up. -/
  addr_max : ℕ
  /-- The slot that the next sample goes to. -/
  ram_cnt : ℕ
  mode : BitVec 2
  avg_out : BitVec 32
  done : Bool

/-- The initial values; `mode`, `avg_out` and `done` have none. -/
def powerUp (mode : BitVec 2) (avg_out : BitVec 32) (done : Bool) : Regs where
  present_state := .IDLE
  ram := fun _ => 0
  accum := 0
  addr_cnt := 500
  addr_max := 0
  ram_cnt := 0
  mode := mode
  avg_out := avg_out
  done := done

/-- The process `storage`. -/
def storage (s : Regs) (i : In) : Regs :=
  if i.reset then { s with addr_cnt := 0, accum := 0, present_state := .IDLE, done := false }
  else match s.present_state with
  | .IDLE =>
    if i.start then
      match s.mode with
      | 0b00#2 =>
        { s with done := false, accum := sresize 29 i.data_in, present_state := .FINISHED }
      | 0b01#2 => { s with done := false, addr_max := 167, present_state := .WRITE_TO_RAM }
      | 0b10#2 => { s with done := false, addr_max := 500, present_state := .WRITE_TO_RAM }
      | _ => { s with done := false, addr_max := 10, present_state := .WRITE_TO_RAM }
    else { s with done := false }
  | .WRITE_TO_RAM =>
    if s.ram_cnt = s.addr_max then { s with ram_cnt := 0, present_state := .ACCUMULATE }
    else
      { s with
        ram := Function.update s.ram s.ram_cnt i.data_in
        ram_cnt := s.ram_cnt + 1
        present_state := .ACCUMULATE }
  | .ACCUMULATE =>
    if s.addr_cnt = s.addr_max then { s with addr_cnt := 0, present_state := .FINISHED }
    else
      { s with
        accum := s.accum + sresize 29 (s.ram s.addr_cnt)
        addr_cnt := s.addr_cnt + 1 }
  | .FINISHED =>
    { s with avg_out := sresize 32 s.accum, accum := 0, done := true, present_state := .IDLE }

/-- One rising edge of `clk`: `mode` follows `sel`. -/
def step (s : Regs) (i : In) : Regs := { storage s i with mode := i.sel }

/-- The registers before clock `t`, from the registers `s`. -/
def regs (s : Regs) (inp : ℕ → In) (t : ℕ) : Regs := trace step s inp t

/-! ## The intended window -/

/-- The value that a start in a mode gives `addr_max`, in the modes that add up samples. -/
def addrMax (mode : BitVec 2) : ℕ :=
  match mode with
  | 0b01#2 => 167
  | 0b10#2 => 500
  | _ => 10

/-- Starts of one clock at least 510 clocks apart, in the mode `m`. The sample of a start stays
until the next start, and resets come before the first start only. -/
structure Regular (m : BitVec 2) (inp : ℕ → In) : Prop where
  sel : ∀ t, (inp t).sel = m
  apart : TicksApart 510 fun t => (inp t).start
  held : ∀ t u, (inp t).start = true → t ≤ u →
    (∀ v, t < v → v ≤ u → (inp v).start = false) → (inp u).data_in = (inp t).data_in
  no_reset : ∀ t u, (inp t).start = true → t ≤ u → (inp u).reset = false

/-- The number of starts before clock `t`. -/
def startsBefore (inp : ℕ → In) (t : ℕ) : ℕ := Nat.count (fun u => (inp u).start = true) t

/-- The sample of start number `n`. -/
noncomputable def sample (inp : ℕ → In) (n : ℕ) : ℤ :=
  (inp (Nat.nth (fun u => (inp u).start = true) n)).data_in.toInt

/-- The start at clock `t` is done before another start comes, and `avg_out` is `v` then. -/
def Produces (s : Regs) (inp : ℕ → In) (t : ℕ) (v : ℤ) : Prop :=
  ∃ u, t < u ∧
    (∀ w, t < w → w < u → (regs s inp w).done = false ∧ (inp w).start = false) ∧
    (regs s inp u).done = true ∧ (regs s inp u).avg_out.toInt = v

/-- A clock that adds a slot to `accum` adds its number. -/
def AddsUp (s : Regs) (inp : ℕ → In) : Prop :=
  ∀ t, (inp t).reset = false → (regs s inp t).present_state = .ACCUMULATE →
    (regs s inp t).addr_cnt ≠ (regs s inp t).addr_max →
    (regs s inp (t + 1)).accum.toInt =
      (regs s inp t).accum.toInt + ((regs s inp t).ram (regs s inp t).addr_cnt).toInt

/-- Every start puts out the sum of the `addr_max` last samples, its own among them, and the sums do
not overflow. -/
def Windowed (m : BitVec 2) (s : Regs) (inp : ℕ → In) : Prop :=
  (∀ t, (inp t).start = true →
    Produces s inp t (Window.windowSum (sample inp) (addrMax m) (startsBefore inp t))) ∧
  AddsUp s inp

/-! ## Where it is met -/

/-- Neither a start nor a reset has come before clock `t`. -/
def Untouched (inp : ℕ → In) (t : ℕ) : Prop :=
  ∀ u < t, (inp u).start = false ∧ (inp u).reset = false

/-- The first start comes after a reset, or in the mode of 500 samples with a sample of 0: at
power-up `addr_cnt` is 500. -/
def FirstOk (m : BitVec 2) (inp : ℕ → In) : Prop :=
  ∀ t, (inp t).start = true → Untouched inp t →
    addrMax m = 500 ∧ (inp t).data_in.toInt = 0

/-- At each start the sample that has just left the window is equal to the one that the RAM has not
stored, which came with the last wrap of `ram_cnt`. -/
def SkipsEqual (m : BitVec 2) (inp : ℕ → In) : Prop :=
  ∀ t, (inp t).start = true →
    Window.ago (sample inp) (startsBefore inp t) (addrMax m) =
      Window.ago (sample inp) (startsBefore inp t) ((startsBefore inp t + 1) % (addrMax m + 1))

end Zpsc.Average
