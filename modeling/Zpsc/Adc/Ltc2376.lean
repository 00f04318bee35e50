import Zpsc.Bits.Serial
import Zpsc.Clocked.Run
import Zpsc.Clocked.Sampled

/-!
# The DCCT ADC (`adc_ltc2376.vhd`)

A conversion takes two words from `sdi`, the most significant bit first, at a clock enable of every
fifth clock. Its bits are stored from bit `num_bits - 1` of one register down to bit 0.
-/

namespace Zpsc.Ltc2376

open Bits Clocked

/-! ## The source -/

inductive State where
  | IDLE | SET_CNV | WAIT_FOR_NOT_BUSY | SCLK_HI | SCLK_LO | DONE
  deriving DecidableEq, Repr

structure In where
  reset : Bool
  start : Bool
  /-- 1 is 20 bits, 0 is 18 bits. -/
  resolution : Bool
  sdi : Bool
  deriving DecidableEq, Repr

structure Regs where
  state : State
  shift_reg : BitVec 40
  /-- The clock enables in `SET_CNV` and in `WAIT_FOR_NOT_BUSY`. -/
  cnv_count : ℕ
  /-- The bit of `shift_reg` that is stored next. -/
  bit_count : ℕ
  /-- The clock enable. -/
  clk_enb : Bool
  /-- The divider of the clock enable. -/
  clk_cnt : BitVec 8
  /-- A start that has not been taken. -/
  start_lat : Bool
  cnv : Bool
  sclk : Bool
  /-- The word that comes second on the line. -/
  dcct1 : BitVec 20
  /-- The word that comes first. -/
  dcct2 : BitVec 20
  data_rdy : Bool
  deriving DecidableEq, Repr

def CNV_PULSE : ℕ := 10

def CNV_WIDTH : ℕ := 51

def num_bits (resolution : Bool) : ℕ := if resolution then 40 else 36

/-- A count in the 9 bits that a range up to 500 has. -/
def wrap (count : ℕ) : ℕ := count % 512

/-- The state machine at a clock enable. A start is latched, unless that is when one is taken. -/
def tick (s : Regs) (i : In) : Regs :=
  let s' := { s with start_lat := i.start || s.start_lat }
  match s.state with
  | .IDLE =>
    let idle := { s' with bit_count := num_bits i.resolution - 1, sclk := false, data_rdy := false }
    if s.start_lat then { idle with state := .SET_CNV, start_lat := false } else idle
  | .SET_CNV =>
    if s.cnv_count = CNV_PULSE then
      { s' with cnv := false, cnv_count := 0, state := .WAIT_FOR_NOT_BUSY }
    else { s' with cnv := true, cnv_count := wrap (s.cnv_count + 1) }
  | .WAIT_FOR_NOT_BUSY =>
    if s.cnv_count = CNV_WIDTH then { s' with cnv_count := 0, state := .SCLK_HI }
    else { s' with cnv_count := wrap (s.cnv_count + 1) }
  | .SCLK_HI =>
    { s' with shift_reg := setBit s.shift_reg s.bit_count i.sdi, state := .SCLK_LO, sclk := true }
  | .SCLK_LO =>
    { s' with
      sclk := false, bit_count := wrap (s.bit_count + 511)
      state := if s.bit_count = 0 then .DONE else .SCLK_HI }
  | .DONE =>
    { s' with
      dcct2 :=
        if i.resolution then s.shift_reg.extractLsb' 20 20
        else sresize 20 (s.shift_reg.extractLsb' 18 18)
      dcct1 :=
        if i.resolution then s.shift_reg.extractLsb' 0 20
        else sresize 20 (s.shift_reg.extractLsb' 0 18)
      bit_count := 0, data_rdy := true, state := .IDLE }

/-- The process with the state machine. -/
def conv (s : Regs) (i : In) : Regs :=
  if i.reset then
    { s with
      cnv_count := 0, bit_count := 0, shift_reg := 0, dcct1 := 0, dcct2 := 0, data_rdy := false
      cnv := false, start_lat := false, state := .IDLE }
  else if s.clk_enb then tick s i
  else { s with start_lat := i.start || s.start_lat }

/-- One rising edge of `clk`: the state machine and the clock divider. -/
def step (s : Regs) (i : In) : Regs :=
  { conv s i with
    clk_cnt := if i.reset || s.clk_cnt == 4 then 0 else s.clk_cnt + 1
    clk_enb := !i.reset && s.clk_cnt == 4 }

section Run

variable (s : Regs) (inp : ℕ → In)

/-- The registers before clock `t`, from the registers `s`. -/
def regs (t : ℕ) : Regs := trace step s inp t

/-! ## Conversions -/

/-- A conversion starts at clock `c` and ends at clock `t`, with `data_rdy`. -/
structure Conversion (c t : ℕ) : Prop where
  lt : c < t
  idle : (regs s inp c).state = .IDLE
  busy : ∀ v, c < v → v ≤ t → (regs s inp v).state ≠ .IDLE
  rdy : (regs s inp (t + 1)).data_rdy = true

/-- `sdi` is sampled at clock `t`. -/
def samples (t : ℕ) : Bool := (regs s inp t).clk_enb && (regs s inp t).state == .SCLK_HI

/-- The bits that are sampled from clock `a` on and before clock `b`. -/
def sdiBits (a b : ℕ) : List Bool := sampled (samples s inp) (fun t => (inp t).sdi) a b

/-- The words on the line: two of 18 bits, or two of 20 bits. -/
def Words (resolution : Bool) (bits : List Bool) (dcct2 dcct1 : BitVec 20) : Prop :=
  if resolution then bits = msbFirst dcct2 ++ msbFirst dcct1
  else ∃ w₂ w₁ : BitVec 18,
    bits = msbFirst w₂ ++ msbFirst w₁ ∧ dcct2 = w₂.signExtend 20 ∧ dcct1 = w₁.signExtend 20

/-- Whenever `data_rdy` rises, a conversion has ended, and the outputs are its words, if the
resolution stayed the same. -/
def Deserialises : Prop :=
  ∀ t, (regs s inp t).data_rdy = false → (regs s inp (t + 1)).data_rdy = true →
    ∃ c, Conversion s inp c t ∧ ∀ resolution,
      (∀ v, c ≤ v → v ≤ t → (inp v).resolution = resolution) →
      Words resolution (sdiBits s inp c t) (regs s inp (t + 1)).dcct2 (regs s inp (t + 1)).dcct1

end Run

end Zpsc.Ltc2376
