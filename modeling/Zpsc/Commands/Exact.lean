import Mathlib.Data.Int.Log
import Zpsc.Bits.CConv
import Zpsc.Commands.Board

/-!
# Exact arithmetic

A processor that computes with the numbers themselves, for statements in which rounding is left out.
Conversions to integers still drop the fraction.
-/

namespace Zpsc.Commands

open CConv

/-- The numbers of a processor that does not round. `dec` is the number that the word of a `float`
stands for, `enc` the word for a number. -/
def Exact (_dec : BitVec 32 → ℚ) (_enc : ℚ → BitVec 32) : Type := ℚ

variable {dec : BitVec 32 → ℚ} {enc : ℚ → BitVec 32}

instance : Fpu (Exact dec enc) where
  mul := fun x y : ℚ => x * y
  div := fun x y : ℚ => x / y
  sub := fun x y : ℚ => x - y
  single := dec
  word := enc
  float := fun x : ℚ => x
  lit := fun q => q
  lt := fun x y : ℚ => decide (x < y)
  fabs := fun x : ℚ => (|x| : ℚ)
  toS32 := fun x => BitVec.ofInt 32 (trunc x)
  toU32 := fun x => BitVec.ofInt 32 (trunc x)
  llroundf := fun x => BitVec.ofInt 64 (llround x)

/-- The number that a word stands for as a `float`. The infinities and what is not a number have the
number that follows in the sequence. -/
def binary32 (w : BitVec 32) : ℚ :=
  let e := (w.extractLsb' 23 8).toNat
  let m := (w.extractLsb' 0 23).toNat
  let x : ℚ := if e = 0 then m / 2 ^ 149 else (2 ^ 23 + m) * 2 ^ e / 2 ^ 150
  if w.getLsbD 31 then -x else x

/-- The word of a number that has a normal `float`; the bits that do not fit are dropped. -/
def toBinary32 (q : ℚ) : BitVec 32 :=
  if q = 0 then 0
  else
    let e := Int.log 2 |q|
    let m := ⌊|q| * 2 ^ (23 - e)⌋
    BitVec.ofInt 32 ((if q < 0 then 2 ^ 31 else 0) + (e + 127) * 2 ^ 23 + (m - 2 ^ 23))

end Zpsc.Commands
