import Mathlib.Tactic.Common

/-!
# Delay lines

A pipelined block takes an input at every clock, or none, and delivers its result a fixed number of
clocks later. `d j` is what entered a delay line `d` at the `j + 1`-st last clock; the stages behind
the one that is read do not matter.
-/

namespace Clocked

/-- A delay line. -/
def DelayLine (α : Type*) := ℕ → Option α

namespace DelayLine

variable {α : Type*}

def empty : DelayLine α := fun _ => none

/-- One clock. -/
def push (d : DelayLine α) (x : Option α) : DelayLine α
  | 0 => x
  | j + 1 => d j

/-- The output of a block with a latency of `n` clocks. -/
def out (d : DelayLine α) (n : ℕ) : Option α := d (n - 1)

/-- The first `len` stages hold nothing but `x`, which entered `n` clocks ago. -/
def Only (d : DelayLine α) (len n : ℕ) (x : α) : Prop :=
  ∀ j < len, d j = if j + 1 = n then some x else none

theorem Only.push_none {d : DelayLine α} {len n : ℕ} {x : α} (h : d.Only len n x) (hn : n ≠ 0) :
    (d.push none).Only len (n + 1) x := by
  intro j hj
  cases j with
  | zero => rw [if_neg (by omega)]; rfl
  | succ j =>
    show d j = _
    rw [h j (by omega)]
    simp only [Nat.add_right_cancel_iff]

/-- A value that has left the line, or has not yet entered it, makes room for a new one. -/
theorem Only.push_some {d : DelayLine α} {len n : ℕ} {x : α} (h : d.Only len n x)
    (hn : n = 0 ∨ len < n) (y : α) : (d.push (some y)).Only len 1 y := by
  intro j hj
  cases j with
  | zero => rfl
  | succ j =>
    show d j = _
    rw [h j (by omega), if_neg (by omega), if_neg (by omega)]

theorem Only.push_none_zero {d : DelayLine α} {len : ℕ} {x : α} (h : d.Only len 0 x) :
    (d.push none).Only len 0 x := by
  intro j hj
  cases j with
  | zero => rfl
  | succ j =>
    show d j = _
    rw [h j (by omega), if_neg (by omega), if_neg (by omega)]

theorem Only.out_eq {d : DelayLine α} {len n : ℕ} {x : α} (h : d.Only len n x) (hlen : 0 < len) :
    d.out len = if n = len then some x else none := by
  rw [out, h (len - 1) (by omega)]
  simp only [show len - 1 + 1 = n ↔ n = len by omega]

end DelayLine

end Clocked
