import Zpsc.Bits.Bytes
import Zpsc.Clocked.Run

/-!
# Reading the BPC (`bpc.c`, the FIFO of `manchester_decoder.vhd`)

The converter sends frames of 62 words without a pause; the Manchester receiver puts them into a
FIFO of 128 words. `bpc_send` polls the FIFO and, when it holds a frame's worth, reads 62 words,
keeps all but the first two in the message buffer and resets the FIFO. `bpc_init` reads one word and
resets it.

A step is one word arriving, a call of one of the two functions, or the next register access of the
call in progress, so words may arrive between any two accesses. The FIFO holds word numbers: word
`k` is the `k`-th word the converter sends, word `k % 62` of frame `k / 62`, and `word k` is its
value.
-/

namespace Zpsc.Bpc

open Bits

/-- The words of a frame. -/
def FRAME : ℕ := 62

/-- The words the FIFO holds. -/
def DEPTH : ℕ := 128

/-- The next register access of the call in progress. -/
inductive Pc where
  /-- No call. -/
  | idle
  /-- `bpc_init` reads the data register. -/
  | initData
  /-- `bpc_init` writes 1 to the reset register. -/
  | initReset
  /-- `bpc_init` writes 0 to the reset register. -/
  | initRelease
  /-- `bpc_send` reads the data register for `i`. -/
  | read (i : ℕ)
  /-- `bpc_send` writes 1 to the reset register; the message buffer is complete. -/
  | sendReset
  /-- `bpc_send` writes 0 to the reset register. -/
  | sendRelease
  deriving DecidableEq

structure State where
  pc : Pc
  /-- The FIFO, oldest word first. -/
  fifo : List ℕ
  /-- The reset register, which holds the FIFO empty while it is 1. -/
  reset : Bool
  /-- The number of words sent. -/
  sent : ℕ
  /-- `static u32 msg[60]`. -/
  msg : ℕ → BitVec 32
  /-- The number of words sent when the FIFO last left reset. -/
  released : ℕ

/-- An empty FIFO at a frame boundary. -/
def State.init : State where
  pc := .idle
  fifo := []
  reset := false
  sent := 0
  msg := fun _ => 0
  released := 0

inductive Event where
  /-- The converter's next word arrives. -/
  | word
  /-- `bpc_init` is called and reads the word count. -/
  | init
  /-- `bpc_send` is called and reads the word count. -/
  | send
  /-- The next access of the call in progress. -/
  | access
  deriving DecidableEq

/-- `htonf` of a word read as a float: its bytes in the other order. -/
def htonf (x : BitVec 32) : BitVec 32 :=
  be32 (x.extractLsb' 0 8) (x.extractLsb' 8 8) (x.extractLsb' 16 8) (x.extractLsb' 24 8)

variable (word : ℕ → BitVec 32)

/-- A read of `MANCH_FIFO_DATA_REG`: the oldest word, popped. -/
def State.pop (s : State) : BitVec 32 × State :=
  match s.fifo with
  | [] => (0, s)
  | k :: fifo => (word k, { s with fifo := fifo })

/-- A write to `MANCH_FIFO_RESET_REG`. -/
def State.setReset (s : State) (v : Bool) : State :=
  if v then { s with reset := true, fifo := [] }
  else { s with reset := false, released := s.sent }

/-- One access of the call in progress. -/
def access (s : State) : State :=
  match s.pc with
  | .idle => s
  | .initData => { (s.pop word).2 with pc := .initReset }
  | .initReset => { s.setReset true with pc := .initRelease }
  | .initRelease => { s.setReset false with pc := .idle }
  | .read i =>
    let (data, s) := s.pop word
    let s :=
      if 2 ≤ i then { s with msg := fun j => if j = i - 2 then htonf data else s.msg j } else s
    { s with pc := if i + 1 < 62 then .read (i + 1) else .sendReset }
  | .sendReset => { s.setReset true with pc := .sendRelease }
  | .sendRelease => { s.setReset false with pc := .idle }

/-- One step. A call is made only when none is in progress: both functions run in one thread. -/
def step (s : State) : Event → State
  | .word =>
    { s with
      sent := s.sent + 1
      fifo := if s.reset = false ∧ s.fifo.length < DEPTH then s.fifo ++ [s.sent] else s.fifo }
  | .init => if s.pc = .idle then { s with pc := .initData } else s
  | .send => if s.pc = .idle ∧ 62 ≤ s.fifo.length then { s with pc := .read 0 } else s
  | .access => access word s

/-- The state after the steps `es`. -/
def after (es : List Event) : State := Clocked.run (step word) State.init es

/-- The message buffer holds words 2 to 61 of one frame, in order. -/
def OneFrame (msg : ℕ → BitVec 32) : Prop :=
  ∃ f, ∀ j < 60, msg j = htonf (word (FRAME * f + 2 + j))

/-- Every update of the message buffer during `es` is one frame, whatever the words are. -/
def Coherent (es : List Event) : Prop :=
  ∀ word pre, pre <+: es → (after word pre).pc = .sendReset → OneFrame word (after word pre).msg

/-- Whenever an update completes during `es`, the FIFO had last left reset at a frame boundary. -/
def ReleasedAligned (es : List Event) : Prop :=
  ∀ word pre, pre <+: es → (after word pre).pc = .sendReset →
    (after word pre).released % FRAME = 0

end Zpsc.Bpc
