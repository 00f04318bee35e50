import Zpsc.Clocked.Periodic
import Zpsc.Clocked.Run

/-!
# The schedule of the periodic data (`pscdata.c`)

The server calls `pscdata_poll` in every turn of its loop. A poll sends nothing, or the status frame
and what there is of a snapshot, and now and then the statistics and the BPC data between them. The
times are values of the tick counter, which wraps.
-/

namespace Zpsc.PscData

open Clocked

/-- The functions that a poll calls. -/
inductive Sender where
  | sadata_send | lstats_send | bpc_send | snapshot_process
  deriving DecidableEq, Repr

/-- The static variables. -/
structure State where
  /-- The tick of the last status frame. -/
  last_fast : BitVec 32
  /-- The tick of the last statistics. -/
  last_slow : BitVec 32
  /-- The unit is bipolar. -/
  bpc_enabled : Bool

def FAST_PERIOD_MS : BitVec 32 := 100

def SLOW_PERIOD_MS : BitVec 32 := 500

/-- `pscdata_init` at the tick `now`, with the polarity register at `polarity`. -/
def pscdata_init (now polarity : BitVec 32) : State := ⟨now, now, polarity = 0⟩

section Run

-- `pdMS_TO_TICKS` of FreeRTOS, of which only the two periods are used
variable (pdMS_TO_TICKS : BitVec 32 → BitVec 32)

/-- `pscdata_poll` at the tick `now`: the state after it and the calls it makes. -/
def pscdata_poll (s : State) (now : BitVec 32) : State × List Sender :=
  if now - s.last_fast < pdMS_TO_TICKS FAST_PERIOD_MS then (s, [])
  else if pdMS_TO_TICKS SLOW_PERIOD_MS ≤ now - s.last_slow then
    ({ s with last_fast := now, last_slow := now },
      [.sadata_send, .lstats_send] ++ (if s.bpc_enabled then [.bpc_send] else []) ++
        [.snapshot_process])
  else ({ s with last_fast := now }, [.sadata_send, .snapshot_process])

variable (polarity : BitVec 32) (start : ℕ) (now : ℕ → ℕ)

/-- The state before poll `k`. The initialisation is at the tick `start` and poll `k` at the tick
`now k`, both without the wrap. -/
def state (k : ℕ) : State :=
  trace (fun s t => (pscdata_poll pdMS_TO_TICKS s (BitVec.ofNat 32 t)).1)
    (pscdata_init (BitVec.ofNat 32 start) polarity) now k

/-- The calls of poll `k`. -/
def sent (k : ℕ) : List Sender :=
  (pscdata_poll pdMS_TO_TICKS (state pdMS_TO_TICKS polarity start now k)
    (BitVec.ofNat 32 (now k))).2

def fastTicks : ℕ := (pdMS_TO_TICKS FAST_PERIOD_MS).toNat

def slowTicks : ℕ := (pdMS_TO_TICKS SLOW_PERIOD_MS).toNat

/-- The first poll follows the initialisation and each poll the one before by at most `G` ticks, and
the counter does not go round in a slow period. -/
structure Polled (G : ℕ) : Prop where
  first_ge : start ≤ now 0
  first_le : now 0 ≤ start + G
  mono : ∀ k, now k ≤ now (k + 1)
  gap : ∀ k, now (k + 1) ≤ now k + G
  fits : slowTicks pdMS_TO_TICKS + fastTicks pdMS_TO_TICKS + G < 2 ^ 32

/-- At poll `k` it is `n` ticks since the initialisation and since every poll before that calls
`x`. -/
def Elapsed (x : Sender) (n k : ℕ) : Prop :=
  start + n ≤ now k ∧
    ∀ j < k, x ∈ sent pdMS_TO_TICKS polarity start now j → now j + n ≤ now k

/-- At poll `k` it is at most `n` ticks since the initialisation or since a poll before that calls
`x`. -/
def Recent (x : Sender) (n k : ℕ) : Prop :=
  now k ≤ start + n ∨
    ∃ j < k, x ∈ sent pdMS_TO_TICKS polarity start now j ∧ now k ≤ now j + n

end Run

end Zpsc.PscData
