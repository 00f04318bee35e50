import Zpsc.Snapshot.Trigger

/-!
# Trigger edges, records and polls in any order

One trigger source against the software that polls it: the trigger rises at any clocks, records are
written at any clocks, and `snapshot_process` runs at any clocks. Each poll that finds the
descriptor inactive reads the latched address; `source` keeps, beside the software, the clock of the
edge that the address comes from.
-/

namespace Zpsc.Snapshot

open Clocked

/-! ## The ring and the latch -/

/-- What happens in a clock. -/
structure RingIn where
  /-- A record is written. -/
  record : Bool
  /-- The level of the trigger. -/
  trig : Bool
  deriving DecidableEq

/-- The place in the ring and the latch of the trigger. -/
structure Ring where
  /-- The number of records written. -/
  written : ℕ
  /-- The address of the last one. -/
  addr_ptr : BitVec 32
  /-- The trigger one clock ago. -/
  trig_prev : Bool
  /-- `addr_ptr` when the trigger last rose. -/
  bufptr : BitVec 32
  deriving DecidableEq

namespace Ring

def configured : Ring := ⟨0, 0, false, 0⟩

def step (s : Ring) (i : RingIn) : Ring where
  written := if i.record then s.written + 1 else s.written
  addr_ptr :=
    if i.record then BitVec.ofNat 32 (AxiWrite.slotAddr (s.written % AxiWrite.SLOTS))
    else s.addr_ptr
  trig_prev := i.trig
  bufptr := if i.trig && !s.trig_prev then s.addr_ptr else s.bufptr

end Ring

/-- The descriptor, with the edge that it is about. -/
structure Watch where
  trig : TriggerInfo
  /-- The clock of the edge whose address `trig` holds. -/
  source : Option ℕ

section

variable (ty : TrigType) (init : TriggerInfo) (inp : ℕ → RingIn) (poll : ℕ → ℕ)

/-- The hardware before clock `t`. -/
def ringAt (t : ℕ) : Ring := trace Ring.step .configured inp t

/-- The trigger rises at clock `t`. -/
def edge (t : ℕ) : Bool := (inp t).trig && (t == 0 || !(inp (t - 1)).trig)

/-- The last edge before clock `t`. -/
def lastEdge : ℕ → Option ℕ
  | 0 => none
  | t + 1 => if edge inp t then some t else lastEdge t

/-- The software before the poll number `n`, which comes at clock `poll n`. -/
def watch : ℕ → Watch
  | 0 => ⟨init, none⟩
  | n + 1 =>
    let s := watch n
    { trig := snapshot_process ty s.trig (ringAt inp (poll n)).bufptr
      source := if s.trig.active = 0 then lastEdge inp (poll n) else s.source }

/-- The descriptor after `CheckforTriggers` of poll `n`. -/
def processed (n : ℕ) : TriggerInfo :=
  CheckforTriggers (watch ty init inp poll n).trig (ringAt inp (poll n)).bufptr

/-- Poll `n` calls `SendWfmData`. -/
def Sends (n : ℕ) : Prop := (processed ty init inp poll n).sendbuf = 1 ∧ ty ≠ .evr

/-- Poll `n` calls `SendWfmData` for the trigger of clock `e`. -/
def SendsFor (n e : ℕ) : Prop :=
  Sends ty init inp poll n ∧ (watch ty init inp poll (n + 1)).source = some e

/-- The trigger of clock `e` is sent exactly once, not before poll `q`, with the address that was
latched at `e`. -/
def SentOnce (q e : ℕ) : Prop :=
  ∃ n, q ≤ n ∧ SendsFor ty init inp poll n e ∧
    (processed ty init inp poll n).addr = (ringAt inp e).addr_ptr ∧
    ∀ m, SendsFor ty init inp poll m e → m = n

/-- Poll `p` is the first after the edge at clock `e`; a poll in the same clock still reads the old
value. -/
def NextPoll (e p : ℕ) : Prop := e < poll p ∧ ∀ r < p, poll r ≤ e

/-- No further edge after `e` and before clock `t`. -/
def Quiet (e t : ℕ) : Prop := ∀ e', e < e' → e' < t → edge inp e' = false

def Active (n : ℕ) : Prop := (watch ty init inp poll n).trig.active = 1

def Inactive (n : ℕ) : Prop := (watch ty init inp poll n).trig.active = 0

/-- Every waveform that is sent is that of an edge, and of a later one each time. -/
structure OnlyNewEdges : Prop where
  source : ∀ n, Sends ty init inp poll n → ∃ e, SendsFor ty init inp poll n e ∧ edge inp e = true
  newer : ∀ n m e e', n < m → SendsFor ty init inp poll n e → SendsFor ty init inp poll m e' →
    e < e'

/-! ## No trigger is lost -/

/-- No trigger is lost and none is sent twice: neither one that is latched while the descriptor is
inactive, nor the last one that is latched while it is active. -/
structure NoLostTrigger : Prop where
  inactive : ∀ e p, edge inp e = true → NextPoll poll e p → Inactive ty init inp poll p →
    Quiet inp e (poll p) → SentOnce ty init inp poll p e
  pending : ∀ e p q, edge inp e = true → NextPoll poll e p → p ≤ q →
    (∀ r, p ≤ r → r ≤ q → Active ty init inp poll r) → Inactive ty init inp poll (q + 1) →
    Quiet inp e (poll q) → SentOnce ty init inp poll (q + 1) e
  new : OnlyNewEdges ty init inp poll

/-- The same for a trigger that is still in the latch when the software reads it, at an address
other than that of the last one the software has taken. A descriptor that is active becomes inactive
again by sending its waveform. -/
structure NoLostFreshTrigger : Prop where
  inactive : ∀ e p, edge inp e = true → NextPoll poll e p → Inactive ty init inp poll p →
    Quiet inp e (poll p) →
    (ringAt inp e).addr_ptr ≠ (watch ty init inp poll p).trig.addr_last →
    SentOnce ty init inp poll p e
  pending : ∀ e p, edge inp e = true → NextPoll poll e p → Active ty init inp poll p →
    ∃ q, p ≤ q ∧ (∀ r, p ≤ r → r ≤ q → Active ty init inp poll r) ∧ Sends ty init inp poll q ∧
      Inactive ty init inp poll (q + 1) ∧
      (Quiet inp e (poll (q + 1)) →
        (ringAt inp e).addr_ptr ≠ (watch ty init inp poll (q + 1)).trig.addr_last →
        SentOnce ty init inp poll (q + 1) e)
  new : OnlyNewEdges ty init inp poll

/-! ## No record is overwritten -/

/-- The polls are between 100 and 140 ms apart; a clock is 10 ns. -/
def PollsSpaced : Prop := ∀ n, poll n + 10 ^ 7 ≤ poll (n + 1) ∧ poll (n + 1) ≤ poll n + 14 * 10 ^ 6

/-- How long before the first poll a trigger may come: 18.78 s for an injection, 7.9 s else. -/
def headroom : ℕ := if ty = .inj then 1878 * 10 ^ 6 else 79 * 10 ^ 7

/-- At most 1000 records are written in 100 ms. -/
def RecordRate : Prop :=
  ∀ t, (ringAt inp (t + 10 ^ 7)).written ≤ (ringAt inp t).written + 1000

/-- When the waveform of the trigger of clock `e` is read in poll `n`, no record of it has been
overwritten: fewer records than fit beside the ones before the trigger have been written since, so
no record of the window shares its slot with a later one, that which is being written included. -/
structure NotOverwritten (n e : ℕ) : Prop where
  count : (ringAt inp (poll n)).written <
    (ringAt inp e).written + (AxiWrite.SLOTS - init.pretrigpts.toNat)
  slots : ∀ r r', (ringAt inp e).written ≤ r + 1 + init.pretrigpts.toNat → r < r' →
    r' ≤ (ringAt inp (poll n)).written → r % AxiWrite.SLOTS ≠ r' % AxiWrite.SLOTS

end

end Zpsc.Snapshot
