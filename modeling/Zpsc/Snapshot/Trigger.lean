import Zpsc.Nco
import Zpsc.Snapshot.ReadBuf

/-!
# Snapshot triggers (`snapshots.c`, `ps_io.vhd`)

A trigger latches the address of the current record. The software polls the latched address every
100 ms, waits for the records after the trigger by counting polls, and then sends the waveform. One
trigger of the firmware is followed here, with the record counter of the ring beside it: every tick
of the 10 kHz clock writes one record.
-/

namespace Zpsc.Snapshot

open Clocked

/-! ## The latch of the buffer address -/

/-- The value `main` writes to the register `NCO_STEPSIZE_REG`. -/
def NCO_STEPSIZE : BitVec 32 := 427853

/-- The inputs of one clock: the 1 Hz event and the trigger. -/
structure LatchIn where
  onehz_trig : Bool
  trig : Bool
  deriving DecidableEq

/-- The clock generator, the place in the ring and the latch of the trigger. -/
structure Latch where
  nco : Nco
  /-- The number of records written. -/
  written : ℕ
  /-- The address of the last one. -/
  addr_ptr : BitVec 32
  /-- The trigger one clock ago. -/
  trig_prev : Bool
  /-- `addr_ptr` when the trigger last rose. -/
  bufptr : BitVec 32
  /-- `written` when the trigger last rose. -/
  bufrec : ℕ
  deriving DecidableEq

namespace Latch

def configured : Latch := ⟨.configured, 0, 0, false, 0, 0⟩

def step (s : Latch) (i : LatchIn) : Latch where
  nco := s.nco.step false NCO_STEPSIZE i.onehz_trig
  written := if s.nco.pulse_out then s.written + 1 else s.written
  addr_ptr :=
    if s.nco.pulse_out then BitVec.ofNat 32 (AxiWrite.slotAddr (s.written % AxiWrite.SLOTS))
    else s.addr_ptr
  trig_prev := i.trig
  bufptr := if i.trig && !s.trig_prev then s.addr_ptr else s.bufptr
  bufrec := if i.trig && !s.trig_prev then s.written else s.bufrec

end Latch

/-! ## The polls -/

inductive TrigType where
  | usr | flt | err | inj | evr
  deriving DecidableEq

/-- `InitTriggerInfo`; `i` is the index of the channel, and `MSGID` that of the first message. -/
def InitTriggerInfo (ty : TrigType) (MSGID : BitVec 32) (i : ℕ) : TriggerInfo where
  addr := 0
  addr_last := 0
  pretrigpts := if ty = .inj then 0 else 50000
  posttrigpts := if ty = .inj then 8000 else 50000
  active := 0
  postdlycnt := 0
  sendbuf := 0
  msgID := MSGID + BitVec.ofNat 32 i
  channum := BitVec.ofNat 32 (i + 1)
  trigcnt := 0

def ProcessTrigger (trig : TriggerInfo) : TriggerInfo :=
  let trig :=
    if trig.addr ≠ trig.addr_last ∧ trig.active = 0 then
      { trig with active := 1, addr_last := trig.addr, postdlycnt := 0 }
    else trig
  if trig.active = 1 then
    if trig.postdlycnt < trig.posttrigpts / 1000 then
      { trig with postdlycnt := trig.postdlycnt + 1 }
    else { trig with sendbuf := 1 }
  else trig

/-- What `CheckforTriggers` does for one trigger. -/
def CheckforTriggers (trig : TriggerInfo) (bufptr : BitVec 32) : TriggerInfo :=
  ProcessTrigger (if trig.active = 0 then { trig with addr := bufptr } else trig)

/-- What `SendWfmData` does to the trigger. -/
def SendWfmData (trig : TriggerInfo) : TriggerInfo :=
  { trig with sendbuf := 0, active := 0, trigcnt := trig.trigcnt + 1 }

/-- `snapshot_process` for one trigger; the waveforms of the timing trigger are not sent. -/
def snapshot_process (ty : TrigType) (trig : TriggerInfo) (bufptr : BitVec 32) : TriggerInfo :=
  let trig := CheckforTriggers trig bufptr
  if trig.sendbuf = 1 ∧ ty ≠ .evr then SendWfmData trig else trig

/-! ## A run -/

/-- A trigger of the software, with the record that it is about. -/
structure Poller where
  trig : TriggerInfo
  /-- The number of records written up to the one at `trig.addr`. -/
  addrRec : ℕ

section

variable (ty : TrigType) (init : TriggerInfo) (inp : ℕ → LatchIn) (poll : ℕ → ℕ)

/-- The hardware before clock `t`. -/
def latchAt (t : ℕ) : Latch := trace Latch.step .configured inp t

/-- The software before the poll number `n`, which comes at clock `poll n`. -/
def poller : ℕ → Poller
  | 0 => ⟨init, 0⟩
  | n + 1 =>
    let l := latchAt inp (poll n)
    let s := poller n
    { trig := snapshot_process ty s.trig l.bufptr
      addrRec := if s.trig.active = 0 then l.bufrec else s.addrRec }

/-- The trigger after `CheckforTriggers` of poll `n`. -/
def checked (n : ℕ) : TriggerInfo :=
  CheckforTriggers (poller ty init inp poll n).trig (latchAt inp (poll n)).bufptr

/-- Whenever `sendbuf` is set, the records of the waveform after the trigger have been written. -/
def PostComplete : Prop :=
  ∀ n, (checked ty init inp poll n).sendbuf = 1 →
    (poller ty init inp poll (n + 1)).addrRec + (checked ty init inp poll n).posttrigpts.toNat ≤
      (latchAt inp (poll n)).written

/-- The polls are at least 100 ms apart. -/
def PollsApart : Prop := ∀ n, poll n + 10 ^ 7 ≤ poll (n + 1)

/-- Poll `n` finds a new trigger. -/
def Detects (n : ℕ) : Prop :=
  (poller ty init inp poll n).trig.active = 0 ∧
    (latchAt inp (poll n)).bufptr ≠ (poller ty init inp poll n).trig.addr_last

/-- The clock of the last trigger before clock `t`. -/
def lastTrig : ℕ → ℕ
  | 0 => 0
  | t + 1 => if (inp t).trig && (t == 0 || !(inp (t - 1)).trig) then t else lastTrig t

/-- The turns of a phase, to the nearest. -/
def turns (x : ℕ) : ℕ := (x + 2 ^ 31) / 2 ^ 32

/-- The phase of the 10 kHz clock before clock `t`, with whole turns of `2 ^ 32`; the 1 Hz event
brings it to the nearest turn. -/
def phase : ℕ → ℕ
  | 0 => 0
  | t + 1 =>
    if (inp t).onehz_trig then 2 ^ 32 * turns (phase t) else phase t + NCO_STEPSIZE.toNat

/-- The clock makes `pts` turns from the last trigger before clock `t` to clock `t'`; a turn is a
record three clocks later. -/
def EnoughTurns (pts t t' : ℕ) : Prop :=
  turns (phase inp (lastTrig inp t - 3)) + pts ≤ turns (phase inp (t' - 3))

end

end Zpsc.Snapshot
