import Zpsc.Bits.NumericStd
import Zpsc.Snapshot.Proofs.PollsProofs

/-!
# The wait for the records after a trigger

The number of records written follows the phase of the 10 kHz clock, three clocks behind. A trigger
that a poll detects is sent `posttrigpts / 1000` polls later, so the waveform is complete exactly
when the clock makes `posttrigpts` turns from the trigger to that poll.
-/

namespace Zpsc.Snapshot

open Bits Clocked

variable {inp : ℕ → LatchIn}

/-! ## The number of records written -/

/-- The top bit of the phase accumulator. -/
def topBit (inp : ℕ → LatchIn) (t : ℕ) : Bool := decide (2 ^ 31 ≤ phase inp t % 2 ^ 32)

theorem turns_phase_zero : turns (phase inp 0) = 0 := by
  rw [phase, turns]
  norm_num

theorem topBit_zero : topBit inp 0 = false := by
  rw [topBit, phase]
  norm_num

/-- The top bit rises once per turn. -/
theorem turns_phase_succ (t : ℕ) : turns (phase inp (t + 1)) =
    turns (phase inp t) + if topBit inp (t + 1) && !topBit inp t then 1 else 0 := by
  have hstep : NCO_STEPSIZE.toNat = 427853 := rfl
  have hstay (n : ℕ) : turns (2 ^ 32 * n) = n := by
    rw [turns]
    omega
  unfold topBit
  simp only [Bool.and_eq_true, Bool.not_eq_true', decide_eq_true_eq, decide_eq_false_iff_not]
  rw [phase, hstep]
  by_cases hsync : (inp t).onehz_trig = true
  · rw [if_pos hsync, Nat.mul_mod_right, hstay, if_neg (by simp), Nat.add_zero]
  · rw [if_neg hsync, turns, turns]
    split_ifs <;> omega

theorem turns_mono : Monotone fun t => turns (phase inp t) :=
  monotone_nat_of_le_succ fun t => by
    rw [turns_phase_succ]
    exact Nat.le_add_right _ _

/-- The registers of the clock generator follow the phase. -/
structure Follows (inp : ℕ → LatchIn) (t : ℕ) (s : Latch) : Prop where
  acc : s.nco.acc.toNat = phase inp t % 2 ^ 32
  acc_msb : s.nco.acc_msb = topBit inp (t - 1)
  acc_msb_d : s.nco.acc_msb_d = topBit inp (t - 2)
  pulse : s.nco.out_pulse_int = (topBit inp (t - 2) && !topBit inp (t - 3))
  written : s.written = turns (phase inp (t - 3))

theorem Follows.step {t : ℕ} {s : Latch} (h : Follows inp t s) :
    Follows inp (t + 1) (Latch.step s (inp t)) := by
  refine ⟨?_, ?_, h.acc_msb, ?_, ?_⟩
  · simp only [Latch.step, Nco.step, Bool.false_eq_true, if_false]
    rw [phase]
    split
    · rw [Nat.mul_mod_right]
      rfl
    · rw [BitVec.toNat_add, h.acc, Nat.mod_add_mod]
  · show s.nco.acc.getLsbD 31 = topBit inp t
    rw [getLsbD_31, h.acc, topBit]
  · show (s.nco.acc_msb && !s.nco.acc_msb_d) = _
    rw [h.acc_msb, h.acc_msb_d]
    rfl
  · show (if s.nco.out_pulse_int = true then s.written + 1 else s.written) = _
    rw [h.pulse, h.written]
    rcases Nat.lt_or_ge t 3 with hlt | hge
    · rw [show t - 2 = 0 by omega, show t - 3 = 0 by omega, show t + 1 - 3 = 0 by omega,
        topBit_zero, turns_phase_zero]
      simp
    · obtain ⟨u, rfl⟩ := Nat.exists_eq_add_of_le' hge
      rw [show u + 3 + 1 - 3 = u + 1 by omega, show u + 3 - 2 = u + 1 by omega,
        Nat.add_sub_cancel, turns_phase_succ]
      split <;> simp

theorem follows (t : ℕ) : Follows inp t (latchAt inp t) := by
  induction t with
  | zero =>
    refine ⟨?_, ?_, ?_, ?_, ?_⟩
    · simp [latchAt, Latch.configured, Nco.configured, phase]
    · simp [latchAt, Latch.configured, Nco.configured, topBit_zero]
    · simp [latchAt, Latch.configured, Nco.configured, topBit_zero]
    · simp [latchAt, Latch.configured, Nco.configured, topBit_zero]
    · simp [latchAt, Latch.configured, turns_phase_zero]
  | succ t ih => exact ih.step

/-- The address of record number `n`, 0 when there is none. -/
def recAddr : ℕ → BitVec 32
  | 0 => 0
  | n + 1 => BitVec.ofNat 32 (AxiWrite.slotAddr (n % AxiWrite.SLOTS))

/-- The latch holds the last record before the last trigger. -/
structure Latched (inp : ℕ → LatchIn) (t : ℕ) (s : Latch) : Prop where
  addr_ptr : s.addr_ptr = recAddr s.written
  trig_prev : s.trig_prev = (t != 0 && (inp (t - 1)).trig)
  bufrec : s.bufrec = turns (phase inp (lastTrig inp t - 3))
  bufptr : s.bufptr = recAddr s.bufrec

theorem Latched.step {t : ℕ} {s : Latch} (hf : Follows inp t s) (h : Latched inp t s) :
    Latched inp (t + 1) (Latch.step s (inp t)) := by
  have hedge : ((inp t).trig && (t == 0 || !(inp (t - 1)).trig)) =
      ((inp t).trig && !s.trig_prev) := by
    rw [h.trig_prev]
    cases t <;> simp
  refine ⟨?_, by simp [Latch.step], ?_, ?_⟩
  · simp only [Latch.step]
    split
    · rw [recAddr]
    · exact h.addr_ptr
  · simp only [Latch.step]
    rw [lastTrig, hedge]
    split
    · exact hf.written
    · exact h.bufrec
  · simp only [Latch.step]
    split
    · exact h.addr_ptr
    · exact h.bufptr

theorem latched (t : ℕ) : Latched inp t (latchAt inp t) := by
  induction t with
  | zero =>
    refine ⟨rfl, rfl, ?_, rfl⟩
    rw [lastTrig, Nat.zero_sub, turns_phase_zero]
    rfl
  | succ t ih => exact Latched.step (follows t) ih

/-! ## The polls of one run -/

variable {ty : TrigType} {init : TriggerInfo} {poll : ℕ → ℕ}

/-- The addresses that the polls read. -/
def latchedPtr (inp : ℕ → LatchIn) (poll : ℕ → ℕ) (n : ℕ) : BitVec 32 :=
  (latchAt inp (poll n)).bufptr

theorem poller_eq (n : ℕ) : poller ty init inp poll n =
    ⟨polled ty init (latchedPtr inp poll) n,
      taken ty init (latchedPtr inp poll) (fun n => (latchAt inp (poll n)).bufrec) 0 n⟩ := by
  induction n with
  | zero => rfl
  | succ n ih =>
    rw [poller, ih]
    rfl

theorem checked_eq (n : ℕ) :
    checked ty init inp poll n = tested ty init (latchedPtr inp poll) n := by
  rw [checked, poller_eq]
  rfl

theorem detects_iff (d : ℕ) :
    Detects ty init inp poll d ↔ Finds ty init (latchedPtr inp poll) d := by
  rw [Detects, poller_eq]
  rfl

theorem poll_mono (h : PollsApart poll) : Monotone poll :=
  monotone_nat_of_le_succ fun n => (Nat.le_add_right _ _).trans (h n)

/-- A trigger is complete when it is sent exactly when the 10 kHz clock makes enough turns from the
trigger to the poll that sends it. -/
theorem postComplete_iff_of (hpts : 1000 ≤ init.posttrigpts.toNat) (ha : init.active = 0)
    (hs : init.sendbuf = 0) (hpoll : PollsApart poll) :
    PostComplete ty init inp poll ↔ ∀ d, Detects ty init inp poll d →
      EnoughTurns inp init.posttrigpts.toNat (poll d)
        (poll (d + init.posttrigpts.toNat / 1000)) := by
  have hbuf (d : ℕ) : (latchAt inp (poll d)).bufrec =
      turns (phase inp (lastTrig inp (poll d) - 3)) := (latched (poll d)).bufrec
  have hwritten (n : ℕ) : (latchAt inp (poll n)).written = turns (phase inp (poll n - 3)) :=
    (follows (poll n)).written
  constructor
  · intro h d hd
    rw [detects_iff] at hd
    have hw := waits_end hpts ha hs hd
    have htest := tested_of_finds hpts ha hs hd
    have hle := h (d + init.posttrigpts.toNat / 1000) (by rw [checked_eq, htest])
    rw [checked_eq, poller_eq, taken_active hw.active, hw.taken, tested_posttrigpts, hbuf,
      hwritten] at hle
    exact hle
  · intro h n hn
    rw [checked_eq] at hn
    obtain ⟨d, hd, hend, ht⟩ := exists_finds_of_sendbuf hpts ha hs hn
    have hle : d + init.posttrigpts.toNat / 1000 ≤ n := by
      rcases hend with heq | ⟨-, hlt⟩
      · exact heq.ge
      · exact hlt.le
    rw [checked_eq, poller_eq, ht, tested_posttrigpts, hbuf, hwritten]
    refine (h d ((detects_iff d).mpr hd)).trans (turns_mono (Nat.sub_le_sub_right ?_ 3))
    exact poll_mono hpoll hle

/-- Every trigger of the firmware. -/
theorem postComplete_iff (ty : TrigType) (MSGID : BitVec 32) (i : ℕ) (inp : ℕ → LatchIn)
    (poll : ℕ → ℕ) (hpoll : PollsApart poll) :
    PostComplete ty (InitTriggerInfo ty MSGID i) inp poll ↔
      ∀ d, Detects ty (InitTriggerInfo ty MSGID i) inp poll d →
        EnoughTurns inp (InitTriggerInfo ty MSGID i).posttrigpts.toNat (poll d)
          (poll (d + (InitTriggerInfo ty MSGID i).posttrigpts.toNat / 1000)) :=
  postComplete_iff_of (posttrigpts_le ty MSGID i) rfl rfl hpoll

/-! ## One trigger -/

/-- A single trigger at clock `T`, and no 1 Hz event. -/
def oneTrig (T t : ℕ) : LatchIn := ⟨false, t == T⟩

theorem phase_oneTrig (T t : ℕ) : phase (oneTrig T) t = 427853 * t := by
  induction t with
  | zero => rfl
  | succ t ih =>
    have hstep : NCO_STEPSIZE.toNat = 427853 := rfl
    rw [phase, ih, hstep]
    simp only [oneTrig, Bool.false_eq_true, if_false]
    omega

theorem lastTrig_oneTrig {T t : ℕ} (h : T < t) : lastTrig (oneTrig T) t = T := by
  induction t, h using Nat.le_induction with
  | base =>
    rw [lastTrig]
    refine if_pos ?_
    simp only [oneTrig, beq_self_eq_true, Bool.true_and, Bool.or_eq_true, beq_iff_eq,
      Bool.not_eq_true', beq_eq_false_iff_ne]
    omega
  | succ t hT ih =>
    rw [lastTrig, if_neg ?_, ih]
    simp only [oneTrig, Bool.and_eq_true, beq_iff_eq, not_and]
    omega

/-- The turns from the trigger at clock 20000 to a later clock. -/
theorem enoughTurns_oneTrig (pts t t' : ℕ) (h : 20000 < t) :
    EnoughTurns (oneTrig 20000) pts t t' ↔ 2 + pts ≤ turns (427853 * (t' - 3)) := by
  have h2 : turns (427853 * (20000 - 3)) = 2 := by
    rw [turns]
    norm_num
  rw [EnoughTurns, lastTrig_oneTrig h, phase_oneTrig, phase_oneTrig, h2]

/-- An injection trigger is complete when the polls are 110 ms apart. -/
theorem inj_slow_polls_complete :
    PostComplete .inj (InitTriggerInfo .inj 90 0) (oneTrig 20000)
      (fun n => 20001 + 11000000 * n) := by
  refine (postComplete_iff .inj 90 0 (oneTrig 20000) _ ?_).mpr ?_
  · intro n
    show 20001 + 11000000 * n + 10 ^ 7 ≤ 20001 + 11000000 * (n + 1)
    omega
  · intro d _
    refine (enoughTurns_oneTrig _ _ _ (by omega)).mpr ?_
    have hpts : (InitTriggerInfo .inj 90 0).posttrigpts.toNat = 8000 := rfl
    rw [hpts, turns]
    omega

/-- With polls exactly 100 ms apart it is not: the 8 polls give 7969 records. -/
theorem inj_polls_not_complete :
    PollsApart (fun n => 20001 + 10000000 * n) ∧
    ¬ PostComplete .inj (InitTriggerInfo .inj 90 0) (oneTrig 20000)
      (fun n => 20001 + 10000000 * n) := by
  have hpoll : PollsApart fun n => 20001 + 10000000 * n := by
    intro n
    show 20001 + 10000000 * n + 10 ^ 7 ≤ 20001 + 10000000 * (n + 1)
    omega
  have hpts : (InitTriggerInfo .inj 90 0).posttrigpts.toNat = 8000 := rfl
  refine ⟨hpoll, ?_⟩
  intro h
  have hdetect : Detects .inj (InitTriggerInfo .inj 90 0) (oneTrig 20000)
      (fun n => 20001 + 10000000 * n) 0 := by
    refine ⟨rfl, ?_⟩
    have hrec : turns (427853 * (20000 - 3)) = 2 := by
      rw [turns]
      norm_num
    show (latchAt (oneTrig 20000) 20001).bufptr ≠ 0
    rw [(latched 20001).bufptr, (latched 20001).bufrec, lastTrig_oneTrig (by decide),
      phase_oneTrig, hrec]
    decide
  have henough := (postComplete_iff_of (by rw [hpts]; decide) rfl rfl hpoll).mp h 0 hdetect
  rw [enoughTurns_oneTrig _ _ _ (by decide), hpts, turns] at henough
  omega

end Zpsc.Snapshot
