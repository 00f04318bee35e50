import Zpsc.Clocked.Run
import Zpsc.Snapshot.Polls

/-!
# From the poll that finds a trigger to the poll that sends it

A trigger is sent `posttrigpts / 1000` polls after the one that finds it, and no other poll sets
`sendbuf`. In between the trigger is active and keeps what the first poll has read.
-/

namespace Zpsc.Snapshot

open Clocked

/-! ## One poll -/

section

variable {ty : TrigType} {trig : TriggerInfo} {bufptr : BitVec 32}

theorem check_detect (ha : trig.active = 0) (hne : bufptr ≠ trig.addr_last)
    (hpos : 0 < trig.posttrigpts / 1000) :
    CheckforTriggers trig bufptr =
      { trig with addr := bufptr, active := 1, addr_last := bufptr, postdlycnt := 1 } := by
  simp only [CheckforTriggers, ProcessTrigger, ha, ne_eq, hne, not_false_eq_true, and_self, if_true,
    hpos]
  rfl

theorem check_idle (ha : trig.active = 0) (heq : bufptr = trig.addr_last) :
    CheckforTriggers trig bufptr = { trig with addr := bufptr } := by
  unfold CheckforTriggers ProcessTrigger
  simp [ha, heq]

theorem check_wait (ha : trig.active = 1) (hlt : trig.postdlycnt < trig.posttrigpts / 1000) :
    CheckforTriggers trig bufptr = { trig with postdlycnt := trig.postdlycnt + 1 } := by
  have h10 : (1 : BitVec 32) ≠ 0 := by decide
  simp only [CheckforTriggers, ProcessTrigger, ha, h10, and_false, if_false, if_true, hlt]

theorem check_send (ha : trig.active = 1) (hge : ¬ trig.postdlycnt < trig.posttrigpts / 1000) :
    CheckforTriggers trig bufptr = { trig with sendbuf := 1 } := by
  have h10 : (1 : BitVec 32) ≠ 0 := by decide
  simp only [CheckforTriggers, ProcessTrigger, ha, h10, and_false, if_false, if_true, hge]

theorem check_posttrigpts (trig : TriggerInfo) (bufptr : BitVec 32) :
    (CheckforTriggers trig bufptr).posttrigpts = trig.posttrigpts := by
  simp only [CheckforTriggers, ProcessTrigger, apply_ite TriggerInfo.posttrigpts, ite_self]

/-- A poll that reads the address leaves it in `addr_last`, whether it is a new one or not. -/
theorem process_addr_last (trig : TriggerInfo) (bufptr : BitVec 32) :
    (snapshot_process ty trig bufptr).addr_last =
      if trig.active = 0 then bufptr else trig.addr_last := by
  have hcheck : (CheckforTriggers trig bufptr).addr_last =
      if trig.active = 0 then bufptr else trig.addr_last := by
    by_cases ha : trig.active = 0
    · by_cases heq : bufptr = trig.addr_last
      · rw [check_idle ha heq, if_pos ha, heq]
      · simp only [CheckforTriggers, ProcessTrigger, ha, ne_eq, heq, not_false_eq_true, and_self,
          if_true, apply_ite TriggerInfo.addr_last, ite_self]
    · simp only [CheckforTriggers, ProcessTrigger, ha, and_false, if_false,
        apply_ite TriggerInfo.addr_last, ite_self]
  rw [snapshot_process, ← hcheck]
  split <;> rfl

end

theorem toNat_div_1000 (x : BitVec 32) : (x / 1000).toNat = x.toNat / 1000 := by
  rw [BitVec.toNat_udiv]
  rfl

/-! ## A run -/

variable {ty : TrigType} {init : TriggerInfo} {b : ℕ → BitVec 32}

theorem polled_succ (n : ℕ) : polled ty init b (n + 1) =
    if (tested ty init b n).sendbuf = 1 ∧ ty ≠ .evr then SendWfmData (tested ty init b n)
    else tested ty init b n := rfl

theorem taken_inactive {β : Type} {g : ℕ → β} {x : β} {n : ℕ}
    (h : (polled ty init b n).active = 0) : taken ty init b g x (n + 1) = g n := by
  rw [taken, if_pos h]

theorem taken_active {β : Type} {g : ℕ → β} {x : β} {n : ℕ}
    (h : (polled ty init b n).active = 1) :
    taken ty init b g x (n + 1) = taken ty init b g x n := by
  rw [taken, h]
  exact if_neg (by decide)

/-- `addr_last` is the last address that has been read. -/
theorem addr_last_eq (n : ℕ) :
    (polled ty init b n).addr_last = taken ty init b b init.addr_last n := by
  induction n with
  | zero => rfl
  | succ n ih => rw [polled, process_addr_last, taken, ih]

theorem posttrigpts_eq (n : ℕ) : (polled ty init b n).posttrigpts = init.posttrigpts := by
  induction n with
  | zero => rfl
  | succ n ih =>
    have htest : (tested ty init b n).posttrigpts = init.posttrigpts :=
      (check_posttrigpts _ _).trans ih
    rw [polled_succ]
    split
    · exact htest
    · exact htest

theorem tested_posttrigpts (n : ℕ) : (tested ty init b n).posttrigpts = init.posttrigpts :=
  (check_posttrigpts _ _).trans (posttrigpts_eq n)

/-- Before poll `n` the software waits for the records after the trigger that poll `d` has found. -/
structure Waits (ty : TrigType) (init : TriggerInfo) (b : ℕ → BitVec 32) (d n : ℕ) : Prop where
  after : d < n
  before : n ≤ d + init.posttrigpts.toNat / 1000
  active : (polled ty init b n).active = 1
  sendbuf : (polled ty init b n).sendbuf = 0
  postdlycnt : (polled ty init b n).postdlycnt.toNat = n - d
  addr : (polled ty init b n).addr = b d
  taken : ∀ {β : Type} (g : ℕ → β) (x : β), taken ty init b g x n = g d

/-- Where the software is before poll `n`: it has nothing to do, it waits, or it is at the end of
the wait and, as for every timing trigger, nothing is sent. -/
inductive Stage (ty : TrigType) (init : TriggerInfo) (b : ℕ → BitVec 32) (n : ℕ) : Prop
  | idle (ha : (polled ty init b n).active = 0) (hs : (polled ty init b n).sendbuf = 0)
  | wait (d : ℕ) (hd : Finds ty init b d) (hw : Waits ty init b d n)
  | kept (d : ℕ) (hevr : ty = .evr) (hd : Finds ty init b d)
      (hlt : d + init.posttrigpts.toNat / 1000 < n)
      (ha : (polled ty init b n).active = 1)
      (hc : init.posttrigpts.toNat / 1000 ≤ (polled ty init b n).postdlycnt.toNat)
      (ht : ∀ {β : Type} (g : ℕ → β) (x : β), taken ty init b g x n = g d)

section

variable {n : ℕ}

theorem polled_succ_of_sendbuf (h : (tested ty init b n).sendbuf = 0) :
    polled ty init b (n + 1) = tested ty init b n := by
  rw [polled_succ, h]
  simp

theorem tested_wait (ha : (polled ty init b n).active = 1)
    (hlt : (polled ty init b n).postdlycnt.toNat < init.posttrigpts.toNat / 1000) :
    tested ty init b n = { polled ty init b n with
      postdlycnt := (polled ty init b n).postdlycnt + 1 } := by
  refine check_wait ha ?_
  rw [posttrigpts_eq, BitVec.lt_def, toNat_div_1000]
  exact hlt

theorem tested_send (ha : (polled ty init b n).active = 1)
    (hge : init.posttrigpts.toNat / 1000 ≤ (polled ty init b n).postdlycnt.toNat) :
    tested ty init b n = { polled ty init b n with sendbuf := 1 } := by
  refine check_send ha ?_
  rw [posttrigpts_eq, BitVec.lt_def, toNat_div_1000, not_lt]
  exact hge

/-- The poll that sets `sendbuf`. -/
theorem Stage.of_send {d : ℕ} (hd : Finds ty init b d)
    (hle : d + init.posttrigpts.toNat / 1000 ≤ n) (ha : (polled ty init b n).active = 1)
    (hge : init.posttrigpts.toNat / 1000 ≤ (polled ty init b n).postdlycnt.toNat)
    (ht : ∀ {β : Type} (g : ℕ → β) (x : β), taken ty init b g x n = g d) :
    Stage ty init b (n + 1) := by
  have htest := tested_send ha hge
  by_cases hevr : ty = .evr
  · have hkeep : polled ty init b (n + 1) = tested ty init b n := by
      rw [polled_succ]
      simp [hevr]
    refine .kept d hevr hd (by omega) ?_ ?_ ?_
    · rw [hkeep, htest]
      exact ha
    · rw [hkeep, htest]
      exact hge
    · intro β g x
      rw [taken_active ha, ht]
  · have hsend : polled ty init b (n + 1) = SendWfmData (tested ty init b n) := by
      rw [polled_succ, htest]
      simp [hevr]
    refine .idle ?_ ?_
    · rw [hsend]
      rfl
    · rw [hsend]
      rfl

theorem Waits.succ {d : ℕ} (h : Waits ty init b d n)
    (hlt : n < d + init.posttrigpts.toNat / 1000) : Waits ty init b d (n + 1) := by
  have hafter := h.after
  have htest := tested_wait h.active (by rw [h.postdlycnt]; omega)
  have hnext := polled_succ_of_sendbuf (n := n) (by rw [htest]; exact h.sendbuf)
  refine ⟨by omega, by omega, ?_, ?_, ?_, ?_, ?_⟩
  · rw [hnext, htest]
    exact h.active
  · rw [hnext, htest]
    exact h.sendbuf
  · rw [hnext, htest, BitVec.toNat_add, h.postdlycnt, show (1 : BitVec 32).toNat = 1 from rfl]
    have := init.posttrigpts.isLt
    omega
  · rw [hnext, htest]
    exact h.addr
  · intro β g x
    rw [taken_active h.active, h.taken]

end

section

variable (hpts : 1000 ≤ init.posttrigpts.toNat)
include hpts

theorem waits_pos (n : ℕ) : 0 < (polled ty init b n).posttrigpts / 1000 := by
  rw [posttrigpts_eq, BitVec.lt_def, toNat_div_1000]
  exact Nat.div_pos hpts (by decide)

/-- The poll that finds a trigger. -/
theorem Waits.of_finds {d : ℕ} (hd : Finds ty init b d)
    (hs : (polled ty init b d).sendbuf = 0) : Waits ty init b d (d + 1) := by
  have hN : 0 < init.posttrigpts.toNat / 1000 := Nat.div_pos hpts (by decide)
  have htest : tested ty init b d = _ := check_detect hd.1 hd.2 (waits_pos hpts d)
  have hnext := polled_succ_of_sendbuf (n := d) (by rw [htest]; exact hs)
  refine ⟨by omega, by omega, ?_, ?_, ?_, ?_, ?_⟩
  · rw [hnext, htest]
  · rw [hnext, htest]
    exact hs
  · rw [hnext, htest, show d + 1 - d = 1 by omega]
    rfl
  · rw [hnext, htest]
  · intro β g x
    exact taken_inactive hd.1

/-- One poll. -/
theorem Stage.succ {n : ℕ} (h : Stage ty init b n) : Stage ty init b (n + 1) := by
  rcases h with ⟨ha, hs⟩ | ⟨d, hd, hw⟩ | ⟨d, -, hd, hlt, ha, hc, ht⟩
  · by_cases heq : b n = (polled ty init b n).addr_last
    · have htest : tested ty init b n = _ := check_idle ha heq
      have hnext := polled_succ_of_sendbuf (n := n) (by rw [htest]; exact hs)
      refine .idle ?_ ?_
      · rw [hnext, htest]
        exact ha
      · rw [hnext, htest]
        exact hs
    · exact .wait n ⟨ha, heq⟩ (Waits.of_finds hpts ⟨ha, heq⟩ hs)
  · rcases Nat.lt_or_eq_of_le hw.before with hlt | heq
    · exact .wait d hd (hw.succ hlt)
    · exact Stage.of_send hd heq.ge hw.active (by rw [hw.postdlycnt]; omega) hw.taken
  · exact Stage.of_send hd hlt.le ha hc ht

theorem tested_idle {n : ℕ} (ha : (polled ty init b n).active = 0) :
    (tested ty init b n).sendbuf = (polled ty init b n).sendbuf := by
  by_cases heq : b n = (polled ty init b n).addr_last
  · rw [tested, check_idle ha heq]
  · rw [tested, check_detect ha heq (waits_pos hpts n)]

variable (ha : init.active = 0) (hs : init.sendbuf = 0)
include ha hs

theorem stage (n : ℕ) : Stage ty init b n := by
  induction n with
  | zero => exact .idle ha hs
  | succ n ih => exact ih.succ hpts

/-- The trigger stays active up to the poll `posttrigpts / 1000` polls after the one that finds
it. -/
theorem waits_of_finds {d n : ℕ} (hd : Finds ty init b d) (hdn : d < n)
    (hn : n ≤ d + init.posttrigpts.toNat / 1000) : Waits ty init b d n := by
  have hidle : (polled ty init b d).sendbuf = 0 := by
    have h01 : (0 : BitVec 32) ≠ 1 := by decide
    rcases stage hpts ha hs d with ⟨-, hs'⟩ | ⟨d', -, hw⟩ | ⟨d', -, -, -, ha', -, -⟩
    · exact hs'
    · exact hw.sendbuf
    · exact absurd (hd.1.symm.trans ha') h01
  refine hold (P := fun n => Waits ty init b d n) (t := d + 1) hdn ?_ (Waits.of_finds hpts hd hidle)
  intro v _ hv hw
  exact hw.succ (by omega)

/-- The end of the wait. -/
theorem waits_end {d : ℕ} (hd : Finds ty init b d) :
    Waits ty init b d (d + init.posttrigpts.toNat / 1000) :=
  waits_of_finds hpts ha hs hd (Nat.lt_add_of_pos_right (Nat.div_pos hpts (by decide))) le_rfl

theorem tested_of_finds {d : ℕ} (hd : Finds ty init b d) :
    tested ty init b (d + init.posttrigpts.toNat / 1000) =
      { polled ty init b (d + init.posttrigpts.toNat / 1000) with sendbuf := 1 } := by
  have hw := waits_end hpts ha hs hd
  exact tested_send hw.active (by rw [hw.postdlycnt]; omega)

/-- A poll that sets `sendbuf` ends a wait, or comes later and finds `sendbuf` set. -/
theorem exists_finds_of_sendbuf {n : ℕ} (hn : (tested ty init b n).sendbuf = 1) :
    ∃ d, Finds ty init b d ∧
      (n = d + init.posttrigpts.toNat / 1000 ∨
        ty = .evr ∧ d + init.posttrigpts.toNat / 1000 < n) ∧
      ∀ {β : Type} (g : ℕ → β) (x : β), taken ty init b g x (n + 1) = g d := by
  have h01 : (0 : BitVec 32) ≠ 1 := by decide
  rcases stage hpts ha hs n with ⟨ha', hs'⟩ | ⟨d, hd, hw⟩ | ⟨d, hevr, hd, hlt, ha', -, ht⟩
  · exact absurd ((tested_idle hpts ha').trans hs' |>.symm.trans hn) h01
  · rcases Nat.lt_or_eq_of_le hw.before with hlt | heq
    · have hafter := hw.after
      rw [tested_wait hw.active (by rw [hw.postdlycnt]; omega)] at hn
      exact absurd (hw.sendbuf.symm.trans hn) h01
    · refine ⟨d, hd, .inl heq, ?_⟩
      intro β g x
      rw [taken_active hw.active, hw.taken]
  · refine ⟨d, hd, .inr ⟨hevr, hlt⟩, ?_⟩
    intro β g x
    rw [taken_active ha', ht]

/-- A waveform is sent exactly at the end of a wait. -/
theorem sendbuf_iff (hevr : ty ≠ .evr) (n : ℕ) : (tested ty init b n).sendbuf = 1 ↔
    ∃ d, Finds ty init b d ∧ n = d + init.posttrigpts.toNat / 1000 := by
  constructor
  · intro hn
    obtain ⟨d, hd, hend, -⟩ := exists_finds_of_sendbuf hpts ha hs hn
    rcases hend with heq | ⟨h, -⟩
    · exact ⟨d, hd, heq⟩
    · exact absurd h hevr
  · rintro ⟨d, hd, rfl⟩
    rw [tested_of_finds hpts ha hs hd]

/-- The trigger is inactive again after it has been sent. -/
theorem inactive_of_finds (hevr : ty ≠ .evr) {d : ℕ} (hd : Finds ty init b d) :
    (polled ty init b (d + init.posttrigpts.toNat / 1000 + 1)).active = 0 := by
  rw [polled_succ, if_pos ⟨by rw [tested_of_finds hpts ha hs hd], hevr⟩]
  rfl

/-- An active trigger is one that a poll has found. -/
theorem exists_finds_of_active (hevr : ty ≠ .evr) {n : ℕ}
    (hn : (polled ty init b n).active ≠ 0) :
    ∃ d, Finds ty init b d ∧ d < n ∧ n ≤ d + init.posttrigpts.toNat / 1000 := by
  rcases stage hpts ha hs n with ⟨ha', -⟩ | ⟨d, hd, hw⟩ | ⟨d, h, -, -, -, -, -⟩
  · exact absurd ha' hn
  · exact ⟨d, hd, hw.after, hw.before⟩
  · exact absurd h hevr

end

/-- Poll `j` is the last one before `n` that read the address. -/
structure LastRead (ty : TrigType) (init : TriggerInfo) (b : ℕ → BitVec 32) (j n : ℕ) : Prop where
  before : j < n
  inactive : (polled ty init b j).active = 0
  active : ∀ k, j < k → k < n → (polled ty init b k).active ≠ 0
  taken : ∀ {β : Type} (g : ℕ → β) (x : β), taken ty init b g x n = g j

theorem exists_lastRead (ha : init.active = 0) {n : ℕ} (hn : 0 < n) :
    ∃ j, LastRead ty init b j n := by
  induction n, hn using Nat.le_induction with
  | base =>
    refine ⟨0, Nat.one_pos, ha, ?_, fun g x => taken_inactive ha⟩
    intro k h1 h2
    omega
  | succ n hn ih =>
    by_cases hact : (polled ty init b n).active = 0
    · refine ⟨n, n.lt_succ_self, hact, ?_, fun g x => taken_inactive hact⟩
      intro k h1 h2
      omega
    · obtain ⟨j, hj⟩ := ih
      refine ⟨j, hj.before.trans n.lt_succ_self, hj.inactive, ?_, ?_⟩
      · intro k h1 h2
        rcases Nat.lt_succ_iff_lt_or_eq.mp h2 with h2 | rfl
        · exact hj.active k h1 h2
        · exact hact
      · intro β g x
        rw [taken, if_neg hact, hj.taken]

/-- The address is read again at the latest when the wait that the read has started is over. -/
theorem LastRead.recent {j n : ℕ} (h : LastRead ty init b j n)
    (hpts : 1000 ≤ init.posttrigpts.toNat) (ha : init.active = 0) (hs : init.sendbuf = 0)
    (hevr : ty ≠ .evr) : n ≤ j + init.posttrigpts.toNat / 1000 + 1 := by
  by_contra hlt
  obtain ⟨d, hd, hdj, hjd⟩ :=
    exists_finds_of_active hpts ha hs hevr (h.active (j + 1) j.lt_succ_self (by omega))
  exact h.active _ (by omega) (by omega) (inactive_of_finds hpts ha hs hevr hd)

/-- Every trigger of the firmware waits at least one poll. -/
theorem posttrigpts_le (ty : TrigType) (MSGID : BitVec 32) (i : ℕ) :
    1000 ≤ (InitTriggerInfo ty MSGID i).posttrigpts.toNat := by
  cases ty <;> simp [InitTriggerInfo]

end Zpsc.Snapshot
