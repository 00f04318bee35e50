import Zpsc.Snapshot.Edges
import Zpsc.Snapshot.Proofs.TriggerProofs

/-!
# Every trigger that is read is sent once, and in time

The register holds the address of the last record before the last edge, so two polls that read
different addresses have an edge between them. The software therefore takes a later edge each time,
and it takes one at the first poll after the wait for the one before.
-/

namespace Zpsc.Snapshot

open Clocked

variable {ty : TrigType} {init : TriggerInfo} {inp : ℕ → RingIn} {poll : ℕ → ℕ}

/-! ## The last edge -/

/-- The address that an edge latches; 0 is in the register before the first. -/
def edgeAddr (inp : ℕ → RingIn) : Option ℕ → BitVec 32
  | none => 0
  | some e => (ringAt inp e).addr_ptr

theorem ringAt_succ (t : ℕ) : ringAt inp (t + 1) = Ring.step (ringAt inp t) (inp t) := rfl

theorem ring_trig_prev (t : ℕ) :
    (ringAt inp t).trig_prev = (t != 0 && (inp (t - 1)).trig) := by
  cases t with
  | zero => rfl
  | succ t =>
    rw [ringAt_succ]
    simp [Ring.step]

theorem edge_eq (t : ℕ) : edge inp t = ((inp t).trig && !(ringAt inp t).trig_prev) := by
  rw [edge, ring_trig_prev]
  cases t <;> simp

theorem ring_bufptr (t : ℕ) : (ringAt inp t).bufptr = edgeAddr inp (lastEdge inp t) := by
  induction t with
  | zero => rfl
  | succ t ih =>
    rw [ringAt_succ, lastEdge, edge_eq]
    simp only [Ring.step]
    split
    · rfl
    · exact ih

theorem lastEdge_eq_some {t e : ℕ} :
    lastEdge inp t = some e ↔ e < t ∧ edge inp e = true ∧ Quiet inp e t := by
  induction t with
  | zero => simp [lastEdge]
  | succ t ih =>
    rw [lastEdge]
    by_cases h : edge inp t = true
    · rw [if_pos h, Option.some.injEq]
      constructor
      · rintro rfl
        refine ⟨t.lt_succ_self, h, ?_⟩
        intro e' h1 h2
        omega
      · rintro ⟨hlt, -, hq⟩
        by_contra hne
        rw [hq t (by omega) t.lt_succ_self] at h
        cases h
    · rw [if_neg h, ih]
      have hf : edge inp t = false := by simpa using h
      constructor
      · rintro ⟨hlt, he, hq⟩
        refine ⟨by omega, he, ?_⟩
        intro e' h1 h2
        rcases Nat.lt_succ_iff_lt_or_eq.mp h2 with h2 | rfl
        · exact hq e' h1 h2
        · exact hf
      · rintro ⟨hlt, he, hq⟩
        refine ⟨?_, he, fun e' h1 h2 => hq e' h1 (by omega)⟩
        rcases Nat.lt_succ_iff_lt_or_eq.mp hlt with hlt | rfl
        · exact hlt
        · exact absurd he h

/-- An edge before clock `t` is followed by the last one. -/
theorem exists_lastEdge {e t : ℕ} (he : edge inp e = true) (h : e < t) :
    ∃ e', lastEdge inp t = some e' ∧ e ≤ e' := by
  induction t with
  | zero => omega
  | succ t ih =>
    rw [lastEdge]
    split
    · exact ⟨t, rfl, by omega⟩
    next hn =>
      refine ih (lt_of_le_of_ne (by omega) ?_)
      rintro rfl
      exact hn he

/-- The last edge before a later clock is the same one or a later one. -/
theorem lastEdge_mono {t u e : ℕ} (htu : t ≤ u) (h : lastEdge inp t = some e) :
    ∃ e', lastEdge inp u = some e' ∧ e ≤ e' := by
  obtain ⟨hlt, he, -⟩ := lastEdge_eq_some.mp h
  exact exists_lastEdge he (by omega)

theorem ring_addr_ptr (t : ℕ) :
    (ringAt inp t).addr_ptr = recAddr (ringAt inp t).written := by
  induction t with
  | zero => rfl
  | succ t ih =>
    rw [ringAt_succ]
    simp only [Ring.step]
    split
    · rfl
    · exact ih

/-- The hardware of `Latch` writes its records in the clocks of the 10 kHz pulse. -/
theorem latchAt_ring (inp : ℕ → LatchIn) (t : ℕ) :
    ringAt (fun t => ⟨(latchAt inp t).nco.pulse_out, (inp t).trig⟩) t =
      ⟨(latchAt inp t).written, (latchAt inp t).addr_ptr, (latchAt inp t).trig_prev,
        (latchAt inp t).bufptr⟩ := by
  induction t with
  | zero => rfl
  | succ t ih =>
    rw [ringAt_succ, ih]
    rfl

/-! ## Regular runs -/

/-- A record every `k` clocks, and triggers of one clock at the clocks `es`. -/
def regular (k : ℕ) (es : List ℕ) (t : ℕ) : RingIn := ⟨t % k == 0, decide (t ∈ es)⟩

/-- A poll every `k` clocks. -/
def pollEvery (k n : ℕ) : ℕ := k * (n + 1)

theorem pollEvery_mono (k : ℕ) : Monotone (pollEvery k) := fun _ _ h =>
  Nat.mul_le_mul_left k (Nat.succ_le_succ h)

theorem edge_regular {k : ℕ} {es : List ℕ} {t : ℕ} :
    edge (regular k es) t = true ↔ t ∈ es ∧ (t = 0 ∨ t - 1 ∉ es) := by
  simp [edge, regular]

theorem quiet_regular {k : ℕ} {es : List ℕ} {e t : ℕ} (h : ∀ e' ∈ es, e' ≤ e ∨ t ≤ e') :
    Quiet (regular k es) e t := by
  intro e' h1 h2
  rw [← Bool.not_eq_true, edge_regular]
  rintro ⟨hmem, -⟩
  have := h e' hmem
  omega

theorem written_regular {k : ℕ} (hk : 0 < k) (es : List ℕ) (t : ℕ) :
    (ringAt (regular k es) t).written = (t + k - 1) / k := by
  induction t with
  | zero =>
    rw [Nat.zero_add, Nat.div_eq_of_lt (by omega)]
    rfl
  | succ t ih =>
    rw [ringAt_succ]
    simp only [Ring.step, ih, regular, beq_iff_eq]
    rw [show t + 1 + k - 1 = t + k by omega, Nat.add_div_right _ hk]
    split
    next h =>
      obtain ⟨m, rfl⟩ := Nat.dvd_of_mod_eq_zero h
      rw [Nat.mul_div_cancel_left m hk, show k * m + k - 1 = k - 1 + k * m by omega,
        Nat.add_mul_div_left _ _ hk, Nat.div_eq_of_lt (by omega), Nat.zero_add]
    next h =>
      have hmod := Nat.mod_add_div t k
      have hlt := Nat.mod_lt t hk
      rw [show t + k - 1 = t % k - 1 + k + k * (t / k) by omega, Nat.add_mul_div_left _ _ hk,
        Nat.add_div_right _ hk, Nat.div_eq_of_lt (by omega)]
      omega

theorem addr_regular {k : ℕ} (hk : 0 < k) (es : List ℕ) (t : ℕ) :
    (ringAt (regular k es) t).addr_ptr = recAddr ((t + k - 1) / k) := by
  rw [ring_addr_ptr, written_regular hk]

/-! ## The edges that the software takes -/

/-- The addresses that the polls read. -/
def ringPtr (inp : ℕ → RingIn) (poll : ℕ → ℕ) (n : ℕ) : BitVec 32 := (ringAt inp (poll n)).bufptr

theorem ringPtr_eq (n : ℕ) : ringPtr inp poll n = edgeAddr inp (lastEdge inp (poll n)) :=
  ring_bufptr (poll n)

theorem watch_eq (n : ℕ) : watch ty init inp poll n =
    ⟨polled ty init (ringPtr inp poll) n,
      taken ty init (ringPtr inp poll) (fun n => lastEdge inp (poll n)) none n⟩ := by
  induction n with
  | zero => rfl
  | succ n ih =>
    rw [watch, ih]
    rfl

theorem processed_eq (n : ℕ) :
    processed ty init inp poll n = tested ty init (ringPtr inp poll) n := by
  rw [processed, watch_eq]
  rfl

theorem inactive_iff (n : ℕ) :
    Inactive ty init inp poll n ↔ (polled ty init (ringPtr inp poll) n).active = 0 := by
  rw [Inactive, watch_eq]

/-- A new trigger is a later edge than any that the software has read. -/
theorem Finds.newer {q j e : ℕ} (hq : Finds ty init (ringPtr inp poll) q) (ha : init.active = 0)
    (hpoll : Monotone poll) (hjq : j < q) (hj : Inactive ty init inp poll j)
    (he : lastEdge inp (poll j) = some e) : ∃ e', lastEdge inp (poll q) = some e' ∧ e < e' := by
  rw [inactive_iff] at hj
  obtain ⟨r, hr⟩ : ∃ r, LastRead ty init (ringPtr inp poll) r q :=
    exists_lastRead ha (Nat.zero_lt_of_lt hjq)
  have hjr : j ≤ r := by
    by_contra hrj
    exact hr.active j (by omega) hjq hj
  -- `addr_last` is what poll `r` has read, so the edges that polls `r` and `q` see are not the same.
  obtain ⟨e₁, he₁, hle₁⟩ := lastEdge_mono (hpoll hjr) he
  obtain ⟨e₂, he₂, hle₂⟩ := lastEdge_mono (hpoll hr.before.le) he₁
  refine ⟨e₂, he₂, hle₁.trans_lt (lt_of_le_of_ne hle₂ ?_)⟩
  rintro rfl
  apply hq.2
  rw [addr_last_eq, hr.taken, ringPtr_eq, ringPtr_eq, he₁, he₂]

theorem Finds.exists_edge {q : ℕ} (hq : Finds ty init (ringPtr inp poll) q)
    (ha : init.active = 0) (hlast : init.addr_last = 0) (hpoll : Monotone poll) :
    ∃ e, lastEdge inp (poll q) = some e := by
  rw [← Option.ne_none_iff_exists']
  intro hnone
  apply hq.2
  rw [addr_last_eq, ringPtr_eq, hnone]
  rcases Nat.eq_zero_or_pos q with rfl | hpos
  · exact hlast.symm
  · obtain ⟨r, hr⟩ : ∃ r, LastRead ty init (ringPtr inp poll) r q := exists_lastRead ha hpos
    rw [hr.taken, ringPtr_eq]
    cases hlr : lastEdge inp (poll r) with
    | none => rfl
    | some e =>
      obtain ⟨e', he', -⟩ := lastEdge_mono (hpoll hr.before.le) hlr
      rw [hnone] at he'
      cases he'

/-- A poll that reads a new address finds a trigger. -/
theorem finds_of_read {p e : ℕ} (hp : Inactive ty init inp poll p)
    (he : lastEdge inp (poll p) = some e)
    (hne : (ringAt inp e).addr_ptr ≠ (watch ty init inp poll p).trig.addr_last) :
    Finds ty init (ringPtr inp poll) p := by
  rw [watch_eq] at hne
  refine ⟨(inactive_iff p).mp hp, ?_⟩
  rw [ringPtr_eq, he]
  exact hne

/-! ## Every trigger that is read is sent once -/

section

variable (hpts : 1000 ≤ init.posttrigpts.toNat) (ha : init.active = 0) (hs : init.sendbuf = 0)
include hpts ha hs

theorem sendsFor_iff (n e : ℕ) : SendsFor ty init inp poll n e ↔ ty ≠ .evr ∧
    ∃ d, Finds ty init (ringPtr inp poll) d ∧ n = d + init.posttrigpts.toNat / 1000 ∧
      lastEdge inp (poll d) = some e := by
  rw [SendsFor, Sends, processed_eq, watch_eq]
  constructor
  · rintro ⟨⟨hsend, hevr⟩, hsource⟩
    obtain ⟨d, hd, hend, ht⟩ := exists_finds_of_sendbuf hpts ha hs hsend
    refine ⟨hevr, d, hd, ?_, (ht _ _).symm.trans hsource⟩
    rcases hend with heq | ⟨h, -⟩
    · exact heq
    · exact absurd h hevr
  · rintro ⟨hevr, d, hd, rfl, he⟩
    have hw := waits_end hpts ha hs hd
    refine ⟨⟨(sendbuf_iff hpts ha hs hevr _).mpr ⟨d, hd, rfl⟩, hevr⟩, ?_⟩
    show taken _ _ _ _ _ _ = _
    rw [taken_active hw.active, hw.taken]
    exact he

theorem sendsFor_newer (hpoll : Monotone poll) {n m e e' : ℕ} (hnm : n < m)
    (hn : SendsFor ty init inp poll n e) (hm : SendsFor ty init inp poll m e') : e < e' := by
  obtain ⟨-, d, hd, rfl, he⟩ := (sendsFor_iff hpts ha hs _ _).mp hn
  obtain ⟨-, d', hd', rfl, he'⟩ := (sendsFor_iff hpts ha hs _ _).mp hm
  obtain ⟨e₁, he₁, hlt⟩ :=
    hd'.newer ha hpoll (by omega : d < d') ((inactive_iff d).mpr hd.1) he
  rw [he'] at he₁
  cases he₁
  exact hlt

theorem onlyNewEdges (hlast : init.addr_last = 0) (hpoll : Monotone poll) :
    OnlyNewEdges ty init inp poll := by
  refine ⟨?_, fun n m e e' => sendsFor_newer hpts ha hs hpoll⟩
  intro n hn
  rw [Sends, processed_eq] at hn
  obtain ⟨d, hd, hend⟩ := (sendbuf_iff hpts ha hs hn.2 n).mp hn.1
  obtain ⟨e, he⟩ := hd.exists_edge ha hlast hpoll
  exact ⟨e, (sendsFor_iff hpts ha hs n e).mpr ⟨hn.2, d, hd, hend, he⟩,
    (lastEdge_eq_some.mp he).2.1⟩

/-- A trigger that is in the register when an inactive descriptor reads it. -/
theorem sentOnce_of_read (hevr : ty ≠ .evr) (hpoll : Monotone poll) {e p : ℕ}
    (he : edge inp e = true) (hep : e < poll p) (hp : Inactive ty init inp poll p)
    (hquiet : Quiet inp e (poll p))
    (hne : (ringAt inp e).addr_ptr ≠ (watch ty init inp poll p).trig.addr_last) :
    SentOnce ty init inp poll p e := by
  have hedge : lastEdge inp (poll p) = some e := lastEdge_eq_some.mpr ⟨hep, he, hquiet⟩
  have hd := finds_of_read hp hedge hne
  have hw := waits_end hpts ha hs hd
  have hsend : SendsFor ty init inp poll (p + init.posttrigpts.toNat / 1000) e :=
    (sendsFor_iff hpts ha hs _ _).mpr ⟨hevr, p, hd, rfl, hedge⟩
  refine ⟨p + init.posttrigpts.toNat / 1000, Nat.le_add_right _ _, hsend, ?_, ?_⟩
  · rw [processed_eq, tested_of_finds hpts ha hs hd]
    refine hw.addr.trans ?_
    rw [ringPtr_eq, hedge]
    rfl
  · intro m hm
    rcases lt_trichotomy m (p + init.posttrigpts.toNat / 1000) with hlt | heq | hgt
    · exact absurd (sendsFor_newer hpts ha hs hpoll hlt hm hsend) (lt_irrefl e)
    · exact heq
    · exact absurd (sendsFor_newer hpts ha hs hpoll hgt hsend hm) (lt_irrefl e)

/-- An active trigger is sent and becomes inactive. -/
theorem exists_sends_of_active (hevr : ty ≠ .evr) {p : ℕ} (hp : Active ty init inp poll p) :
    ∃ q, p ≤ q ∧ (∀ r, p ≤ r → r ≤ q → Active ty init inp poll r) ∧ Sends ty init inp poll q ∧
      Inactive ty init inp poll (q + 1) := by
  have hact : (polled ty init (ringPtr inp poll) p).active ≠ 0 := by
    rw [Active, watch_eq] at hp
    rw [hp]
    decide
  obtain ⟨d, hd, hdp, hpd⟩ := exists_finds_of_active hpts ha hs hevr hact
  refine ⟨d + init.posttrigpts.toNat / 1000, hpd, ?_, ?_, ?_⟩
  · intro r hpr hrq
    rw [Active, watch_eq]
    exact (waits_of_finds hpts ha hs hd (by omega) hrq).active
  · rw [Sends, processed_eq]
    exact ⟨(sendbuf_iff hpts ha hs hevr _).mpr ⟨d, hd, rfl⟩, hevr⟩
  · rw [inactive_iff]
    exact inactive_of_finds hpts ha hs hevr hd

end

/-- Every trigger that the software reads at a new address is sent once. -/
theorem fresh_trigger_sent_once (ty : TrigType) (MSGID : BitVec 32) (i : ℕ) (inp : ℕ → RingIn)
    (poll : ℕ → ℕ) (hevr : ty ≠ .evr) (hpoll : Monotone poll) :
    NoLostFreshTrigger ty (InitTriggerInfo ty MSGID i) inp poll := by
  have hpts := posttrigpts_le ty MSGID i
  refine ⟨?_, ?_, onlyNewEdges hpts rfl rfl rfl hpoll⟩
  · intro e p he hnext hp hquiet hne
    exact sentOnce_of_read hpts rfl rfl hevr hpoll he hnext.1 hp hquiet hne
  · intro e p he hnext hp
    obtain ⟨q, hpq, hact, hsend, hq⟩ := exists_sends_of_active hpts rfl rfl hevr hp
    refine ⟨q, hpq, hact, hsend, hq, ?_⟩
    intro hquiet hne
    have hep : e < poll (q + 1) := hnext.1.trans_le (hpoll (by omega))
    exact sentOnce_of_read hpts rfl rfl hevr hpoll he hep hq hquiet hne

/-- A trigger of the user between polls. -/
theorem user_trigger_sent_once : Monotone (pollEvery 10) ∧
    SentOnce .usr (InitTriggerInfo .usr 60 0) (regular 1 [5]) (pollEvery 10) 0 5 := by
  refine ⟨pollEvery_mono 10, ?_⟩
  have h := fresh_trigger_sent_once .usr 60 0 (regular 1 [5]) (pollEvery 10) (by decide)
    (pollEvery_mono 10)
  refine h.inactive 5 0 (by decide) ?_ rfl (quiet_regular (by simp)) ?_
  · exact ⟨by decide, fun r hr => absurd hr r.not_lt_zero⟩
  · rw [addr_regular Nat.one_pos]
    decide

/-! ## Triggers that are not sent -/

/-- The waveforms of the timing triggers are not sent. -/
theorem timing_trigger_lost :
    ¬ NoLostTrigger .evr (InitTriggerInfo .evr 100 0) (regular 1 [5]) (pollEvery 10) := by
  intro h
  obtain ⟨n, -, hsend, -⟩ := h.inactive 5 0 (by decide)
    ⟨by decide, fun r hr => absurd hr r.not_lt_zero⟩ rfl (quiet_regular (by simp))
  exact hsend.1.2 rfl

section

variable (hd : Finds .usr (InitTriggerInfo .usr 60 0) (ringPtr inp poll) 0)
include hd

theorem active_of_found {r : ℕ} (h0 : 0 < r) (hr : r ≤ 50) :
    Active .usr (InitTriggerInfo .usr 60 0) inp poll r := by
  have hw := waits_of_finds (posttrigpts_le .usr 60 0) rfl rfl hd h0
    (by rw [Nat.zero_add]; exact hr)
  rw [Active, watch_eq]
  exact hw.active

theorem inactive_of_found : Inactive .usr (InitTriggerInfo .usr 60 0) inp poll 51 := by
  rw [inactive_iff]
  exact inactive_of_finds (posttrigpts_le .usr 60 0) rfl rfl (by decide) hd

omit hd in
/-- What is sent from poll 51 on has been found from poll 1 on. -/
theorem exists_finds_of_sendsFor {n e : ℕ}
    (h : SendsFor .usr (InitTriggerInfo .usr 60 0) inp poll n e) (hn : 51 ≤ n) :
    ∃ d, 0 < d ∧ Finds .usr (InitTriggerInfo .usr 60 0) (ringPtr inp poll) d ∧
      lastEdge inp (poll d) = some e := by
  obtain ⟨-, d, hd, rfl, he⟩ := (sendsFor_iff (posttrigpts_le .usr 60 0) rfl rfl _ _).mp h
  have h50 : (InitTriggerInfo .usr 60 0).posttrigpts.toNat / 1000 = 50 := rfl
  exact ⟨d, by omega, hd, he⟩

end

/-- A trigger one turn of the ring after the last one: the address is the same. -/
theorem lapped_trigger_lost : ¬ NoLostTrigger .usr (InitTriggerInfo .usr 60 0)
    (regular 1 [5, 200005]) (pollEvery 4000) := by
  have hptr (n : ℕ) : ringPtr (regular 1 [5, 200005]) (pollEvery 4000) n = recAddr 5 := by
    have h5 : edge (regular 1 [5, 200005]) 5 = true := by decide
    have hpoll : 5 < pollEvery 4000 n := by
      unfold pollEvery
      omega
    obtain ⟨e, he, -⟩ := exists_lastEdge h5 hpoll
    have hmem := (edge_regular.mp (lastEdge_eq_some.mp he).2.1).1
    rw [ringPtr_eq, he, edgeAddr, addr_regular Nat.one_pos]
    rcases List.mem_pair.mp hmem with rfl | rfl
    · rfl
    · rfl
  have hd : Finds .usr (InitTriggerInfo .usr 60 0)
      (ringPtr (regular 1 [5, 200005]) (pollEvery 4000)) 0 := by
    refine ⟨rfl, ?_⟩
    rw [hptr]
    decide
  have hnext : NextPoll (pollEvery 4000) 200005 50 := by
    refine ⟨by unfold pollEvery; omega, ?_⟩
    intro r hr
    unfold pollEvery
    omega
  intro h
  obtain ⟨n, hn, hsend, -⟩ := h.pending 200005 50 50 (by simp [edge_regular]) hnext le_rfl
    (fun r h1 h2 => active_of_found hd (by omega) h2) (inactive_of_found hd)
    (quiet_regular (by simp [pollEvery]))
  obtain ⟨d, hpos, hfinds, -⟩ := exists_finds_of_sendsFor hsend hn
  obtain ⟨r, hr⟩ : ∃ r, LastRead .usr (InitTriggerInfo .usr 60 0)
    (ringPtr (regular 1 [5, 200005]) (pollEvery 4000)) r d := exists_lastRead rfl hpos
  apply hfinds.2
  rw [addr_last_eq, hr.taken, hptr, hptr]

/-- A trigger that the next one replaces after the waveform has been sent and before the register
is read. -/
theorem replaced_trigger_lost : ¬ NoLostTrigger .usr (InitTriggerInfo .usr 60 0)
    (regular 1 [5, 15, 515]) (pollEvery 10) := by
  have hd : Finds .usr (InitTriggerInfo .usr 60 0)
      (ringPtr (regular 1 [5, 15, 515]) (pollEvery 10)) 0 := by
    refine finds_of_read rfl (lastEdge_eq_some.mpr ⟨?_, ?_, ?_⟩) (e := 5) ?_
    · decide
    · decide
    · exact quiet_regular (by simp [pollEvery])
    · rw [addr_regular Nat.one_pos]
      decide
  have hnext : NextPoll (pollEvery 10) 15 1 := by
    refine ⟨by unfold pollEvery; omega, ?_⟩
    intro r hr
    unfold pollEvery
    omega
  intro h
  obtain ⟨n, hn, hsend, -⟩ := h.pending 15 1 50 (by decide) hnext (by decide)
    (fun r h1 h2 => active_of_found hd h1 h2) (inactive_of_found hd)
    (quiet_regular (by simp [pollEvery]))
  obtain ⟨d, hpos, hfinds, he⟩ := exists_finds_of_sendsFor hsend hn
  have hle : d ≤ 50 := by
    by_contra hlt
    have hquiet := (lastEdge_eq_some.mp he).2.2 515 (by decide) (by unfold pollEvery; omega)
    have hedge : edge (regular 1 [5, 15, 515]) 515 = true := by simp [edge_regular]
    rw [hquiet] at hedge
    cases hedge
  have hact := active_of_found hd hpos hle
  rw [Active, watch_eq, hfinds.1] at hact
  cases hact

theorem triggers_lost :
    ¬ NoLostTrigger .evr (InitTriggerInfo .evr 100 0) (regular 1 [5]) (pollEvery 10) ∧
    ¬ NoLostTrigger .usr (InitTriggerInfo .usr 60 0) (regular 1 [5, 200005]) (pollEvery 4000) ∧
    ¬ NoLostTrigger .usr (InitTriggerInfo .usr 60 0) (regular 1 [5, 15, 515]) (pollEvery 10) :=
  ⟨timing_trigger_lost, lapped_trigger_lost, replaced_trigger_lost⟩

/-! ## No record is overwritten -/

theorem written_mono : Monotone fun t => (ringAt inp t).written :=
  monotone_nat_of_le_succ fun t => by
    rw [ringAt_succ]
    simp only [Ring.step]
    split <;> omega

theorem written_le (hrate : RecordRate inp) (k t : ℕ) :
    (ringAt inp (t + k * 10 ^ 7)).written ≤ (ringAt inp t).written + 1000 * k := by
  induction k with
  | zero => simp
  | succ k ih =>
    rw [show t + (k + 1) * 10 ^ 7 = t + k * 10 ^ 7 + 10 ^ 7 by omega]
    calc (ringAt inp (t + k * 10 ^ 7 + 10 ^ 7)).written
        ≤ (ringAt inp (t + k * 10 ^ 7)).written + 1000 := hrate _
      _ ≤ (ringAt inp t).written + 1000 * k + 1000 := Nat.add_le_add_right ih 1000
      _ = (ringAt inp t).written + 1000 * (k + 1) := by rw [Nat.mul_succ, Nat.add_assoc]

theorem PollsSpaced.mono (h : PollsSpaced poll) : Monotone poll :=
  monotone_nat_of_le_succ fun n => (Nat.le_add_right _ _).trans (h n).1

theorem PollsSpaced.le (h : PollsSpaced poll) (n k : ℕ) :
    poll (n + k) ≤ poll n + k * (14 * 10 ^ 6) := by
  induction k with
  | zero => simp
  | succ k ih =>
    have hk := (h (n + k)).2
    rw [← Nat.add_assoc]
    omega

/-- An edge is later than every poll that read the register before the one that finds it. -/
theorem Finds.poll_le {q r e : ℕ} (hq : Finds ty init (ringPtr inp poll) q) (hpoll : Monotone poll)
    (hr : LastRead ty init (ringPtr inp poll) r q) (he : lastEdge inp (poll q) = some e) :
    poll r ≤ e := by
  by_contra hlt
  obtain ⟨-, hedge, hquiet⟩ := lastEdge_eq_some.mp he
  -- Otherwise poll `r` has read the same edge, and poll `q` finds nothing new.
  have hsame : lastEdge inp (poll r) = some e := by
    refine lastEdge_eq_some.mpr ⟨by omega, hedge, ?_⟩
    intro e' h1 h2
    exact hquiet e' h1 (h2.trans_le (hpoll hr.before.le))
  apply hq.2
  rw [addr_last_eq, hr.taken, ringPtr_eq, ringPtr_eq, hsame, he]

/-- The age of a trigger when it is sent: two waits and one poll, or, when the first poll finds it,
its age then and one wait. -/
theorem sendsFor_age (hpts : 1000 ≤ init.posttrigpts.toNat) (ha : init.active = 0)
    (hs : init.sendbuf = 0) (hpoll : PollsSpaced poll) {n e : ℕ}
    (h : SendsFor ty init inp poll n e) :
    poll n ≤ e + (2 * (init.posttrigpts.toNat / 1000) + 1) * (14 * 10 ^ 6) ∨
    poll n ≤ poll 0 + init.posttrigpts.toNat / 1000 * (14 * 10 ^ 6) := by
  obtain ⟨hevr, q, hq, rfl, he⟩ := (sendsFor_iff hpts ha hs _ _).mp h
  rcases Nat.eq_zero_or_pos q with rfl | hpos
  · right
    exact hpoll.le 0 _
  · left
    obtain ⟨r, hr⟩ : ∃ r, LastRead ty init (ringPtr inp poll) r q := exists_lastRead ha hpos
    have hrecent := hr.recent hpts ha hs hevr
    calc poll (q + init.posttrigpts.toNat / 1000)
        ≤ poll (r + (2 * (init.posttrigpts.toNat / 1000) + 1)) := hpoll.mono (by omega)
      _ ≤ poll r + (2 * (init.posttrigpts.toNat / 1000) + 1) * (14 * 10 ^ 6) := hpoll.le r _
      _ ≤ e + (2 * (init.posttrigpts.toNat / 1000) + 1) * (14 * 10 ^ 6) :=
        Nat.add_le_add_right (hq.poll_le hpoll.mono hr he) _

/-- A trigger that is sent within `k` times 100 ms, where `1000 * k` records and those before the
trigger are less than the ring. -/
theorem NotOverwritten.of_age (hrate : RecordRate inp) {n e k : ℕ}
    (hage : poll n ≤ e + k * 10 ^ 7)
    (hk : 1000 * k + 1 + init.pretrigpts.toNat < AxiWrite.SLOTS) :
    NotOverwritten init inp poll n e := by
  have hle : (ringAt inp (poll n)).written ≤ (ringAt inp e).written + 1000 * k :=
    (written_mono hage).trans (written_le hrate k e)
  have hS : AxiWrite.SLOTS = 200000 := rfl
  rw [hS] at hk
  refine ⟨by omega, ?_⟩
  intro r r' hr hlt hr'
  rw [hS]
  omega

/-- The waveform of a trigger after the first poll, or not long before it, is sent before any
record of it is overwritten. -/
theorem window_not_overwritten (ty : TrigType) (MSGID : BitVec 32) (i : ℕ) (inp : ℕ → RingIn)
    (poll : ℕ → ℕ) (hpoll : PollsSpaced poll) (hrate : RecordRate inp) (n e : ℕ)
    (hsend : SendsFor ty (InitTriggerInfo ty MSGID i) inp poll n e)
    (hfirst : poll 0 ≤ e + headroom ty) :
    NotOverwritten (InitTriggerInfo ty MSGID i) inp poll n e := by
  have hage := sendsFor_age (posttrigpts_le ty MSGID i) rfl rfl hpoll hsend
  have hS : AxiWrite.SLOTS = 200000 := rfl
  by_cases hinj : ty = .inj
  · have hpost : (InitTriggerInfo ty MSGID i).posttrigpts.toNat = 8000 := by
      simp [InitTriggerInfo, hinj]
    have hpre : (InitTriggerInfo ty MSGID i).pretrigpts.toNat = 0 := by
      simp [InitTriggerInfo, hinj]
    rw [headroom, if_pos hinj] at hfirst
    rw [hpost] at hage
    exact .of_age (k := 199) hrate (by omega) (by rw [hpre, hS]; decide)
  · have hpost : (InitTriggerInfo ty MSGID i).posttrigpts.toNat = 50000 := by
      simp [InitTriggerInfo, hinj]
    have hpre : (InitTriggerInfo ty MSGID i).pretrigpts.toNat = 50000 := by
      simp [InitTriggerInfo, hinj]
    rw [headroom, if_neg hinj] at hfirst
    rw [hpost] at hage
    exact .of_age (k := 149) hrate (by omega) (by rw [hpre, hS]; decide)

/-! ### Two runs at the rate of the firmware -/

theorem recordRate_regular (es : List ℕ) : RecordRate (regular 10000 es) := by
  intro t
  rw [written_regular (by decide), written_regular (by decide)]
  omega

/-- Polls 100 ms apart, the first after `s` times 100 ms. -/
def pollFrom (s n : ℕ) : ℕ := 10 ^ 7 * (s + n)

theorem pollsSpaced_pollFrom (s : ℕ) : PollsSpaced (pollFrom s) := by
  intro n
  unfold pollFrom
  omega

/-- A trigger at clock 20000 that the first poll finds. -/
theorem sendsFor_first (hpoll : 20000 < poll 0) :
    SendsFor .usr (InitTriggerInfo .usr 60 0) (regular 10000 [20000]) poll 50 20000 := by
  have hedge : edge (regular 10000 [20000]) 20000 = true := by simp [edge_regular]
  have hlast : lastEdge (regular 10000 [20000]) (poll 0) = some 20000 :=
    lastEdge_eq_some.mpr ⟨hpoll, hedge, quiet_regular (by simp)⟩
  refine (sendsFor_iff (posttrigpts_le .usr 60 0) rfl rfl _ _).mpr
    ⟨by decide, 0, finds_of_read rfl hlast ?_, rfl, hlast⟩
  rw [addr_regular (by decide)]
  show recAddr 2 ≠ 0
  decide

/-- The polls begin before the trigger is old. -/
theorem user_window_not_overwritten :
    PollsSpaced (pollFrom 1) ∧ RecordRate (regular 10000 [20000]) ∧
    SendsFor .usr (InitTriggerInfo .usr 60 0) (regular 10000 [20000])
      (pollFrom 1) 50 20000 ∧
    NotOverwritten (InitTriggerInfo .usr 60 0) (regular 10000 [20000])
      (pollFrom 1) 50 20000 := by
  have hfirst : 20000 < pollFrom 1 0 := by
    unfold pollFrom
    omega
  have hroom : headroom .usr = 79 * 10 ^ 7 := rfl
  refine ⟨pollsSpaced_pollFrom 1, recordRate_regular _, sendsFor_first hfirst, ?_⟩
  refine window_not_overwritten .usr 60 0 _ _ (pollsSpaced_pollFrom 1) (recordRate_regular _) _ _
    (sendsFor_first hfirst) ?_
  rw [hroom]
  unfold pollFrom
  omega

/-- The first poll comes 20 s after the start, and the trigger is sent after 25 s. -/
theorem stale_window_overwritten :
    PollsSpaced (pollFrom 200) ∧ RecordRate (regular 10000 [20000]) ∧
    SendsFor .usr (InitTriggerInfo .usr 60 0) (regular 10000 [20000])
      (pollFrom 200) 50 20000 ∧
    ¬ NotOverwritten (InitTriggerInfo .usr 60 0) (regular 10000 [20000])
      (pollFrom 200) 50 20000 := by
  refine ⟨pollsSpaced_pollFrom 200, recordRate_regular _,
    sendsFor_first (by unfold pollFrom; omega), ?_⟩
  intro h
  have hcount := h.count
  have hpre : (InitTriggerInfo .usr 60 0).pretrigpts.toNat = 50000 := rfl
  rw [written_regular (by decide), written_regular (by decide), hpre, AxiWrite.SLOTS] at hcount
  unfold pollFrom at hcount
  omega

end Zpsc.Snapshot
