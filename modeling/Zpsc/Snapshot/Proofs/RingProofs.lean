import Zpsc.Snapshot.Proofs.BurstProofs

/-!
# The position in the ring

`datacnt` and `addr_base` move together from record to record, and wrap together at the last slot. A
reset clears only the first of them.
-/

namespace Zpsc.AxiWrite

open Clocked

variable {s : AxiWrite} {i : Input} {inp : ℕ → Input}

/-! ## One clock -/

theorem step_reset (hr : i.reset = true) :
    (step s i).state = .IDLE ∧ (step s i).datacnt = 0 ∧ (step s i).addr_base = s.addr_base := by
  unfold step
  rw [hr]
  exact ⟨rfl, rfl, rfl⟩

/-- Only the end of a response moves the addresses. -/
theorem step_addr (hr : i.reset = false) (h : ¬ (s.state = .AWAITRESP ∧ i.bvalid = true)) :
    (step s i).addr_base = s.addr_base ∧
    ((step s i).state = .IDLE ∨
      (step s i).awaddr = if s.state = .IDLE then s.addr_base else s.awaddr) := by
  rcases state_cases s.state with hs | hs | ⟨k, hk, hs⟩ | hs | hs
  · by_cases ha : Accepts s i
    · obtain ⟨-, -, -, -, -, haw, hab⟩ := step_accept ha
      exact ⟨hab, .inr (haw.trans (if_pos hs).symm)⟩
    · rw [step_quiet hr hs ha]
      exact ⟨rfl, .inl hs⟩
  · rw [step_address hr hs, hs, if_neg (c := State.ADDRESS = .IDLE) (by decide)]
    split <;> exact ⟨rfl, .inr rfl⟩
  · rw [step_beat hk hr hs, write_word, hs, if_neg (beatState_ne k (by omega)).2]
    split <;> exact ⟨rfl, .inr rfl⟩
  · rw [step_last hr hs, hs, if_neg (c := State.WRDLAST = .IDLE) (by decide)]
    split <;> exact ⟨rfl, .inr rfl⟩
  · have hb : i.bvalid = false := by simpa using fun hb => h ⟨hs, hb⟩
    unfold step
    rw [hr, hs]
    simp [hb]

/-- The end of a response goes to the next slot, or from the last slot to the first. -/
theorem step_respond (hr : i.reset = false) (hs : s.state = .AWAITRESP) (hb : i.bvalid = true) :
    (step s i).state = .IDLE ∧
    ((s.addr_base < DDR_MAX_ADDR ∧ (step s i).datacnt = s.datacnt + 1 ∧
        (step s i).addr_base = s.addr_base + BitVec.ofNat 32 (4 * BURST_LEN)) ∨
      (¬ s.addr_base < DDR_MAX_ADDR ∧ (step s i).datacnt = 0 ∧
        (step s i).addr_base = DDR_BASE_ADDR)) := by
  unfold step
  rw [hr, hs]
  simp only [Bool.false_eq_true, if_false, hb, if_true]
  split
  · next h => exact ⟨rfl, .inl ⟨h, rfl, rfl⟩⟩
  · next h => exact ⟨rfl, .inr ⟨h, rfl, rfl⟩⟩

/-! ## The ring position -/

theorem RingAt.respond (h : RingAt s) (hr : i.reset = false) (hs : s.state = .AWAITRESP)
    (hb : i.bvalid = true) :
    RingAt (step s i) ∧ (step s i).datacnt.toNat = (s.datacnt.toNat + 1) % SLOTS := by
  obtain ⟨hslot, haddr⟩ := h
  have hbase : DDR_BASE_ADDR.toNat = 0x10000000 := rfl
  have hmax : DDR_MAX_ADDR.toNat = 0x11E84760 := rfl
  simp only [slotAddr, hbase, BURST_LEN, SLOTS] at hslot haddr
  obtain ⟨-, ⟨hlt, hd, ha⟩ | ⟨hge, hd, ha⟩⟩ := step_respond hr hs hb
  · rw [BitVec.lt_def, hmax, haddr] at hlt
    have hd' : (step s i).datacnt.toNat = s.datacnt.toNat + 1 := by
      rw [hd, BitVec.toNat_add]
      exact Nat.mod_eq_of_lt (by simp; omega)
    have ha' : (step s i).addr_base.toNat = s.addr_base.toNat + 160 := by
      rw [ha, BitVec.toNat_add]
      exact Nat.mod_eq_of_lt (by simp [BURST_LEN]; omega)
    refine ⟨⟨?_, ?_⟩, ?_⟩
    · rw [hd', SLOTS]
      omega
    · rw [ha', hd', haddr, slotAddr, hbase, BURST_LEN]
      omega
    · rw [hd', SLOTS, Nat.mod_eq_of_lt (by omega)]
  · rw [BitVec.lt_def, hmax, haddr] at hge
    have hlast : s.datacnt.toNat = 199999 := by omega
    rw [hlast]
    exact ⟨⟨by rw [hd]; decide, by rw [ha, hd]; rfl⟩, by rw [hd]; rfl⟩

/-- The invariant of a run: the counters agree, and a burst in progress is addressed to the slot. -/
structure RingInv (s : AxiWrite) : Prop extends RingAt s where
  awaddr : s.state ≠ .IDLE → s.awaddr = s.addr_base

theorem RingInv.step (h : RingInv s) (hreset : i.reset = true → s.addr_base = DDR_BASE_ADDR) :
    RingInv (AxiWrite.step s i) := by
  cases hr : i.reset with
  | true =>
    obtain ⟨hst, hd, ha⟩ := step_reset (s := s) hr
    refine ⟨⟨by rw [hd]; decide, ?_⟩, fun hne => absurd hst hne⟩
    rw [ha, hd, hreset hr]
    rfl
  | false =>
    by_cases hc : s.state = .AWAITRESP ∧ i.bvalid = true
    · exact ⟨(h.toRingAt.respond hr hc.1 hc.2).1,
        fun hne => absurd (step_respond hr hc.1 hc.2).1 hne⟩
    · obtain ⟨hab, haw⟩ := step_addr hr hc
      have hd := step_datacnt hr hc
      refine ⟨⟨by rw [hd]; exact h.slot, by rw [hab, hd]; exact h.addr⟩, ?_⟩
      intro hne
      rw [hab, haw.resolve_left hne]
      split
      · rfl
      · next hst => exact h.awaddr hst

theorem ringInv_trace
    (h : ∀ t, (inp t).reset = true → (trace step powerUp inp t).addr_base = DDR_BASE_ADDR) (t : ℕ) :
    RingInv (trace step powerUp inp t) := by
  induction t with
  | zero => exact ⟨⟨show (0 : BitVec 32).toNat < SLOTS by decide, rfl⟩, fun hne => absurd rfl hne⟩
  | succ t ih => exact ih.step (h t)

/-- Between two accepted triggers exactly one response ends. -/
theorem slot_next (hring : ∀ t, RingAt (trace step s inp t)) {t t' : ℕ} (htt : t < t')
    (ha : Accepts (trace step s inp t) (inp t)) (ha' : Accepts (trace step s inp t') (inp t'))
    (hbetween : ∀ u, t < u → u < t' →
      (inp u).reset = false ∧ ¬ Accepts (trace step s inp u) (inp u)) :
    (trace step s inp t').datacnt.toNat = ((trace step s inp t).datacnt.toNat + 1) % SLOTS := by
  have hcourse := hold (P := fun u =>
      ((trace step s inp u).state ≠ .IDLE ∧
        (trace step s inp u).datacnt = (trace step s inp t).datacnt) ∨
      ((trace step s inp u).state = .IDLE ∧
        (trace step s inp u).datacnt.toNat = ((trace step s inp t).datacnt.toNat + 1) % SLOTS))
    (t := t + 1) (u := t') htt ?_ ?_
  · exact (hcourse.resolve_left fun h => h.1 ha'.idle).2
  · intro u hu hut ih
    obtain ⟨hr, hna⟩ := hbetween u (by omega) hut
    rw [trace_succ]
    rcases ih with ⟨hst, hd⟩ | ⟨hst, hd⟩
    · by_cases hc : (trace step s inp u).state = .AWAITRESP ∧ (inp u).bvalid = true
      · refine .inr ⟨(step_respond hr hc.1 hc.2).1, ?_⟩
        rw [((hring u).respond hr hc.1 hc.2).2, hd]
      · refine .inl ⟨?_, (step_datacnt hr hc).trans hd⟩
        intro hidle
        exact (step_idle hr hidle).elim (fun h => hst h.1) hc
    · right
      rw [step_quiet hr hst hna]
      exact ⟨hst, hd⟩
  · obtain ⟨hst, -, -, -, hd, -, -⟩ := step_accept ha
    left
    rw [trace_succ, hst]
    exact ⟨by decide, hd⟩

/-- The ring position is right in every state of a run exactly when every reset comes while the ring
is at its first slot. -/
theorem ringOk_iff (inp : ℕ → Input) :
    RingOk inp ↔
      ∀ t, (inp t).reset = true → (trace step powerUp inp t).addr_base = DDR_BASE_ADDR := by
  constructor
  · intro h t hr
    obtain ⟨-, hd, ha⟩ := step_reset (s := trace step powerUp inp t) hr
    have haddr := (h.ring (t + 1)).addr
    rw [trace_succ, ha, hd] at haddr
    exact BitVec.eq_of_toNat_eq haddr
  · intro h
    have hring := ringInv_trace h
    refine ⟨fun t => (hring t).toRingAt, ?_, ?_⟩
    · intro t hst hr hw
      have hinv := hring t
      have haw := hinv.awaddr (by rw [hst]; decide)
      have hstep := step_beat (k := 1) (i := inp t) (by decide) hr hst
      rw [hw, write_word, if_pos rfl] at hstep
      rw [trace_succ, hstep]
      exact (congrArg BitVec.toNat haw).trans hinv.addr
    · intro t t' htt ha ha' hb
      exact slot_next (fun t => (hring t).toRingAt) htt ha ha' hb

/-- One record is written, and the reset at clock 50 leaves the address at the second slot. -/
theorem reset_not_ringOk : ¬ RingOk fun t =>
    { oneTrigger (fun _ => true) (fun t => decide (43 ≤ t)) t with reset := t == 50 } := by
  intro h
  exact absurd (h.ring 51).addr (by decide +kernel)

end Zpsc.AxiWrite
