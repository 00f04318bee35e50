import Zpsc.Snapshot.Proofs.CoherenceProofs
import Zpsc.Snapshot.Proofs.RingProofs

/-!
# The writer from trigger to trigger

Between bursts the writer is idle at some record of the ring (`Ready`); a burst that ends leaves it
idle at the next one.
-/

namespace Zpsc.AxiWrite

open Clocked

variable {s : AxiWrite} {i : Input} {inp : ℕ → Input} {n t T : ℕ}

/-- The writer is idle after `n` records. -/
structure Ready (s : AxiWrite) (n : ℕ) : Prop extends RingInv s where
  idle : s.state = .IDLE
  wvalid : s.wvalid = false
  wlast : s.wlast = false
  count : s.datacnt.toNat = n % SLOTS

theorem RingInv.clock (h : RingInv s) (hr : i.reset = false) : RingInv (AxiWrite.step s i) := by
  refine h.step ?_
  intro hr'
  rw [hr'] at hr
  cases hr

theorem ready_reset (hr : i.reset = true) : Ready (step powerUp i) 0 := by
  have hring : RingInv powerUp :=
    ⟨⟨show (0 : BitVec 32).toNat < SLOTS by decide, rfl⟩, fun hne => absurd rfl hne⟩
  have hstep := hring.step (i := i) fun _ => rfl
  rw [step, if_pos hr] at hstep ⊢
  exact ⟨hstep, rfl, rfl, rfl, rfl⟩

/-- Without a trigger the writer stays idle. -/
theorem Ready.quiet (h : Ready s n) (hr : i.reset = false) (htrig : i.trigger = false) :
    Ready (step s i) n ∧ (step s i).prev_trigger = false := by
  have hna : ¬ Accepts s i := by
    intro ha
    rw [ha.trigger] at htrig
    cases htrig
  have hring := h.toRingInv.clock hr
  rw [step_quiet hr h.idle hna] at hring ⊢
  exact ⟨⟨hring, h.idle, h.wvalid, h.wlast, h.count⟩, htrig⟩

/-- What a burst keeps while it runs. -/
structure Kept (s s' : AxiWrite) : Prop where
  ring : RingInv s'
  busy : s'.state ≠ .IDLE
  datacnt : s'.datacnt = s.datacnt
  addr_base : s'.addr_base = s.addr_base

theorem kept (h : Ready s n) (hacc : Accepts s (inp 0)) (hres : NoReset s inp) (ht : 0 < t)
    (hrun : Running s inp t) : Kept s (trace step s inp t) := by
  refine hold (P := fun t => Kept s (trace step s inp t)) ht ?_ ?_
  · intro v hv hvt hk
    have hrun' : Running s inp v := fun u hu => hrun u (by omega)
    have hr : (inp v).reset = false := hres v hrun'
    have hnc : ¬ Completes s inp v := hrun v hvt
    rw [trace_succ]
    refine ⟨hk.ring.clock hr, ?_, ?_, ?_⟩
    · intro hidle
      exact (step_idle hr hidle).elim (fun h' => hk.busy h'.1) hnc
    · exact (step_datacnt hr hnc).trans hk.datacnt
    · exact (step_addr hr hnc).1.trans hk.addr_base
  · obtain ⟨hst, -, -, -, hd, -, hab⟩ := step_accept hacc
    refine ⟨h.toRingInv.clock hacc.noReset, ?_, hd, hab⟩
    rw [trace_succ, trace_zero, hst]
    decide

/-- The end of a burst leaves the writer idle at the next record. -/
theorem Ready.burst (h : Ready s n) (hacc : Accepts s (inp 0)) (hres : NoReset s inp)
    (hrun : Running s inp T) (hc : Completes s inp T) :
    Ready (trace step s inp (T + 1)) (n + 1) := by
  have hk := kept h hacc hres (completes_pos hacc hc) hrun
  have hr : (inp T).reset = false := hres T hrun
  obtain ⟨hst, hb⟩ := hc
  obtain ⟨hv, hl, -⟩ := step_await hr hst
  obtain ⟨-, hcount⟩ := hk.ring.toRingAt.respond hr hst hb
  rw [trace_succ]
  refine ⟨hk.ring.clock hr, (step_respond hr hst hb).1, hv, hl, ?_⟩
  rw [hcount, hk.datacnt, h.count, Nat.mod_add_mod]

/-- A burst ends at the first clock at which all words have been put on the bus and the slave
answers. -/
theorem completes_by (hacc : Accepts s (inp 0)) (hv : s.wvalid = false) (hres : NoReset s inp)
    (hn : 40 ≤ Nat.count (Loads inp) t) (hb : (inp t).bvalid = true) :
    ∃ T ≤ t, Running s inp T ∧ Completes s inp T := by
  classical
  by_cases hrun : Running s inp t
  · exact ⟨t, le_rfl, hrun, (completes_iff hacc hv hres hrun).mpr ⟨hn, hb⟩⟩
  · unfold Running at hrun
    push Not at hrun
    obtain ⟨u, hut, hu⟩ := hrun
    have hex : ∃ u, Completes s inp u := ⟨u, hu⟩
    exact ⟨Nat.find hex, (Nat.find_min' hex hu).trans hut.le, fun v hv => Nat.find_min hex hv,
      Nat.find_spec hex⟩

/-- What a burst has brought at its end. -/
theorem beats_eq (h : Ready s n) (hacc : Accepts s (inp 0)) (hres : NoReset s inp)
    (hlast : LastReady inp) (hrun : Running s inp T) (hc : Completes s inp T) :
    beats s inp (T + 1) = (List.range BURST_LEN).map fun k =>
      ((record (inp (Nat.nth (Loads inp) k)) s.datacnt).getD k 0, decide (k + 1 = BURST_LEN)) := by
  obtain ⟨u, hu, hn, hb⟩ :=
    (phase_of_running hacc h.wvalid hres (completes_pos hacc hc) hrun).beats_of_completes hc
  rw [hb, hlast u hu (by rw [hn]; rfl), if_pos rfl, whole_eq h.wlast]

theorem record_zero (i : Input) (cnt : BitVec 32) : (record i cnt).getD 0 0 = 0x80000000 := rfl

theorem record_one (i : Input) (cnt : BitVec 32) : (record i cnt).getD 1 0 = cnt := rfl

/-- The words after the readings. -/
theorem record_tail (i : Input) (cnt : BitVec 32) (l : ℕ) : (record i cnt).getD (l + 32 + 2) 0 =
    [digbits i .ps1, digbits i .ps2, digbits i .ps3, digbits i .ps4, 39, 40].getD l 0 := rfl

/-- Words 2 to 33 of a record are those of the readings, the others do not depend on them. -/
theorem record_congr {i : Input} {d : Chan → DcctAdcs} {m : Chan → MonAdcsCal} (cnt : BitVec 32)
    {k : ℕ} (hk : k < BURST_LEN) (hdcct : k < 28 → i.dcct_adcs = d)
    (hmon : k < 34 → i.mon_adcs = m) :
    (record i cnt).getD k 0 = (record { i with dcct_adcs := d, mon_adcs := m } cnt).getD k 0 := by
  rcases Nat.lt_or_ge k 2 with hlow | hge
  · obtain rfl | rfl : k = 0 ∨ k = 1 := by omega
    · rw [record_zero, record_zero]
    · rw [record_one, record_one]
  · obtain ⟨j, rfl⟩ := Nat.exists_eq_add_of_le' hge
    rcases Nat.lt_or_ge j 32 with hlt | hhigh
    · rw [record_adcWords i cnt hlt, record_adcWords _ cnt hlt]
      refine adcWords_congr hlt ?_ ?_
      · intro hj
        exact hdcct (by omega)
      · intro _
        exact hmon (by omega)
    · rw [BURST_LEN] at hk
      obtain ⟨l, rfl⟩ := Nat.exists_eq_add_of_le' hhigh
      rw [record_tail, record_tail]
      rfl

end Zpsc.AxiWrite
