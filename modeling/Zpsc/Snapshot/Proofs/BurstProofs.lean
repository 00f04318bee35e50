import Zpsc.Snapshot.Proofs.AxiWriteProofs

/-!
# The integrity of a burst

The record reaches the memory whole exactly when the slave takes the last word in the one clock it
stays on the bus, is ready for the first without waiting for it, and no reset has left `wlast` set.
-/

namespace Zpsc.AxiWrite

open Clocked

variable {s : AxiWrite} {inp : ℕ → Input} {t : ℕ}

/-! ## The last word -/

/-- The clock after word 40 was put on the bus. -/
theorem Phase.last_of_load (h : Phase s inp (t + 1)) (hload : Loads inp t)
    (hn : Nat.count (Loads inp) t = 39) :
    (trace step s inp (t + 1)).state = .AWAITRESP ∧
    (trace step s inp (t + 1)).wvalid = true ∧ (trace step s inp (t + 1)).wlast = true := by
  have hcount : Nat.count (Loads inp) (t + 1) = 40 := by rw [Nat.count_succ, hn, if_pos hload]
  rcases h with ⟨hna, -, -, -, -, -⟩ | ⟨n, -, hn', hlt, -, -, -, -, -⟩ |
    ⟨u, -, -, -, hst, hv, -, hl, -⟩ | ⟨u, hut, hu, hnu, -, -, -⟩
  · exact absurd (addressed_succ.mpr (.inl hload.1)) hna
  · omega
  · exact ⟨hst, hv, hl⟩
  · have : u = t := Nat.count_injective hu hload (hnu.trans hn.symm)
    omega

theorem Phase.exists_last (h : Phase s inp t) (hn : 40 ≤ Nat.count (Loads inp) t) :
    ∃ u, Loads inp u ∧ Nat.count (Loads inp) u = 39 := by
  rcases h with ⟨hna, -, -, -, -, -⟩ | ⟨n, -, hn', hlt, -, -, -, -, -⟩ |
    ⟨u, -, hu, hnu, -, -, -, -, -⟩ | ⟨u, -, hu, hnu, -, -, -⟩
  · have := count_of_not_addressed hna
    omega
  · omega
  · exact ⟨u, hu, hnu⟩
  · exact ⟨u, hu, hnu⟩

/-- A burst that ends has put all its words on the bus, and the slave has accepted the last one if
it was ready for it at once. -/
theorem Phase.beats_of_completes (h : Phase s inp t) (hc : Completes s inp t) :
    ∃ u, Loads inp u ∧ Nat.count (Loads inp) u = 39 ∧ beats s inp (t + 1) = early s inp 39 ++
      if (inp (u + 1)).wready then [(loaded s inp 39, true)] else [] := by
  obtain ⟨hst', -⟩ := hc
  rcases h with ⟨-, hst, -, -, -, -⟩ | ⟨n, -, -, hlt, hst, -, -, -, -⟩ |
    ⟨u, rfl, hu, hn, -, hv, hd, hl, hb⟩ | ⟨u, -, hu, hn, -, hv, hb⟩
  · rw [hst] at hst'
    cases hst'
  · exact absurd (hst.symm.trans hst') (beatState_ne n hlt).1
  · refine ⟨u, hu, hn, ?_⟩
    rw [beats_succ, hb, beat_of_valid hv, hd, hl]
  · refine ⟨u, hu, hn, ?_⟩
    rw [beats_succ, hb, beat_of_not_valid hv, List.append_nil]

/-! ## The burst ends -/

/-- With a word on the bus the slave takes one more, until all 40 are there. -/
theorem exists_count_succ (hslave : Axi4Slave s inp) (hphase : ∀ t, 0 < t → Phase s inp t)
    {k : ℕ} (hpos : 0 < k) (hk : k < 40) (h : k ≤ Nat.count (Loads inp) t) :
    ∃ u, k + 1 ≤ Nat.count (Loads inp) u := by
  by_contra hno
  push Not at hno
  have hstay : ∀ u, t ≤ u → Nat.count (Loads inp) u = k := by
    intro u hu
    have := Nat.count_monotone (Loads inp) hu
    have := hno u
    omega
  have htpos : 0 < t := by
    rcases Nat.eq_zero_or_pos t with rfl | hp
    · rw [Nat.count_zero] at h
      omega
    · exact hp
  have hload : ∀ u, t ≤ u → (trace step s inp u).wvalid = true ∧ Addressed inp u := by
    intro u hu
    rcases hphase u (by omega) with ⟨hna, -, -, -, -, -⟩ | ⟨n, ha, hn, hlt, -, hv, -, -, -⟩ |
      ⟨v, rfl, hv, hn, -, -, -, -, -⟩ | ⟨v, hvu, hv, hn, -, -, -⟩
    · have := count_of_not_addressed hna
      have := hstay u hu
      omega
    · rw [hstay u hu] at hn
      subst hn
      exact ⟨by simpa [hpos] using hv, ha⟩
    · have := Nat.count_strict_mono hv (Nat.lt_add_one v)
      have := hstay (v + 1) hu
      omega
    · have := Nat.count_strict_mono hv (show v < u by omega)
      have := hstay u hu
      omega
  obtain ⟨u, hu, hw⟩ := hslave.wready_comes t fun u hu => (hload u hu).1
  have hu' := hstay (u + 1) (by omega)
  rw [Nat.count_succ, hstay u hu, if_pos (show Loads inp u from ⟨(hload u hu).2, hw⟩)] at hu'
  omega

theorem exists_completes (hacc : Accepts s (inp 0)) (hv : s.wvalid = false)
    (hres : NoReset s inp) (hslave : Axi4Slave s inp) (hfirst : ReadyFirst inp)
    (hlast : LastReady inp) : ∃ t, Running s inp t ∧ Completes s inp t := by
  suffices h : ∃ t, Completes s inp t by
    classical
    exact ⟨Nat.find h, fun u hu => Nat.find_min h hu, Nat.find_spec h⟩
  by_contra hnever
  push Not at hnever
  have hrun : ∀ t, Running s inp t := fun t u _ => hnever u
  have hphase : ∀ t, 0 < t → Phase s inp t := fun t ht =>
    phase_of_running hacc hv hres ht (hrun t)
  obtain ⟨t₀, h₀⟩ := hfirst
  -- all words are put on the bus
  have hall : ∀ k, 0 < k → k ≤ 40 → ∃ t, k ≤ Nat.count (Loads inp) t := by
    intro k hpos
    induction k, hpos using Nat.le_induction with
    | base =>
      intro _
      exact ⟨t₀ + 1, by rw [Nat.count_succ, if_pos h₀]; omega⟩
    | succ k hk ih =>
      intro hle
      obtain ⟨t, ht⟩ := ih (by omega)
      exact exists_count_succ hslave hphase hk (by omega) ht
  obtain ⟨t, ht⟩ := hall 40 (by omega) le_rfl
  have htpos : 0 < t := Nat.pos_of_ne_zero fun h => by
    rw [h, Nat.count_zero] at ht
    omega
  -- the last one is accepted, so the response comes
  obtain ⟨u, hu, hn⟩ := (hphase t htpos).exists_last ht
  obtain ⟨hst, hvalid, hlast'⟩ := (hphase (u + 1) (by omega)).last_of_load hu hn
  obtain ⟨v, huv, hb⟩ := hslave.bvalid_comes (u + 1) hvalid hlast' (hlast u hu (by rw [hn]; rfl))
  refine hnever v ((completes_iff hacc hv hres (hrun v)).mpr ⟨?_, hb⟩)
  have := Nat.count_strict_mono hu (show u < v by omega)
  omega

/-! ## The record is whole -/

/-- The word on the bus waits for the slave, but for the last one. -/
theorem Phase.held (h : Phase s inp t) (hr : (inp t).reset = false) (hlast : LastReady inp) :
    Held s inp t := by
  intro hvalid hw
  rcases h with ⟨-, -, -, hv, -, -⟩ | ⟨n, -, -, hlt, hst, -, -, -, -⟩ |
    ⟨u, rfl, hu, hn, -, -, -, -, -⟩ | ⟨u, -, -, -, -, hv, -⟩
  · rw [hv] at hvalid
    cases hvalid
  · rw [trace_succ, step_wait hlt hr hst hw]
    exact ⟨hvalid, rfl, rfl⟩
  · rw [hlast u hu (by rw [hn]; rfl)] at hw
    cases hw
  · rw [hv] at hvalid
    cases hvalid

theorem whole_eq (hl : s.wlast = false) :
    early s inp 39 ++ [(loaded s inp 39, true)] = (List.range BURST_LEN).map fun k =>
      ((record (inp (Nat.nth (Loads inp) k)) s.datacnt).getD k 0, decide (k + 1 = BURST_LEN)) := by
  rw [show BURST_LEN = 39 + 1 from rfl, List.range_succ, List.map_append, early, hl]
  refine congrArg (· ++ _) (List.map_congr_left ?_)
  intro k hk
  have := List.mem_range.mp hk
  simp [loaded, show k ≠ 39 by omega]

theorem burstOk_iff (hs : Reachable s) (hacc : Accepts s (inp 0)) (hres : NoReset s inp)
    (hslave : Axi4Slave s inp) :
    BurstOk s inp ↔ s.wlast = false ∧ ReadyFirst inp ∧ LastReady inp := by
  have hv := wvalid_of_idle hs hacc.idle
  constructor
  · rintro ⟨hheld, t, hrun, hc, hbeats⟩
    have hphase := phase_of_running hacc hv hres (completes_pos hacc hc) hrun
    obtain ⟨u, hu, hn, hb⟩ := hphase.beats_of_completes hc
    refine ⟨?_, ⟨u, hu⟩, ?_⟩
    · -- the first beat carries the `wlast` the burst began with
      rw [hb] at hbeats
      have h0 := congrArg (fun l => l[0]?) hbeats
      simp [early, BURST_LEN] at h0
      exact h0.2
    · intro v hload hv39
      have hn' : Nat.count (Loads inp) v = 39 := by
        rw [BURST_LEN] at hv39
        omega
      -- the burst is still running when the last word is on the bus
      have hrun' : Running s inp (v + 1) := running_of_count hacc hv hres (by omega)
      obtain ⟨hst, hvalid, -⟩ :=
        (phase_of_running hacc hv hres (by omega) hrun').last_of_load hload hn'
      by_contra hready
      have := (hheld _ hrun' hvalid (by simpa using hready)).1
      rw [trace_succ, (step_await (hres _ hrun') hst).1] at this
      cases this
  · rintro ⟨hl, hfirst, hlast⟩
    refine ⟨?_, ?_⟩
    · intro t hrun
      rcases Nat.eq_zero_or_pos t with rfl | htpos
      · intro hvalid
        rw [trace_zero, hv] at hvalid
        cases hvalid
      · exact (phase_of_running hacc hv hres htpos hrun).held (hres t hrun) hlast
    · obtain ⟨t, hrun, hc⟩ := exists_completes hacc hv hres hslave hfirst hlast
      have hphase := phase_of_running hacc hv hres (completes_pos hacc hc) hrun
      obtain ⟨u, hu, hn, hb⟩ := hphase.beats_of_completes hc
      refine ⟨t, hrun, hc, ?_⟩
      rw [hb, hlast u hu (by rw [hn]; rfl), if_pos rfl, whole_eq hl]

/-- A trigger at clock 0, a slave that accepts the address at once, and the given `wready` and
`bvalid`; all readings and digital signals are zero. -/
def oneTrigger (wready bvalid : ℕ → Bool) : ℕ → Input := fun t =>
  { reset := false
    trigger := t == 0
    awready := true
    wready := wready t
    bvalid := bvalid t
    dcct_adcs := fun _ => ⟨0, 0⟩
    mon_adcs := fun _ => ⟨⟨0, 0, 0⟩, 0, 0, 0⟩
    dig_cntrl := fun _ => ⟨false, false, false, false, false, false, false⟩
    dig_stat := fun _ => ⟨false, false, false, false, false⟩
    fault_stat := fun _ => ⟨0, 0, false, false, false⟩ }

theorem reachable_powerUp : Reachable powerUp := ⟨[], rfl⟩

theorem accepts_oneTrigger (wready bvalid : ℕ → Bool) :
    Accepts powerUp (oneTrigger wready bvalid 0) := ⟨rfl, rfl, rfl, rfl⟩

/-- A slave that is always ready and answers from clock 43 on. -/
theorem prompt_burstOk : BurstOk powerUp (oneTrigger (fun _ => true) fun t => decide (43 ≤ t)) := by
  refine (burstOk_iff reachable_powerUp (accepts_oneTrigger _ _) (fun _ _ => rfl) ?_).mpr
    ⟨rfl, ⟨2, ⟨1, by decide, by decide, rfl⟩, rfl⟩, fun _ _ _ => rfl⟩
  refine ⟨fun t _ => ⟨t, le_rfl, rfl⟩, fun t _ => ⟨t, le_rfl, rfl⟩, ?_⟩
  intro t _ _ _
  refine ⟨t + 43, by omega, ?_⟩
  simp [oneTrigger]

/-- A slave that is not ready in the one clock in which the last word is on the bus, and waits for
it. -/
def busyAtLast : ℕ → Input := oneTrigger (fun t => t != 42) fun _ => false

theorem busyAtLast_not_burstOk :
    Reachable powerUp ∧ Accepts powerUp (busyAtLast 0) ∧ NoReset powerUp busyAtLast ∧
    Axi4Slave powerUp busyAtLast ∧ ¬ BurstOk powerUp busyAtLast := by
  have hacc : Accepts powerUp (busyAtLast 0) := accepts_oneTrigger _ _
  have hres : NoReset powerUp busyAtLast := fun _ _ => rfl
  have hrun : ∀ t, Running powerUp busyAtLast t := fun t u _ hc => Bool.false_ne_true hc.2
  have h41 : Loads busyAtLast 41 ∧ Nat.count (Loads busyAtLast) 41 = 39 := by decide +kernel
  refine ⟨reachable_powerUp, hacc, hres, ⟨fun t _ => ⟨t, le_rfl, rfl⟩, ?_, ?_⟩, ?_⟩
  · intro t _
    exact ⟨t + 43, by omega, by simp [busyAtLast, oneTrigger]⟩
  · -- the last word is never accepted
    intro t hv hl hw
    have ht : 0 < t := Nat.pos_of_ne_zero fun h => by subst h; cases hv
    rcases phase_of_running hacc rfl hres ht (hrun t) with ⟨-, -, -, hv', -, -⟩ |
      ⟨n, -, -, -, -, -, -, hl', -⟩ | ⟨u, rfl, hu, hn, -, -, -, -, -⟩ | ⟨u, -, -, -, -, hv', -⟩
    · rw [hv'] at hv
      cases hv
    · rw [hl'] at hl
      cases hl
    · have hu41 : u = 41 := Nat.count_injective hu h41.1 (hn.trans h41.2.symm)
      rw [hu41] at hw
      cases hw
    · rw [hv'] at hv
      cases hv
  · intro h
    obtain ⟨hst, hvalid, -⟩ :=
      (phase_of_running hacc rfl hres (by omega) (hrun 42)).last_of_load h41.1 h41.2
    have := (h.held 42 (hrun 42) hvalid rfl).1
    rw [trace_succ, (step_await rfl hst).1] at this
    cases this

end Zpsc.AxiWrite
