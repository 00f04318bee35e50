import Mathlib.Tactic.IntervalCases
import Zpsc.Snapshot.Burst

/-!
# One burst of the snapshot writer

What every clock of `axi4_write_adc` does in each of its states, and from it the course of a burst:
the address, the 40 words as the slave becomes ready for them, the clock in which the last word is
on the bus, and the response.
-/

namespace Zpsc.AxiWrite

open Bits Clocked

/-! ## The states of a burst -/

/-- The states that put a word on the bus, in their order. -/
def beatStates : List State :=
  ([.HDR, .CNT] : List State) ++
    ([.ps1, .ps2, .ps3, .ps4] : List Chan).flatMap (fun c =>
      ([.PS c .DCCT1, .PS c .DCCT2, .PS c .MON1, .PS c .MON2, .PS c .MON3, .PS c .MON4,
        .PS c .MON5, .PS c .MON6] : List State)) ++
    ([.WRD .ps1, .WRD .ps2, .WRD .ps3, .WRD .ps4, .WRD39, .WRDLAST] : List State)

/-- The state that puts word `k` on the bus. -/
def beatState (k : ℕ) : State := beatStates.getD k .AWAITRESP

theorem beatState_ne (k : ℕ) (hk : k < 40) : beatState k ≠ .AWAITRESP ∧ beatState k ≠ .IDLE := by
  revert k
  decide

variable {s : AxiWrite} {i : Input}

theorem step_beat {k : ℕ} (hk : k < 39) (hr : i.reset = false) (h : s.state = beatState k) :
    step s i =
      write_word s i.wready ((record i s.datacnt).getD k 0) (beatState (k + 1)) := by
  unfold step
  rw [hr, h]
  interval_cases k <;> rfl

theorem step_last (hr : i.reset = false) (h : s.state = .WRDLAST) :
    step s i = if i.wready then
        { s with wvalid := true, wlast := true, wdata := 40, state := .AWAITRESP } else s := by
  unfold step
  rw [hr, h]
  rfl

/-- While the slave is not ready, a word waits. -/
theorem step_wait {k : ℕ} (hk : k < 40) (hr : i.reset = false) (h : s.state = beatState k)
    (hw : i.wready = false) : step s i = s := by
  rcases Nat.lt_or_eq_of_le (Nat.le_of_lt_succ hk) with hlt | rfl
  · rw [step_beat hlt hr h, hw]
    rfl
  · rw [step_last hr h, hw]
    rfl

theorem step_address (hr : i.reset = false) (h : s.state = .ADDRESS) :
    step s i = if i.awready then
        { s with awvalid := false, wdata := 0, wstrb := 0xF, state := .HDR } else s := by
  unfold step
  rw [hr, h]
  rfl

/-- Waiting for the response takes the last word off the bus, whether it was accepted or not. -/
theorem step_await (hr : i.reset = false) (h : s.state = .AWAITRESP) :
    (step s i).wvalid = false ∧ (step s i).wlast = false ∧
    (i.bvalid = false → (step s i).state = .AWAITRESP ∧ (step s i).datacnt = s.datacnt) := by
  unfold step
  rw [hr, h]
  cases i.bvalid with
  | false => simp
  | true =>
    simp only [Bool.false_eq_true, if_false, if_true]
    split <;> simp

theorem step_accept (h : Accepts s i) :
    (step s i).state = .ADDRESS ∧ (step s i).awvalid = true ∧ (step s i).wvalid = s.wvalid ∧
    (step s i).wlast = s.wlast ∧ (step s i).datacnt = s.datacnt ∧
    (step s i).awaddr = s.addr_base ∧ (step s i).addr_base = s.addr_base := by
  unfold step
  rw [h.noReset, h.idle]
  simp [h.trigger, h.rise]

theorem step_quiet (hr : i.reset = false) (h : s.state = .IDLE) (ha : ¬ Accepts s i) :
    step s i = { s with prev_trigger := i.trigger } := by
  have hn : (i.trigger && !s.prev_trigger) = false := by
    by_contra hne
    rw [Bool.not_eq_false, Bool.and_eq_true, Bool.not_eq_true'] at hne
    exact ha ⟨h, hne.1, hne.2, hr⟩
  unfold step
  rw [hr, h]
  simp [hn]

theorem state_cases (x : State) :
    x = .IDLE ∨ x = .ADDRESS ∨ (∃ k < 39, x = beatState k) ∨ x = .WRDLAST ∨ x = .AWAITRESP := by
  cases x with
  | PS c q => cases c <;> cases q <;> decide
  | WRD c => cases c <;> decide
  | _ => decide

/-- The clocks that end in `IDLE`. -/
theorem step_idle (hr : i.reset = false) (h : (step s i).state = .IDLE) :
    (s.state = .IDLE ∧ ¬ Accepts s i) ∨ (s.state = .AWAITRESP ∧ i.bvalid = true) := by
  rcases state_cases s.state with hs | hs | ⟨k, hk, hs⟩ | hs | hs
  · refine .inl ⟨hs, ?_⟩
    intro ha
    rw [(step_accept ha).1] at h
    cases h
  · rw [step_address hr hs] at h
    split at h <;> simp_all
  · rw [step_beat hk hr hs, write_word] at h
    split at h
    · exact absurd h (beatState_ne (k + 1) (by omega)).2
    · exact absurd (hs.symm.trans h) (beatState_ne k (by omega)).2
  · rw [step_last hr hs] at h
    split at h <;> simp_all
  · refine .inr ⟨hs, ?_⟩
    by_contra hb
    rw [((step_await hr hs).2.2 (by simpa using hb)).1] at h
    cases h

theorem wvalid_of_idle (hs : Reachable s) (h : s.state = .IDLE) : s.wvalid = false := by
  obtain ⟨is, rfl⟩ := hs
  refine run_inv (fun s : AxiWrite => s.state = .IDLE → s.wvalid = false) ?_ (fun _ => rfl) h
  intro s ih i _ hi
  cases hr : i.reset with
  | true => simp [step, hr]
  | false =>
    rcases step_idle hr hi with ⟨hs, ha⟩ | ⟨hs, -⟩
    · rw [step_quiet hr hs ha]
      exact ih hs
    · exact (step_await hr hs).1

/-! ## The course of a burst -/

/-- Word `k` of the record, taken from the readings at its clock. -/
noncomputable def loaded (s : AxiWrite) (inp : ℕ → Input) (k : ℕ) : BitVec 32 :=
  (record (inp (Nat.nth (Loads inp) k)) s.datacnt).getD k 0

/-- The first `n` beats; before the last one `wlast` is what it was at the trigger. -/
noncomputable def early (s : AxiWrite) (inp : ℕ → Input) (n : ℕ) : List (BitVec 32 × Bool) :=
  (List.range n).map fun k => (loaded s inp k, s.wlast)

/-- Where a burst is before clock `t`. -/
inductive Phase (s : AxiWrite) (inp : ℕ → Input) (t : ℕ) : Prop
  | address (hn : ¬ Addressed inp t)
      (hst : (trace step s inp t).state = .ADDRESS)
      (haw : (trace step s inp t).awvalid = true)
      (hv : (trace step s inp t).wvalid = false)
      (hl : (trace step s inp t).wlast = s.wlast)
      (hb : beats s inp t = [])
  | loading (n : ℕ) (ha : Addressed inp t) (hn : Nat.count (Loads inp) t = n) (hlt : n < 40)
      (hst : (trace step s inp t).state = beatState n)
      (hv : (trace step s inp t).wvalid = decide (0 < n))
      (hd : 0 < n → (trace step s inp t).wdata = loaded s inp (n - 1))
      (hl : (trace step s inp t).wlast = s.wlast)
      (hb : beats s inp t = early s inp (n - 1))
  | last (u : ℕ) (ht : t = u + 1) (hu : Loads inp u) (hn : Nat.count (Loads inp) u = 39)
      (hst : (trace step s inp t).state = .AWAITRESP)
      (hv : (trace step s inp t).wvalid = true)
      (hd : (trace step s inp t).wdata = loaded s inp 39)
      (hl : (trace step s inp t).wlast = true)
      (hb : beats s inp t = early s inp 39)
  | response (u : ℕ) (ht : u + 1 < t) (hu : Loads inp u) (hn : Nat.count (Loads inp) u = 39)
      (hst : (trace step s inp t).state = .AWAITRESP)
      (hv : (trace step s inp t).wvalid = false)
      (hb : beats s inp t = early s inp 39 ++
        if (inp (u + 1)).wready then [(loaded s inp 39, true)] else [])

variable {inp : ℕ → Input} {t : ℕ}

theorem addressed_succ :
    Addressed inp (t + 1) ↔ Addressed inp t ∨ (0 < t ∧ (inp t).awready = true) := by
  constructor
  · rintro ⟨u, hu, h⟩
    rcases Nat.lt_succ_iff_lt_or_eq.mp hu with hlt | rfl
    · exact .inl ⟨u, hlt, h⟩
    · exact .inr h
  · rintro (⟨u, hu, h⟩ | h)
    · exact ⟨u, hu.trans (Nat.lt_succ_self t), h⟩
    · exact ⟨t, Nat.lt_succ_self t, h⟩

theorem count_of_not_addressed (h : ¬ Addressed inp t) : Nat.count (Loads inp) t = 0 := by
  rw [Nat.count_iff_forall_not]
  rintro u hu ⟨⟨v, hv, hav⟩, -⟩
  exact h ⟨v, hv.trans hu, hav⟩

theorem loaded_count (h : Loads inp t) : loaded s inp (Nat.count (Loads inp) t) =
    (record (inp t) s.datacnt).getD (Nat.count (Loads inp) t) 0 := by
  rw [loaded, Nat.nth_count h]

theorem beats_succ (s : AxiWrite) (inp : ℕ → Input) (t : ℕ) :
    beats s inp (t + 1) = beats s inp t ++ beat s inp t := rfl

theorem early_succ (s : AxiWrite) (inp : ℕ → Input) (n : ℕ) :
    early s inp (n + 1) = early s inp n ++ [(loaded s inp n, s.wlast)] := by
  rw [early, List.range_succ, List.map_append]
  rfl

theorem beat_of_not_valid (h : (trace step s inp t).wvalid = false) : beat s inp t = [] := by
  rw [beat, h]
  rfl

theorem beat_of_valid (h : (trace step s inp t).wvalid = true) :
    beat s inp t = if (inp t).wready then
      [((trace step s inp t).wdata, (trace step s inp t).wlast)] else [] := by
  rw [beat, h]
  rfl

theorem phase_one (hacc : Accepts s (inp 0)) (hv : s.wvalid = false) :
    Phase s inp 1 ∧ (trace step s inp 1).datacnt = s.datacnt := by
  obtain ⟨hst, haw, hv', hl, hd, -, -⟩ := step_accept hacc
  refine ⟨.address ?_ hst haw (hv'.trans hv) hl ?_, hd⟩
  · rintro ⟨u, hu, hpos, -⟩
    omega
  · exact beat_of_not_valid hv

/-- Waiting for the address. -/
theorem Phase.address_succ (ht : 0 < t) (hr : (inp t).reset = false) (hn : ¬ Addressed inp t)
    (hst : (trace step s inp t).state = .ADDRESS) (haw : (trace step s inp t).awvalid = true)
    (hv : (trace step s inp t).wvalid = false) (hl : (trace step s inp t).wlast = s.wlast)
    (hb : beats s inp t = []) : Phase s inp (t + 1) := by
  have hstep := step_address hr hst
  have hb' : beats s inp (t + 1) = [] := by rw [beats_succ, hb, beat_of_not_valid hv]; rfl
  have hcount : Nat.count (Loads inp) (t + 1) = 0 := by
    rw [Nat.count_succ, count_of_not_addressed hn, if_neg fun h => hn h.1]
  cases haw' : (inp t).awready with
  | true =>
    rw [haw', if_pos rfl] at hstep
    refine .loading 0 (addressed_succ.mpr (.inr ⟨ht, haw'⟩)) hcount (by omega) ?_ ?_ ?_ ?_ hb'
    all_goals rw [trace_succ, hstep]
    · rfl
    · exact hv
    · exact fun h => absurd h (lt_irrefl 0)
    · exact hl
  | false =>
    rw [haw', if_neg Bool.false_ne_true] at hstep
    refine .address ?_ ?_ ?_ ?_ ?_ hb'
    · rw [addressed_succ, haw']
      exact fun h => h.elim hn fun h => Bool.false_ne_true h.2
    all_goals rw [trace_succ, hstep]
    · exact hst
    · exact haw
    · exact hv
    · exact hl

/-- Putting the words on the bus. -/
theorem Phase.loading_succ {n : ℕ} (hr : (inp t).reset = false)
    (hcnt : (trace step s inp t).datacnt = s.datacnt) (ha : Addressed inp t)
    (hn : Nat.count (Loads inp) t = n) (hlt : n < 40)
    (hst : (trace step s inp t).state = beatState n)
    (hv : (trace step s inp t).wvalid = decide (0 < n))
    (hd : 0 < n → (trace step s inp t).wdata = loaded s inp (n - 1))
    (hl : (trace step s inp t).wlast = s.wlast)
    (hb : beats s inp t = early s inp (n - 1)) : Phase s inp (t + 1) := by
  have ha' : Addressed inp (t + 1) := addressed_succ.mpr (.inl ha)
  cases hw : (inp t).wready with
  | false =>
    -- the slave is not ready: nothing changes
    have hno : ¬ Loads inp t := fun h => by rw [h.2] at hw; cases hw
    have hstep := step_wait hlt hr hst hw
    have hb' : beats s inp (t + 1) = early s inp (n - 1) := by
      rw [beats_succ, hb, beat, hw, Bool.and_false]
      exact List.append_nil _
    refine .loading n ha' ?_ hlt ?_ ?_ ?_ ?_ hb'
    · rw [Nat.count_succ, hn, if_neg hno]
      rfl
    all_goals rw [trace_succ, hstep]
    · exact hst
    · exact hv
    · exact hd
    · exact hl
  | true =>
    have hload : Loads inp t := ⟨ha, hw⟩
    have hword := loaded_count (s := s) hload
    rw [hn] at hword
    have hcount : Nat.count (Loads inp) (t + 1) = n + 1 := by
      rw [Nat.count_succ, hn, if_pos hload]
    -- the word on the bus, if any, is accepted
    have hb' : beats s inp (t + 1) = early s inp n := by
      rw [beats_succ, hb]
      rcases Nat.eq_zero_or_pos n with rfl | hpos
      · rw [beat_of_not_valid (by simpa using hv)]
        rfl
      · rw [beat_of_valid (by simpa [hpos] using hv), hw, if_pos rfl, hd hpos, hl,
          ← early_succ, Nat.sub_add_cancel hpos]
    rcases Nat.lt_or_eq_of_le (Nat.le_of_lt_succ hlt) with h | rfl
    · have hstep := step_beat h hr hst
      rw [hw, write_word, if_pos rfl, hcnt] at hstep
      refine .loading (n + 1) ha' hcount (by omega) ?_ ?_ ?_ ?_ hb'
      all_goals rw [trace_succ, hstep]
      · simp
      · exact fun _ => hword.symm
      · exact hl
    · have hstep := step_last hr hst
      rw [hw, if_pos rfl] at hstep
      refine .last t rfl hload hn ?_ ?_ ?_ ?_ hb'
      all_goals rw [trace_succ, hstep]
      exact hword.symm

/-- Only the end of a response changes the count. -/
theorem step_datacnt (hr : i.reset = false) (h : ¬ (s.state = .AWAITRESP ∧ i.bvalid = true)) :
    (step s i).datacnt = s.datacnt := by
  rcases state_cases s.state with hs | hs | ⟨k, hk, hs⟩ | hs | hs
  · by_cases ha : Accepts s i
    · exact (step_accept ha).2.2.2.2.1
    · rw [step_quiet hr hs ha]
  · rw [step_address hr hs]
    split <;> rfl
  · rw [step_beat hk hr hs, write_word]
    split <;> rfl
  · rw [step_last hr hs]
    split <;> rfl
  · have hb : i.bvalid = false := by simpa using fun hb => h ⟨hs, hb⟩
    exact ((step_await hr hs).2.2 hb).2

theorem Phase.succ (ht : 0 < t) (hr : (inp t).reset = false) (hc : ¬ Completes s inp t)
    (hcnt : (trace step s inp t).datacnt = s.datacnt) (h : Phase s inp t) :
    Phase s inp (t + 1) := by
  have hawait (hst : (trace step s inp t).state = .AWAITRESP) :
      (trace step s inp (t + 1)).state = .AWAITRESP ∧
      (trace step s inp (t + 1)).wvalid = false := by
    have hb : (inp t).bvalid = false := by simpa using fun hb => hc ⟨hst, hb⟩
    obtain ⟨hv, -, hs⟩ := step_await hr hst
    exact ⟨(hs hb).1, hv⟩
  rcases h with ⟨hn, hst, haw, hv, hl, hb⟩ | ⟨n, ha, hn, hlt, hst, hv, hd, hl, hb⟩ |
    ⟨u, rfl, hu, hn, hst, hv, hd, hl, hb⟩ | ⟨u, hut, hu, hn, hst, hv, hb⟩
  · exact Phase.address_succ ht hr hn hst haw hv hl hb
  · exact Phase.loading_succ hr hcnt ha hn hlt hst hv hd hl hb
  · -- the clock after the last word is the only one in which it can be accepted
    refine .response u (by omega) hu hn (hawait hst).1 (hawait hst).2 ?_
    rw [beats_succ, hb, beat_of_valid hv, hd, hl]
  · refine .response u (by omega) hu hn (hawait hst).1 (hawait hst).2 ?_
    rw [beats_succ, hb, beat_of_not_valid hv, List.append_nil]

/-- A burst from its trigger on, as long as it runs. -/
theorem phase_of_running (hacc : Accepts s (inp 0)) (hv : s.wvalid = false)
    (hres : NoReset s inp) (ht : 0 < t) (hrun : Running s inp t) : Phase s inp t := by
  have hmono : ∀ u ≤ t, Running s inp u := fun u hu v hvu => hrun v (hvu.trans_le hu)
  suffices h : Phase s inp t ∧ (trace step s inp t).datacnt = s.datacnt from h.1
  refine hold (P := fun t => Phase s inp t ∧ (trace step s inp t).datacnt = s.datacnt) ht ?_
    (phase_one hacc hv)
  rintro v hv hvt ⟨hp, hcnt⟩
  have hr := hres v (hmono v hvt.le)
  have hc := hmono (v + 1) hvt v (Nat.lt_succ_self v)
  exact ⟨hp.succ hv hr hc hcnt, (step_datacnt hr hc).trans hcnt⟩

/-- The burst is in the response state once all words have been put on the bus. -/
theorem Phase.await_iff (h : Phase s inp t) :
    (trace step s inp t).state = .AWAITRESP ↔ 40 ≤ Nat.count (Loads inp) t := by
  have hfull {u : ℕ} (hut : u < t) (hu : Loads inp u) (hn : Nat.count (Loads inp) u = 39) :
      40 ≤ Nat.count (Loads inp) t := by
    have := Nat.count_strict_mono hu hut
    omega
  rcases h with ⟨hn, hst, -, -, -, -⟩ | ⟨n, -, hn, hlt, hst, -, -, -, -⟩ |
    ⟨u, ht, hu, hn, hst, -, -, -, -⟩ | ⟨u, ht, hu, hn, hst, -, -⟩
  · rw [hst, count_of_not_addressed hn]
    simp
  · rw [hst, hn]
    exact ⟨fun h => absurd h (beatState_ne n hlt).1, fun h => by omega⟩
  · exact ⟨fun _ => hfull (by omega) hu hn, fun _ => hst⟩
  · exact ⟨fun _ => hfull (by omega) hu hn, fun _ => hst⟩

theorem completes_pos (hacc : Accepts s (inp 0)) (hc : Completes s inp t) : 0 < t := by
  refine Nat.pos_of_ne_zero ?_
  intro h
  subst h
  have hst : s.state = .AWAITRESP := hc.1
  rw [hacc.idle] at hst
  cases hst

theorem completes_iff (hacc : Accepts s (inp 0)) (hv : s.wvalid = false) (hres : NoReset s inp)
    (hrun : Running s inp t) :
    Completes s inp t ↔ 40 ≤ Nat.count (Loads inp) t ∧ (inp t).bvalid = true := by
  have hphase (ht : 0 < t) := (phase_of_running hacc hv hres ht hrun).await_iff
  constructor
  · intro hc
    exact ⟨(hphase (completes_pos hacc hc)).mp hc.1, hc.2⟩
  · rintro ⟨hn, hb⟩
    have ht : 0 < t := by
      have := Nat.count_le (p := Loads inp) (n := t)
      omega
    exact ⟨(hphase ht).mpr hn, hb⟩

/-- The burst runs until all words have been put on the bus. -/
theorem running_of_count (hacc : Accepts s (inp 0)) (hv : s.wvalid = false)
    (hres : NoReset s inp) (hn : Nat.count (Loads inp) t < 40) : Running s inp (t + 1) := by
  classical
  intro w hw hc
  have hex : ∃ u, Completes s inp u := ⟨w, hc⟩
  have hfirst := (completes_iff hacc hv hres fun u hu => Nat.find_min hex hu).mp (Nat.find_spec hex)
  have hle : Nat.find hex ≤ t := (Nat.find_min' hex hc).trans (Nat.le_of_lt_succ hw)
  have := Nat.count_monotone (Loads inp) hle
  omega

end Zpsc.AxiWrite
