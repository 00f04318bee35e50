import Zpsc.Snapshot.Proofs.BurstProofs

/-!
# Coherent records

The words of a record are taken from the live readings, each at the clock it is put on the bus. So a
record holds the readings of its trigger exactly when the last DCCT word and the last monitor word
are on the bus before these readings change.
-/

namespace Zpsc.AxiWrite

open Bits Clocked

variable {s : AxiWrite} {inp : ℕ → Input} {t u v : ℕ}
variable {d d' : Chan → DcctAdcs} {m m' : Chan → MonAdcsCal}

/-! ## Readings do not steer the burst -/

theorem step_readings (s : AxiWrite) (i : Input) (x : BitVec 32) (d : Chan → DcctAdcs)
    (m : Chan → MonAdcsCal) :
    ∃ y, step { s with wdata := x } { i with dcct_adcs := d, mon_adcs := m } =
      { step s i with wdata := y } := by
  unfold step write_word
  cases hr : i.reset with
  | true => exact ⟨0, rfl⟩
  | false =>
    cases s with
    | mk st =>
      cases st <;> simp only [Bool.false_eq_true, if_false] <;> split
      all_goals first
        | exact ⟨_, rfl⟩
        | (split <;> exact ⟨_, rfl⟩)

theorem trace_withReadings (s : AxiWrite) (inp : ℕ → Input) (u v : ℕ) (d d' : Chan → DcctAdcs)
    (m m' : Chan → MonAdcsCal) (t : ℕ) :
    ∃ y, trace step s (withReadings inp u v d d' m m') t =
      { trace step s inp t with wdata := y } := by
  induction t with
  | zero => exact ⟨s.wdata, rfl⟩
  | succ t ih =>
    obtain ⟨x, hx⟩ := ih
    rw [trace_succ, hx]
    exact step_readings _ _ _ _ _

theorem completes_withReadings :
    Completes s (withReadings inp u v d d' m m') t ↔ Completes s inp t := by
  obtain ⟨y, hy⟩ := trace_withReadings s inp u v d d' m m' t
  rw [Completes, Completes, hy]
  rfl

theorem running_withReadings :
    Running s (withReadings inp u v d d' m m') t ↔ Running s inp t :=
  forall₂_congr fun _ _ => not_congr completes_withReadings

/-! ## The ADC words of a record -/

/-- The ADC words a burst has brought are those it put on the bus. -/
theorem Phase.adcWords_of_completes (h : Phase s inp t) (hc : Completes s inp t) :
    (((beats s inp (t + 1)).map Prod.fst).drop 2).take 32 =
      (List.range 32).map fun j => loaded s inp (j + 2) := by
  obtain ⟨u, -, -, hb⟩ := h.beats_of_completes hc
  have hfst : (early s inp 39).map Prod.fst = (List.range 39).map (loaded s inp) := by
    rw [early, List.map_map]
    rfl
  rw [hb, List.map_append, hfst, List.drop_append_of_le_length (by simp),
    List.take_append_of_le_length (by simp)]
  rfl

theorem record_adcWords (i : Input) (cnt : BitVec 32) {j : ℕ} (hj : j < 32) :
    (record i cnt).getD (j + 2) 0 = (adcWords i).getD j 0 := by
  have hlen : (adcWords i).length = 32 := rfl
  rw [record, List.append_assoc, List.append_assoc]
  show (adcWords i ++ _).getD j 0 = _
  exact List.getD_append _ _ _ _ (by omega)

/-- Words 0 and 1 of a channel are those of its DCCTs, the others those of its monitors. -/
theorem adcWords_congr {i i' : Input} {j : ℕ} (hj : j < 32)
    (hdcct : j % 8 < 2 → i.dcct_adcs = i'.dcct_adcs)
    (hmon : 2 ≤ j % 8 → i.mon_adcs = i'.mon_adcs) :
    (adcWords i).getD j 0 = (adcWords i').getD j 0 := by
  interval_cases j
  all_goals
    simp only [adcWords, chanWords, List.cons_append, List.nil_append, List.getD_cons_succ,
      List.getD_cons_zero]
    first | rw [hdcct (by decide)] | rw [hmon (by decide)]

/-! ## When a record is coherent -/

section

variable (hacc : Accepts s (inp 0)) (hv : s.wvalid = false) (hres : NoReset s inp)
include hacc hv hres

/-- The ADC words of a burst under changing readings, word by word. -/
theorem coherent_withReadings_iff (hrun : Running s inp t) (hc : Completes s inp t) :
    Coherent s (withReadings inp u v d d' m m') ↔
      ∀ j < 32, (adcWords (withReadings inp u v d d' m m' (Nat.nth (Loads inp) (j + 2)))).getD j 0 =
        (adcWords (withReadings inp u v d d' m m' 0)).getD j 0 := by
  have hacc' : Accepts s (withReadings inp u v d d' m m' 0) :=
    ⟨hacc.idle, hacc.trigger, hacc.rise, hacc.noReset⟩
  have hres' : NoReset s (withReadings inp u v d d' m m') := fun t ht =>
    hres t (running_withReadings.mp ht)
  have hwords : ∀ j < 32, loaded s (withReadings inp u v d d' m m') (j + 2) =
      (adcWords (withReadings inp u v d d' m m' (Nat.nth (Loads inp) (j + 2)))).getD j 0 :=
    fun j hj => record_adcWords _ _ hj
  have hlist : adcWords (withReadings inp u v d d' m m' 0) =
      (List.range 32).map fun j => (adcWords (withReadings inp u v d d' m m' 0)).getD j 0 := rfl
  have hbeats {t : ℕ} (hrun : Running s (withReadings inp u v d d' m m') t)
      (hc : Completes s (withReadings inp u v d d' m m') t) :=
    (phase_of_running hacc' hv hres' (completes_pos hacc' hc) hrun).adcWords_of_completes hc
  constructor
  · intro h j hj
    have heq := h t (running_withReadings.mpr hrun) (completes_withReadings.mpr hc)
    rw [hbeats (running_withReadings.mpr hrun) (completes_withReadings.mpr hc), hlist] at heq
    rw [← hwords j hj]
    exact List.map_inj_left.mp heq j (List.mem_range.mpr hj)
  · intro h t hrun hc
    rw [hbeats hrun hc, hlist]
    refine List.map_congr_left ?_
    intro j hj
    rw [hwords j (List.mem_range.mp hj), h j (List.mem_range.mp hj)]

end

/-- Word `k` is put on the bus before clock `u` when more than `k` words are. -/
theorem nth_lt_iff {T k : ℕ} (hT : k < Nat.count (Loads inp) T) :
    Nat.nth (Loads inp) k < u ↔ k < Nat.count (Loads inp) u := by
  refine ⟨?_, Nat.nth_lt_of_lt_count⟩
  intro h
  have hcard : ∀ hf : (Set.ofPred (Loads inp)).Finite, k < hf.toFinset.card := fun hf =>
    hT.trans_le (Nat.count_le_card hf T)
  have := Nat.count_strict_mono (Nat.nth_mem k hcard) h
  rwa [Nat.count_nth hcard] at this

/-- Monitor readings of 0. -/
def zeroMon : Chan → MonAdcsCal := fun _ => ⟨⟨0, 0, 0⟩, 0, 0, 0⟩

/-- The record holds the readings of its trigger, whatever they change to, exactly when the 28 words
up to `PS4_DCCT2` are on the bus before the DCCT readings change and the 34 words up to `PS4_MON6`
before the monitor readings do. -/
theorem coherent_iff (hs : Reachable s) (hacc : Accepts s (inp 0)) (hres : NoReset s inp)
    (hend : ∃ t, Running s inp t ∧ Completes s inp t) (hu : 0 < u) (hv : 0 < v) :
    (∀ d d' m m', Coherent s (withReadings inp u v d d' m m')) ↔
      28 ≤ Nat.count (Loads inp) u ∧ 34 ≤ Nat.count (Loads inp) v := by
  obtain ⟨T, hrun, hc⟩ := hend
  have hvalid := wvalid_of_idle hs hacc.idle
  have hT := ((completes_iff hacc hvalid hres hrun).mp hc).1
  constructor
  · intro h
    constructor
    · -- word 27 is `PS4_DCCT2`
      by_contra hlt
      have hlate : ¬ Nat.nth (Loads inp) (25 + 2) < u := by
        intro hlt'
        have := (nth_lt_iff (T := T) (by omega)).mp hlt'
        omega
      have heq : sresize 32 (1 : BitVec 20) = sresize 32 (0 : BitVec 20) := by
        simpa [withReadings, adcWords, chanWords, hlate, hu] using
          (coherent_withReadings_iff hacc hvalid hres hrun hc).mp
            (h (fun _ => ⟨0, 0⟩) (fun _ => ⟨0, 1⟩) zeroMon zeroMon) 25 (by omega)
      exact absurd heq (by decide)
    · -- word 33 is `PS4_MON6`
      by_contra hlt
      have hlate : ¬ Nat.nth (Loads inp) (31 + 2) < v := by
        intro hlt'
        have := (nth_lt_iff (T := T) (by omega)).mp hlt'
        omega
      have heq : sresize 32 (1 : BitVec 16) = sresize 32 (0 : BitVec 16) := by
        simpa [withReadings, adcWords, chanWords, zeroMon, hlate, hv] using
          (coherent_withReadings_iff hacc hvalid hres hrun hc).mp
            (h (fun _ => ⟨0, 0⟩) (fun _ => ⟨0, 0⟩) zeroMon fun _ => ⟨⟨0, 0, 1⟩, 0, 0, 0⟩)
            31 (by omega)
      exact absurd heq (by decide)
  · rintro ⟨h28, h34⟩ d d' m m'
    refine (coherent_withReadings_iff hacc hvalid hres hrun hc).mpr ?_
    intro j hj
    refine adcWords_congr hj (fun hq => ?_) (fun hq => ?_)
    · have hlt : Nat.nth (Loads inp) (j + 2) < u := Nat.nth_lt_of_lt_count (by omega)
      exact (if_pos hlt).trans (if_pos hu).symm
    · have hlt : Nat.nth (Loads inp) (j + 2) < v := Nat.nth_lt_of_lt_count (by omega)
      exact (if_pos hlt).trans (if_pos hv).symm

/-- A slave that is always ready, and readings that change some fifty clocks after the trigger. -/
theorem prompt_coherent :
    Coherent powerUp (withReadings (oneTrigger (fun _ => true) fun t => decide (43 ≤ t)) 50 60
      (fun _ => ⟨0, 0⟩) (fun _ => ⟨1, 1⟩) zeroMon fun _ => ⟨⟨1, 1, 1⟩, 1, 1, 1⟩) := by
  have hrun : Running powerUp (oneTrigger (fun _ => true) fun t => decide (43 ≤ t)) 43 :=
    fun u hu hc => by
      have : 43 ≤ u := by simpa [oneTrigger] using hc.2
      omega
  exact (coherent_iff reachable_powerUp (accepts_oneTrigger _ _) (fun _ _ => rfl)
    ⟨43, hrun, by decide +kernel, rfl⟩ (by decide) (by decide)).mpr (by decide +kernel) _ _ _ _

/-- A slave that stalls the burst after the word `PS1_DCCT1`, from clock 5 to clock 310. -/
def stalled : ℕ → Input :=
  oneTrigger (fun t => decide (t < 5 ∨ 310 ≤ t)) fun t => decide (348 ≤ t)

/-- The DCCT readings change at clock 300, in the middle of the stall: the record has the old
reading of the first DCCT of channel 1 and the new one of its second. -/
theorem stalled_not_coherent :
    Reachable powerUp ∧ Accepts powerUp (stalled 0) ∧ NoReset powerUp stalled ∧
    (∃ t, Running powerUp stalled t ∧ Completes powerUp stalled t) ∧
    ¬ Coherent powerUp
      (withReadings stalled 300 400 (fun _ => ⟨0, 0⟩) (fun _ => ⟨1, 1⟩) zeroMon zeroMon) := by
  have hacc : Accepts powerUp (stalled 0) := accepts_oneTrigger _ _
  have hres : NoReset powerUp stalled := fun _ _ => rfl
  have hrun : Running powerUp stalled 348 := by
    intro u hu hc
    have : 348 ≤ u := by simpa [stalled, oneTrigger] using hc.2
    omega
  have hend : Completes powerUp stalled 348 := ⟨by decide +kernel, rfl⟩
  refine ⟨reachable_powerUp, hacc, hres, ⟨348, hrun, hend⟩, ?_⟩
  intro h
  have h310 : Nat.nth (Loads stalled) (1 + 2) = 310 := by
    have hcount : Nat.count (Loads stalled) 310 = 1 + 2 := by decide +kernel
    rw [← hcount]
    exact Nat.nth_count (by decide +kernel)
  have heq : sresize 32 (1 : BitVec 20) = sresize 32 (0 : BitVec 20) := by
    simpa [withReadings, adcWords, chanWords, h310] using
      (coherent_withReadings_iff hacc rfl hres hrun hend).mp h 1 (by omega)
  exact absurd heq (by decide)

end Zpsc.AxiWrite
