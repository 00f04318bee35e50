import Zpsc.Fault.DualMode

/-!
# When channel 4 starts after channel 3

While the delay is armed, either `rcom(8)` has been off for the delay, or it rose before the timer
started and has had no gap since (`Tracks`). Every clock keeps this unless `rcom(8)` comes on while
the delay is ahead of it, and from it the stagger follows (`staggered`). A fault that hides the
first pulses of channel 3 puts the delay ahead (`lateClear_not_staggered`).
-/

namespace Zpsc.PulseDelay

/-! ## One clock of the delay -/

/-- A clock after which the delay is armed starts it, or finds it armed and counts. -/
theorem armed_step {n : ℕ} {s : PulseDelay} {rst x : Bool}
    (h : (s.step n rst x).started = true ∨ (s.step n rst x).qualified = true) :
    rst = false ∧
      ((x = true ∧ (s.step n rst x).qualified = false ∧ (s.step n rst x).qual_cnt = 0) ∨
        ((s.started = true ∨ s.qualified = true) ∧
          ((s.step n rst x).qualified = true → s.qualified = true ∨
            (s.qualified = false ∧ (n = 0 ∨ s.qual_cnt = BitVec.ofNat 32 (n - 1)))) ∧
          ((s.step n rst x).qualified = false → s.qualified = false ∧
            (s.step n rst x).qual_cnt = s.qual_cnt + 1))) := by
  cases rst with
  | true => simp [step] at h
  | false =>
    refine ⟨rfl, ?_⟩
    simp only [step, Bool.false_eq_true, if_false] at h ⊢
    cases hs : s.started <;> cases hq : s.qualified <;> simp only [hs, hq] at h ⊢ <;> grind

theorem step_sig_out {n : ℕ} {s : PulseDelay} {rst x : Bool}
    (h : (s.step n rst x).sig_out = true) : rst = false ∧ s.qualified = true ∧ x = true := by
  cases rst with
  | true => simp [step] at h
  | false => simpa [step] using h

theorem step_disarmed {n : ℕ} {s : PulseDelay} {x : Bool} (h1 : s.started = false)
    (h2 : s.qualified = false) (h3 : s.sig_in_d = false) :
    (s.step n false x).started = x ∧ (s.step n false x).qualified = false ∧
      (s.step n false x).sig_in_d = x ∧ (x = true → (s.step n false x).qual_cnt = 0) := by
  cases x <;> simp [step, h1, h2, h3]

variable {n : ℕ} {s : PulseDelay} {x : Bool}

theorem not_rearm (hn : n < 2 ^ 32) (hlow : s.low_cnt.toNat < n) :
    ¬ BitVec.ofNat 32 n ≤ s.low_cnt := by
  rw [BitVec.le_def, BitVec.toNat_ofNat, Nat.mod_eq_of_lt hn]
  omega

theorem qual_cnt_eq_iff (hn : n < 2 ^ 32) :
    s.qual_cnt = BitVec.ofNat 32 (n - 1) ↔ s.qual_cnt.toNat = n - 1 := by
  rw [← BitVec.toNat_inj, BitVec.toNat_ofNat, Nat.mod_eq_of_lt (by omega)]

theorem step_counting (hn : n < 2 ^ 32) (hlow : s.low_cnt.toNat < n) (h1 : s.started = true)
    (h2 : s.qualified = false) (h3 : s.qual_cnt.toNat + 1 < n) :
    (s.step n false x).started = true ∧ (s.step n false x).qualified = false ∧
      (s.step n false x).qual_cnt.toNat = s.qual_cnt.toNat + 1 := by
  have hrearm := not_rearm hn hlow
  have hlast : ¬ s.qual_cnt = BitVec.ofNat 32 (n - 1) := by
    rw [qual_cnt_eq_iff hn]
    omega
  have hne : n ≠ 0 := by omega
  have hadd : (s.qual_cnt + 1).toNat = s.qual_cnt.toNat + 1 := by
    rw [BitVec.toNat_add]
    simp only [BitVec.ofNat_eq_ofNat, BitVec.toNat_ofNat]
    omega
  refine ⟨?_, ?_, ?_⟩
  · simp [step, h1, hrearm]
  · simp [step, h1, h2, hrearm, hlast, hne]
  · rw [← hadd]
    simp [step, h1, h2, hlast, hne]

theorem step_last (hn : n < 2 ^ 32) (h1 : s.started = true) (h2 : s.qualified = false)
    (h3 : s.qual_cnt.toNat + 1 = n) : (s.step n false x).qualified = true := by
  have hlast := (qual_cnt_eq_iff (s := s) hn).mpr (by omega)
  simp [step, h1, h2, hlast]

theorem step_qualified (hn : n < 2 ^ 32) (hlow : s.low_cnt.toNat < n) (h : s.qualified = true) :
    (s.step n false x).qualified = true := by
  have hrearm := not_rearm hn hlow
  simp [step, h, hrearm]

end Zpsc.PulseDelay

namespace Zpsc.Digio

open Clocked

variable {inp : ℕ → In} {t : ℕ}

/-! ## The two commands -/

theorem chan3_eq (hd : (inp t).ch34_dualmode = true) :
    chan3 inp t = (train inp t && !faulty (inp t)) := by
  simp [chan3, train, rcom, rcomBit, hd, faulty, Bool.and_assoc]

theorem chan4_eq (hd : (inp t).ch34_dualmode = true) :
    chan4 inp t = ((delayAt inp t).sig_out && !faulty (inp t)) := by
  simp [chan4, delayAt, rcom, rcomBit, hd, faulty, Bool.and_assoc]

theorem chan3_zero (hd : (inp 0).ch34_dualmode = true) : chan3 inp 0 = false := by
  rw [chan3_eq hd]
  rfl

theorem delayAt_succ (inp : ℕ → In) (t : ℕ) :
    delayAt inp (t + 1) =
      (delayAt inp t).step delayCounts (inp t).reset (train inp t) := rfl

theorem delayCounts_pos : 0 < delayCounts := by
  unfold delayCounts
  omega

theorem delayCounts_lt : delayCounts < 2 ^ 32 := by
  unfold delayCounts
  omega

/-! ## The delay tracks channel 3 -/

/-- While the delay is armed, `rcom(8)` is in a gap, or it rose before the timer started and has had
no gap since. -/
def Tracks (inp : ℕ → In) (t : ℕ) : Prop :=
  (delayAt inp t).started = true ∨ (delayAt inp t).qualified = true →
    QuietFor delayCounts (chan3 inp) t ∨
      ∃ s, Rises (chan3 inp) s ∧ Sustained delayCounts (chan3 inp) s t ∧
        ((delayAt inp t).qualified = false → s + 1 + (delayAt inp t).qual_cnt.toNat ≤ t) ∧
        ((delayAt inp t).qualified = true → s + delayCounts + 1 ≤ t)

theorem tracks_succ (hd : ∀ t, (inp t).ch34_dualmode = true) (hstep : InStep inp t)
    (h : Tracks inp t) : Tracks inp (t + 1) := by
  intro harmed
  by_cases hq : QuietFor delayCounts (chan3 inp) (t + 1)
  · exact .inl hq
  right
  obtain ⟨-, hstart | ⟨harmed', hlast, hcount⟩⟩ := PulseDelay.armed_step
    (delayAt_succ inp t ▸ harmed)
  · -- the timer starts: channel 3 is on and any rising edge before now will do
    obtain ⟨-, hnq, hcnt⟩ := hstart
    obtain ⟨s, hst, hr, hs⟩ := exists_rises_sustained (chan3_zero (hd 0)) hq
    rw [← delayAt_succ] at hnq hcnt
    refine ⟨s, hr, hs, ?_, ?_⟩
    · intro _
      rw [hcnt]
      simp only [BitVec.ofNat_eq_ofNat, BitVec.toNat_ofNat, Nat.zero_mod]
      omega
    · intro hqual
      rw [hnq] at hqual
      exact absurd hqual Bool.false_ne_true
  · rcases h harmed' with hquiet | ⟨s, hr, hs, hbelow, habove⟩
    · -- coming on now would be ahead of the gap
      exfalso
      by_cases hg : chan3 inp t = true
      · rw [chan3_eq (hd t), Bool.and_eq_true, Bool.not_eq_true'] at hg
        obtain ⟨h1, h2⟩ := hstep.restart hg.2 hg.1 hquiet
        rw [h1, h2] at harmed'
        simp at harmed'
      · exact hq (hquiet.succ (by simpa using hg))
    · refine ⟨s, hr, hs.succ hq, ?_, ?_⟩
      · intro hnq
        obtain ⟨hnq', hcnt⟩ := hcount hnq
        have hle := hbelow hnq'
        rw [delayAt_succ, hcnt, BitVec.toNat_add]
        have := Nat.mod_le
          ((delayAt inp t).qual_cnt.toNat + (1 : BitVec 32).toNat) (2 ^ 32)
        simp only [BitVec.ofNat_eq_ofNat, BitVec.toNat_ofNat] at this ⊢
        omega
      · intro hqual
        rcases hlast hqual with hqual' | ⟨hnq, hz | hcnt⟩
        · have := habove hqual'
          omega
        · exact absurd hz (by unfold delayCounts; omega)
        · have hle := hbelow hnq
          have hnat : (delayAt inp t).qual_cnt.toNat = delayCounts - 1 := by
            rw [hcnt, BitVec.toNat_ofNat]
            unfold delayCounts
            omega
          have := delayCounts_pos
          omega

theorem tracks (hd : ∀ t, (inp t).ch34_dualmode = true) (h : ∀ t, InStep inp t) (t : ℕ) :
    Tracks inp t := by
  induction t with
  | zero => exact fun _ => .inl (quietFor_zero _ _)
  | succ t ih => exact tracks_succ hd (h t) ih

/-! ## The train of a channel that is on -/

/-- `low_cnt` counts clocks at which the train was 0. -/
theorem quietFor_low_cnt (inp : ℕ → In) (t : ℕ) :
    (delayAt inp t).low_cnt.toNat ≤ t ∧
      QuietFor (delayAt inp t).low_cnt.toNat (train inp) t := by
  induction t with
  | zero => exact ⟨Nat.le_of_eq rfl, quietFor_zero _ _⟩
  | succ t ih =>
    obtain ⟨hle, hquiet⟩ := ih
    have hlow : (delayAt inp (t + 1)).low_cnt.toNat = 0 ∨ train inp t = false ∧
        (delayAt inp (t + 1)).low_cnt.toNat ≤ (delayAt inp t).low_cnt.toNat + 1 := by
      rw [delayAt_succ]
      cases hr : (inp t).reset with
      | true => exact .inl rfl
      | false =>
        cases hx : train inp t with
        | true => exact .inl rfl
        | false =>
          refine .inr ⟨rfl, ?_⟩
          simp only [PulseDelay.step, Bool.false_eq_true, if_false]
          split
          · rw [BitVec.toNat_add]
            exact Nat.mod_le _ _
          · omega
    rcases hlow with h0 | ⟨hx, h1⟩
    · rw [h0]
      exact ⟨Nat.zero_le _, fun u hu hn => absurd hu (by omega)⟩
    · refine ⟨by omega, ?_⟩
      intro u hu hn
      rcases Nat.lt_succ_iff_lt_or_eq.mp hu with hlt | rfl
      · exact hquiet u hlt (by omega)
      · exact hx

section On

variable (flt : ℕ → Bool)

/-- The pulse generator one clock after power-up and later: the counter runs from 0 to the period,
and the pulse is its upper half. -/
theorem on1_succ (t : ℕ) :
    let p := (trace step configured (onInDualMode flt) (t + 1)).on1 .ps3
    p.pulse_enable = true ∧ p.pulse_counter.toNat = t % 1000001 ∧
      p.ch_enable = decide (500000 ≤ (t - 1) % 1000001) := by
  induction t with
  | zero => exact ⟨rfl, rfl, rfl⟩
  | succ t ih =>
    intro p
    obtain ⟨hen, hcnt, hch⟩ := ih
    set q := (trace step configured (onInDualMode flt) (t + 1)).on1 .ps3 with hq
    have hp : p = q.step period false true true := rfl
    have hle : BitVec.ofNat 32 (period / 2) ≤ q.pulse_counter ↔ 500000 ≤ t % 1000001 := by
      rw [BitVec.le_def, hcnt, BitVec.toNat_ofNat]
      rfl
    have heq : q.pulse_counter = BitVec.ofNat 32 period ↔ t % 1000001 = 1000000 := by
      rw [← BitVec.toNat_inj, hcnt, BitVec.toNat_ofNat]
      rfl
    rw [hp, PulseEnable.step, if_neg Bool.false_ne_true, if_pos rfl, if_pos hen]
    by_cases h1 : t % 1000001 = 1000000
    · rw [if_pos (heq.mpr h1)]
      refine ⟨rfl, ?_, ?_⟩
      · simp only [BitVec.ofNat_eq_ofNat, BitVec.toNat_ofNat]
        omega
      · simp only [hch, decide_eq_decide]
        omega
    · rw [if_neg (mt heq.mp h1)]
      have hadd : (q.pulse_counter + 1).toNat = (t + 1) % 1000001 := by
        rw [BitVec.toNat_add, hcnt]
        simp only [BitVec.ofNat_eq_ofNat, BitVec.toNat_ofNat]
        omega
      by_cases h2 : 500000 ≤ t % 1000001
      · rw [if_pos (hle.mpr h2)]
        exact ⟨rfl, hadd, by simpa using h2⟩
      · rw [if_neg (mt hle.mp h2)]
        exact ⟨rfl, hadd, by simpa using h2⟩

theorem train_on (t : ℕ) :
    train (onInDualMode flt) t = decide (500000 ≤ (t - 2) % 1000001) := by
  cases t with
  | zero => rfl
  | succ t =>
    have h := (on1_succ flt t).2.2
    rw [show t + 1 - 2 = t - 1 by omega]
    exact h

/-- From the first pulse on, there is a pulse in every period. -/
theorem exists_pulse {t : ℕ} (ht : 500002 < t) :
    ∃ u, 500002 ≤ u ∧ u < t ∧ t ≤ u + delayCounts ∧ train (onInDualMode flt) u = true := by
  refine ⟨t - 1 - (t - 500003) % 1000001, by omega, by omega, ?_, ?_⟩
  · unfold delayCounts
    omega
  · rw [train_on, decide_eq_true_iff]
    omega

theorem low_cnt_lt (t : ℕ) : (delayAt (onInDualMode flt) t).low_cnt.toNat < delayCounts := by
  by_contra hge
  obtain ⟨hle, hquiet⟩ := quietFor_low_cnt (onInDualMode flt) t
  obtain ⟨u, -, hut, htu, hu⟩ := exists_pulse flt (t := t) (by unfold delayCounts at hge; omega)
  rw [hquiet u hut (by omega)] at hu
  exact Bool.false_ne_true hu

/-- The delay is disarmed until the first pulse, counts for `delayCounts` clocks and then lets the
train through. -/
theorem delayAt_on (t : ℕ) :
    let d := delayAt (onInDualMode flt) t
    (t ≤ 500002 → d.started = false ∧ d.qualified = false ∧ d.sig_in_d = false) ∧
      (500002 < t → t ≤ 5500002 →
        d.started = true ∧ d.qualified = false ∧ d.qual_cnt.toNat = t - 500003) ∧
      (5500002 < t → d.qualified = true) := by
  induction t with
  | zero =>
    refine ⟨fun _ => ⟨rfl, rfl, rfl⟩, ?_, ?_⟩
    · intro h
      omega
    · intro h
      omega
  | succ t ih =>
    obtain ⟨hidle, hcount, hqual⟩ := ih
    have hlow := low_cnt_lt flt t
    have hx := train_on flt t
    rw [delayAt_succ, show (onInDualMode flt t).reset = false from rfl]
    refine ⟨?_, ?_, ?_⟩
    · intro ht
      obtain ⟨h1, h2, h3⟩ := hidle (by omega)
      obtain ⟨h1', h2', h3', -⟩ := PulseDelay.step_disarmed h1 h2 h3
      have hx0 : train (onInDualMode flt) t = false := by
        rw [hx, decide_eq_false_iff_not]
        omega
      exact ⟨h1'.trans hx0, h2', h3'.trans hx0⟩
    · intro hlt hle
      by_cases hfirst : t = 500002
      · obtain ⟨h1, h2, h3⟩ := hidle (by omega)
        obtain ⟨h1', h2', -, h4'⟩ := PulseDelay.step_disarmed h1 h2 h3
        have hx1 : train (onInDualMode flt) t = true := by
          rw [hx, decide_eq_true_iff]
          omega
        refine ⟨h1'.trans hx1, h2', ?_⟩
        rw [h4' hx1]
        simp only [BitVec.ofNat_eq_ofNat, BitVec.toNat_ofNat]
        omega
      · obtain ⟨h1, h2, h3⟩ := hcount (by omega) (by omega)
        obtain ⟨h1', h2', h3'⟩ := PulseDelay.step_counting delayCounts_lt hlow h1 h2
          (by rw [h3]; unfold delayCounts; omega)
        exact ⟨h1', h2', by rw [h3', h3]; omega⟩
    · intro ht
      by_cases hlast : t = 5500002
      · obtain ⟨h1, h2, h3⟩ := hcount (by omega) (by omega)
        exact PulseDelay.step_last delayCounts_lt h1 h2 (by rw [h3]; unfold delayCounts; omega)
      · exact PulseDelay.step_qualified delayCounts_lt hlow (hqual (by omega))

/-- Six clocks after it is qualified, the delay lets the first clock of a pulse through. -/
theorem sig_out_on : (delayAt (onInDualMode flt) 5500008).sig_out = true := by
  have hq := (delayAt_on flt 5500007).2.2 (by omega)
  have hx : train (onInDualMode flt) 5500007 = true := by
    rw [train_on, decide_eq_true_iff]
  rw [show 5500008 = 5500007 + 1 by omega, delayAt_succ,
    show (onInDualMode flt 5500007).reset = false from rfl, hx]
  simp [PulseDelay.step, hq]

end On

/-! ## The stagger -/

/-- In every run in dual mode in which the delay is never ahead of the gated train, channel 4 is
only enabled after channel 3 has been for the delay. -/
theorem staggered (inp : ℕ → In) (hd : ∀ t, (inp t).ch34_dualmode = true)
    (h : ∀ t, InStep inp t) : Staggered inp := by
  intro t ht
  rw [chan4_eq (hd t), Bool.and_eq_true, Bool.not_eq_true'] at ht
  obtain ⟨hout, hf⟩ := ht
  cases t with
  | zero => exact absurd hout (by simp [delayAt, configured])
  | succ t =>
    rw [delayAt_succ] at hout
    obtain ⟨-, hqual, hx⟩ := PulseDelay.step_sig_out hout
    have htr := tracks hd h t (.inr hqual)
    have hchan := chan3_eq (hd t)
    rw [hx, Bool.true_and] at hchan
    -- no gap ends here or at the next clock
    have hnow : ¬ QuietFor delayCounts (chan3 inp) t ∧
        ¬ QuietFor delayCounts (chan3 inp) (t + 1) ∧
        ¬ QuietFor delayCounts (chan3 inp) (t + 2) := by
      cases hft : faulty (inp t) with
      | false =>
        rw [hft, Bool.not_false] at hchan
        refine ⟨?_, not_quietFor_succ delayCounts_pos hchan, ?_⟩
        · intro hquiet
          have := ((h t).restart hft hx hquiet).2
          rw [hqual] at this
          exact Bool.false_ne_true this.symm
        · intro hquiet
          rw [hquiet t (by omega) (by unfold delayCounts; omega)] at hchan
          exact Bool.false_ne_true hchan
      | true =>
        rw [hft, Bool.not_true] at hchan
        obtain ⟨h1, h2⟩ := (h t).release hft hf hx hqual
        exact ⟨fun hquiet => h1 (hquiet.succ hchan), h1, h2⟩
    obtain ⟨hq0, hq1, hq2⟩ := hnow
    rcases htr with hquiet | ⟨s, hr, hs, -, hle⟩
    · exact absurd hquiet hq0
    · have := hle hqual
      exact ⟨s, hr, by omega, (hs.succ hq1).succ hq2⟩

theorem inStep_cleanStart (t : ℕ) : InStep cleanStart t where
  restart := by
    intro hf hx hquiet
    by_cases ht : t ≤ 500002
    · obtain ⟨h1, h2, -⟩ := (delayAt_on (fun _ => false) t).1 ht
      exact ⟨h1, h2⟩
    · obtain ⟨u, -, hut, htu, hu⟩ := exists_pulse (fun _ => false) (t := t) (by omega)
      have hg := hquiet u hut htu
      rw [chan3_eq rfl] at hg
      simp [cleanStart, hu, onInDualMode, faulty, overcurrent] at hg
  release := by
    intro hf
    simp [cleanStart, onInDualMode, faulty, overcurrent] at hf

/-- In a start without a fault channel 4 comes on, and only after channel 3. -/
theorem cleanStart_staggered : chan4 cleanStart 5500008 = true ∧ Staggered cleanStart := by
  refine ⟨?_, staggered cleanStart (fun _ => rfl) inStep_cleanStart⟩
  rw [chan4_eq rfl, cleanStart, sig_out_on]
  rfl

/-- A fault before the first pulse, cleared while the delay lets pulses through: channel 4 comes on
though channel 3 never did. -/
theorem lateClear_not_staggered :
    (∀ t, (lateClear t).ch34_dualmode = true) ∧ ¬ Staggered lateClear := by
  refine ⟨fun _ => rfl, ?_⟩
  intro h
  have h4 : chan4 lateClear 5500008 = true := by
    rw [chan4_eq rfl, lateClear, sig_out_on]
    simp [onInDualMode, faulty, overcurrent]
  obtain ⟨s, ⟨-, -, hs⟩, hle, -⟩ := h 5500008 h4
  unfold delayCounts at hle
  rw [chan3_eq rfl, lateClear, train_on] at hs
  simp [onInDualMode, faulty, overcurrent] at hs
  omega

end Zpsc.Digio
