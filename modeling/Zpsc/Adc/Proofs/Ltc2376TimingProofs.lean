import Zpsc.Adc.Ltc2376Timing
import Zpsc.Adc.Proofs.Ltc2376Proofs

/-!
# Every start makes one conversion

Each clock enable is one less (`ticks_tick`), so a start that finds the interface quiet is converted
from the next clock enable to `lastClock` (`converting`), and then the interface is quiet again.
-/

namespace Zpsc.Ltc2376

open Bits Clocked

variable {s : Regs} {i : In} {inp : ℕ → In} {t u j : ℕ}

/-! ## One clock -/

theorem conv_hold (hr : i.reset = false) (he : s.clk_enb = false) :
    conv s i = { s with start_lat := i.start || s.start_lat } := by
  simp [conv, hr, he]

theorem conv_tick (hr : i.reset = false) (he : s.clk_enb = true) : conv s i = tick s i := by
  simp [conv, hr, he]

theorem wrap_of_lt {n : ℕ} (h : n < 512) : wrap n = n := Nat.mod_eq_of_lt h

theorem wrap_pred {n : ℕ} (hpos : n ≠ 0) (h : n < 40) : wrap (n + 511) = n - 1 := by
  rw [wrap]
  omega

theorem Counts.tick (h : Counts s) : Counts (tick s i) := by
  unfold Ltc2376.tick
  dsimp only
  cases hs : s.state with
  | IDLE =>
    simp only [Counts, hs] at h
    have hbits := num_bits_le i.resolution
    have hpos := num_bits_pos i.resolution
    cases hl : s.start_lat with
    | false => simpa [Counts, hs] using h
    | true =>
      simp only [Counts, if_true]
      omega
  | SET_CNV =>
    simp only [Counts, hs] at h
    simp only
    split
    · simpa [Counts] using h.2
    · next hne =>
      simp only [Counts, CNV_PULSE] at h hne ⊢
      rw [wrap_of_lt (by omega)]
      omega
  | WAIT_FOR_NOT_BUSY =>
    simp only [Counts, hs] at h
    simp only
    split
    · simpa [Counts] using h.2
    · next hne =>
      simp only [Counts, CNV_WIDTH] at h hne ⊢
      rw [wrap_of_lt (by omega)]
      omega
  | SCLK_HI => simpa [Counts, hs] using h
  | SCLK_LO =>
    simp only [Counts, hs] at h
    by_cases hb : s.bit_count = 0
    · simpa [Counts, hb] using h.1
    · simp only [Counts, hb, if_false]
      rw [wrap_pred hb h.2]
      omega
  | DONE => simpa [Counts, hs] using h

/-- In a conversion each clock enable is one less. -/
theorem ticks_tick (h : Counts s) (hs : s.state ≠ .IDLE) : ticks (tick s i) + 1 = ticks s := by
  unfold Ltc2376.tick
  dsimp only
  cases hst : s.state with
  | IDLE => exact absurd hst hs
  | SET_CNV =>
    simp only [Counts, hst] at h
    simp only
    split
    · next heq =>
      simp only [ticks, hst, heq, CNV_WIDTH]
      omega
    · next hne =>
      simp only [CNV_PULSE] at h hne
      simp only [ticks, hst, CNV_PULSE]
      rw [wrap_of_lt (by omega)]
      omega
  | WAIT_FOR_NOT_BUSY =>
    simp only [Counts, hst] at h
    simp only
    split
    · next heq =>
      simp only [ticks, hst, heq]
      omega
    · next hne =>
      simp only [CNV_WIDTH] at h hne
      simp only [ticks, hst, CNV_WIDTH]
      rw [wrap_of_lt (by omega)]
      omega
  | SCLK_HI => simp only [ticks, hst]
  | SCLK_LO =>
    simp only [Counts, hst] at h
    by_cases hb : s.bit_count = 0
    · simp [ticks, hst, hb]
    · simp only [ticks, hst, hb, if_false]
      rw [wrap_pred hb h.2]
      omega
  | DONE => simp only [ticks, hst]

/-- Before its last clock enable a conversion puts nothing out, and a start is only latched. -/
theorem tick_busy (hs : s.state ≠ .IDLE) (hd : s.state ≠ .DONE) :
    (tick s i).start_lat = (i.start || s.start_lat) ∧ (tick s i).data_rdy = s.data_rdy ∧
      dccts (tick s i) = dccts s := by
  unfold tick
  dsimp only
  cases hst : s.state with
  | IDLE => exact absurd hst hs
  | DONE => exact absurd hst hd
  | SET_CNV | WAIT_FOR_NOT_BUSY =>
    simp only
    split <;> exact ⟨rfl, rfl, rfl⟩
  | SCLK_HI | SCLK_LO => exact ⟨rfl, rfl, rfl⟩

theorem tick_done (hs : s.state = .DONE) :
    (tick s i).state = .IDLE ∧ (tick s i).start_lat = (i.start || s.start_lat) ∧
      (tick s i).data_rdy = true := by
  simp [tick, hs]

theorem tick_idle (hs : s.state = .IDLE) (hl : s.start_lat = false) :
    (tick s i).state = .IDLE ∧ (tick s i).start_lat = i.start ∧ (tick s i).data_rdy = false ∧
      dccts (tick s i) = dccts s := by
  simp [tick, hs, hl, dccts]

/-- A start is taken. -/
theorem tick_taken (hs : s.state = .IDLE) (hl : s.start_lat = true) (hc : Counts s) :
    ticks (tick s i) = TICKS i.resolution ∧ (tick s i).start_lat = false ∧
      (tick s i).data_rdy = false ∧ dccts (tick s i) = dccts s := by
  have hpos := num_bits_pos i.resolution
  simp only [Counts, hs] at hc
  refine ⟨?_, ?_, ?_, ?_⟩
  · simp only [tick, hs, hl, ticks, hc, if_true, CNV_PULSE, CNV_WIDTH, TICKS]
    omega
  · simp [tick, hs, hl]
  · simp [tick, hs, hl]
  · simp [tick, hs, hl, dccts]

theorem ne_idle_of_ticks (h : ticks s ≠ 0) : s.state ≠ .IDLE := by
  intro hs
  exact h (by rw [ticks, hs])

theorem done_of_ticks (h : ticks s = 1) : s.state = .DONE := by
  cases hst : s.state with
  | DONE => rfl
  | IDLE | SET_CNV | WAIT_FOR_NOT_BUSY | SCLK_HI | SCLK_LO =>
    simp only [ticks, hst] at h
    omega

theorem ne_done_of_ticks (h : ticks s ≠ 1) : s.state ≠ .DONE := by
  intro hs
  exact h (by rw [ticks, hs])

/-! ## The clock enable -/

theorem cnt_beq_four (n : ℕ) : (BitVec.ofNat 8 (n % 5) == 4) = decide (n % 5 = 4) := by
  have hfour : (4 : BitVec 8).toNat = 4 := rfl
  rw [Bool.eq_iff_iff, beq_iff_eq, ← BitVec.toNat_inj, BitVec.toNat_ofNat, hfour,
    decide_eq_true_iff]
  omega

section Run

variable (h : Paced inp) (s : Regs)
include h

theorem clk_cnt_eq (ht : 0 < t) : (regs s inp t).clk_cnt = BitVec.ofNat 8 ((t - 1) % 5) := by
  induction t, ht using Nat.le_induction with
  | base => simp [regs_succ, step, h.reset]
  | succ t ht ih =>
    simp only [regs_succ, step, h.no_reset t ht, ih, Bool.false_or, cnt_beq_four,
      decide_eq_true_iff]
    split
    · rw [show (t + 1 - 1) % 5 = 0 by omega]
      rfl
    · rw [show (t + 1 - 1) % 5 = (t - 1) % 5 + 1 by omega, BitVec.ofNat_add]
      rfl

theorem clk_enb_iff (ht : 0 < t) : (regs s inp t).clk_enb = true ↔ 1 < t ∧ t % 5 = 1 := by
  rcases Nat.lt_or_eq_of_le (Nat.succ_le_of_lt ht) with h1 | rfl
  · obtain ⟨v, rfl⟩ := Nat.exists_eq_add_of_lt h1
    have hcnt := clk_cnt_eq h s (t := 1 + v) (by omega)
    simp only [regs_succ, step, h.no_reset (1 + v) (by omega), hcnt, cnt_beq_four, Bool.not_false,
      Bool.true_and, decide_eq_true_iff]
    omega
  · simp [regs_succ, step, h.reset]

theorem clk_enb_eq_false (ht : 0 < t) (hne : ¬ (1 < t ∧ t % 5 = 1)) :
    (regs s inp t).clk_enb = false := by
  rw [← clk_enb_iff h s ht] at hne
  simpa using hne

theorem regs_hold (ht : 0 < t) (hne : ¬ (1 < t ∧ t % 5 = 1)) :
    ∃ n e, regs s inp (t + 1) =
      { regs s inp t with
        start_lat := (inp t).start || (regs s inp t).start_lat, clk_cnt := n, clk_enb := e } := by
  rw [regs_succ, step, conv_hold (h.no_reset t ht) (clk_enb_eq_false h s ht hne)]
  exact ⟨_, _, rfl⟩

theorem regs_tick (ht : 1 < t) (he : t % 5 = 1) :
    ∃ n e, regs s inp (t + 1) =
      { tick (regs s inp t) (inp t) with clk_cnt := n, clk_enb := e } := by
  rw [regs_succ, step, conv_tick (h.no_reset t (by omega))
    ((clk_enb_iff h s (by omega)).mpr ⟨ht, he⟩)]
  exact ⟨_, _, rfl⟩

theorem counts (ht : 0 < t) : Counts (regs s inp t) := by
  induction t, ht using Nat.le_induction with
  | base => simp [regs_succ, step, conv, h.reset, Counts]
  | succ t ht ih =>
    by_cases he : 1 < t ∧ t % 5 = 1
    · obtain ⟨n, e, heq⟩ := regs_tick h s he.1 he.2
      rw [heq]
      exact ih.tick (i := inp t)
    · obtain ⟨n, e, heq⟩ := regs_hold h s ht he
      rw [heq]
      exact ih

/-! ## A start -/

omit h in
theorem nextEnable_bounds (t : ℕ) :
    t < nextEnable t ∧ nextEnable t ≤ t + 5 ∧ nextEnable t % 5 = 1 ∧
      ∀ v, t < v → v < nextEnable t → v % 5 ≠ 1 := by
  unfold nextEnable
  refine ⟨by omega, by omega, by omega, ?_⟩
  intro v htv hv
  omega

omit h in
theorem TICKS_bounds (resolution : Bool) : 136 ≤ TICKS resolution ∧ TICKS resolution ≤ 144 := by
  cases resolution <;> decide

omit h in
theorem lastClock_bounds (inp : ℕ → In) (t : ℕ) :
    t + 681 ≤ lastClock inp t ∧ lastClock inp t ≤ t + 725 := by
  have hn := nextEnable_bounds t
  have hT := TICKS_bounds (inp (nextEnable t)).resolution
  unfold lastClock
  omega

theorem no_start (hstart : (inp t).start = true) {v : ℕ} (htv : t < v) (hv : v < t + PERIOD) :
    (inp v).start = false := by
  by_contra hs
  have := h.apart t v htv hstart (by simpa using hs)
  omega

section Start

variable (ht : 0 < t) (hstart : (inp t).start = true) (hq : Quiet (regs s inp t))
include ht hstart hq

/-- A start is latched up to the next clock enable. -/
theorem latched {v : ℕ} (htv : t < v) (hv : v ≤ nextEnable t) :
    (regs s inp v).state = .IDLE ∧ (regs s inp v).start_lat = true ∧
      (regs s inp v).data_rdy = false ∧ dccts (regs s inp v) = dccts (regs s inp t) := by
  induction v, htv using Nat.le_induction with
  | base =>
    by_cases he : 1 < t ∧ t % 5 = 1
    · obtain ⟨n, e, heq⟩ := regs_tick h s he.1 he.2
      have ⟨hst, hl, hr, hd⟩ := tick_idle (i := inp t) hq.state hq.start_lat
      rw [Nat.succ_eq_add_one, heq]
      exact ⟨hst, hl.trans hstart, hr, hd⟩
    · obtain ⟨n, e, heq⟩ := regs_hold h s ht he
      rw [Nat.succ_eq_add_one, heq]
      refine ⟨hq.state, ?_, hq.data_rdy, rfl⟩
      simp [hstart]
  | succ v htv ih =>
    obtain ⟨hst, hl, hr, hd⟩ := ih (by omega)
    obtain ⟨-, -, -, hbetween⟩ := nextEnable_bounds t
    have hno : ¬ (1 < v ∧ v % 5 = 1) := fun he => hbetween v htv (by omega) he.2
    obtain ⟨n, e, heq⟩ := regs_hold h s (by omega) hno
    rw [heq]
    refine ⟨hst, ?_, hr, hd⟩
    simp [hl]

/-- The clock enables of the conversion. -/
theorem converting (hj : j < 5 * TICKS (inp (nextEnable t)).resolution) :
    ticks (regs s inp (nextEnable t + 1 + j)) = TICKS (inp (nextEnable t)).resolution - j / 5 ∧
      (regs s inp (nextEnable t + 1 + j)).start_lat = false ∧
      (regs s inp (nextEnable t + 1 + j)).data_rdy = false ∧
      dccts (regs s inp (nextEnable t + 1 + j)) = dccts (regs s inp t) := by
  obtain ⟨hlt, hle, hmod, -⟩ := nextEnable_bounds t
  have hT := (TICKS_bounds (inp (nextEnable t)).resolution).2
  induction j with
  | zero =>
    obtain ⟨hst, hl, hr, hd⟩ := latched h s ht hstart hq hlt le_rfl
    obtain ⟨n, e, heq⟩ := regs_tick h s (t := nextEnable t) (by omega) hmod
    have ⟨htk, hl', hr', hd'⟩ := tick_taken (i := inp (nextEnable t)) hst hl
      (counts h s (by omega))
    rw [Nat.add_zero, heq]
    exact ⟨htk, hl', hr', hd'.trans hd⟩
  | succ j ih =>
    obtain ⟨htk, hl, hr, hd⟩ := ih (by omega)
    have hnone := no_start h hstart (v := nextEnable t + 1 + j) (by omega)
      (by rw [PERIOD]; omega)
    rw [← Nat.add_assoc]
    by_cases he : (nextEnable t + 1 + j) % 5 = 1
    · obtain ⟨n, e, heq⟩ := regs_tick h s (t := nextEnable t + 1 + j) (by omega) he
      have hidle := ne_idle_of_ticks (s := regs s inp (nextEnable t + 1 + j)) (by omega)
      have hdone := ne_done_of_ticks (s := regs s inp (nextEnable t + 1 + j)) (by omega)
      have hless := ticks_tick (i := inp (nextEnable t + 1 + j)) (counts h s (by omega)) hidle
      have ⟨hl', hr', hd'⟩ := tick_busy (i := inp (nextEnable t + 1 + j)) hidle hdone
      rw [heq]
      refine ⟨?_, ?_, hr'.trans hr, hd'.trans hd⟩
      · change ticks (tick (regs s inp (nextEnable t + 1 + j)) _) = _
        omega
      · rw [hl', hnone, hl]
        rfl
    · obtain ⟨n, e, heq⟩ := regs_hold h s (t := nextEnable t + 1 + j) (by omega)
        (fun h' => he h'.2)
      rw [heq]
      refine ⟨?_, ?_, hr, hd⟩
      · change ticks (regs s inp (nextEnable t + 1 + j)) = _
        omega
      · simp [hnone, hl]

/-- The last clock enable puts the words out. -/
theorem lastTick :
    (regs s inp (lastClock inp t + 1)).state = .IDLE ∧
      (regs s inp (lastClock inp t + 1)).start_lat = false ∧
      (regs s inp (lastClock inp t + 1)).data_rdy = true := by
  obtain ⟨hlt, hle, hmod, -⟩ := nextEnable_bounds t
  have hT := TICKS_bounds (inp (nextEnable t)).resolution
  obtain ⟨j, hj⟩ : ∃ j, 5 * TICKS (inp (nextEnable t)).resolution = j + 1 :=
    ⟨5 * TICKS (inp (nextEnable t)).resolution - 1, by omega⟩
  obtain ⟨htk, hl, -⟩ := converting h s ht hstart hq (j := j) (by omega)
  have heq : lastClock inp t = nextEnable t + 1 + j := by
    rw [lastClock]
    omega
  have hnone := no_start h hstart (v := lastClock inp t) (by omega) (by rw [PERIOD]; omega)
  rw [← heq] at htk hl
  obtain ⟨n, e, hstep⟩ := regs_tick h s (t := lastClock inp t) (by omega) (by omega)
  have ⟨hst', hl', hr'⟩ := tick_done (i := inp (lastClock inp t))
    (done_of_ticks (s := regs s inp (lastClock inp t)) (by omega))
  rw [hstep]
  refine ⟨hst', ?_, hr'⟩
  rw [hl', hnone, hl]
  rfl

/-- `data_rdy` stays up to the next clock enable. -/
theorem ready {v : ℕ} (hv : lastClock inp t < v) (hv' : v ≤ lastClock inp t + 5) :
    (regs s inp v).state = .IDLE ∧ (regs s inp v).start_lat = false ∧
      (regs s inp v).data_rdy = true ∧
      dccts (regs s inp v) = dccts (regs s inp (lastClock inp t + 1)) := by
  obtain ⟨-, -, hmod, -⟩ := nextEnable_bounds t
  have hlast := lastClock_bounds inp t
  have hmod' : lastClock inp t % 5 = 1 := by
    rw [lastClock]
    omega
  induction v, hv using Nat.le_induction with
  | base =>
    obtain ⟨hst, hl, hr⟩ := lastTick h s ht hstart hq
    exact ⟨hst, hl, hr, rfl⟩
  | succ v hv ih =>
    obtain ⟨hst, hl, hr, hd⟩ := ih (by omega)
    have hnone := no_start h hstart (v := v) (by omega) (by rw [PERIOD]; omega)
    obtain ⟨n, e, heq⟩ := regs_hold h s (t := v) (by omega) (by omega)
    rw [heq]
    refine ⟨hst, ?_, hr, hd⟩
    simp [hnone, hl]

end Start

/-- Without a start the interface stays quiet. -/
theorem quiet_succ {v : ℕ} (hv : 0 < v) (hq : Quiet (regs s inp v))
    (hnone : (inp v).start = false) :
    Quiet (regs s inp (v + 1)) ∧ dccts (regs s inp (v + 1)) = dccts (regs s inp v) := by
  by_cases he : 1 < v ∧ v % 5 = 1
  · obtain ⟨n, e, heq⟩ := regs_tick h s he.1 he.2
    have ⟨hst, hl, hr, hd⟩ := tick_idle (i := inp v) hq.state hq.start_lat
    rw [heq]
    exact ⟨⟨hst, hl.trans hnone, hr⟩, hd⟩
  · obtain ⟨n, e, heq⟩ := regs_hold h s hv he
    rw [heq]
    refine ⟨⟨hq.state, ?_, hq.data_rdy⟩, rfl⟩
    simp [hnone, hq.start_lat]

section Start

variable (ht : 0 < t) (hstart : (inp t).start = true) (hq : Quiet (regs s inp t))
include ht hstart hq

/-- Then the interface is quiet again. -/
theorem quiet_after {v : ℕ} (hv : lastClock inp t + 5 < v) (hnone : NoStart inp t v) :
    Quiet (regs s inp v) ∧
      dccts (regs s inp v) = dccts (regs s inp (lastClock inp t + 1)) := by
  have hlast := lastClock_bounds inp t
  obtain ⟨-, -, hmod, -⟩ := nextEnable_bounds t
  induction v, hv using Nat.le_induction with
  | base =>
    obtain ⟨hst, hl, -, hd⟩ := ready h s ht hstart hq (v := lastClock inp t + 5) (by omega) le_rfl
    have hmod' : (lastClock inp t + 5) % 5 = 1 := by
      rw [lastClock]
      omega
    have hno := hnone (lastClock inp t + 5) (by omega) (by omega)
    obtain ⟨n, e, heq⟩ := regs_tick h s (t := lastClock inp t + 5) (by omega) hmod'
    have ⟨hst', hl', hr', hd'⟩ := tick_idle (i := inp (lastClock inp t + 5)) hst hl
    rw [Nat.succ_eq_add_one, heq]
    exact ⟨⟨hst', hl'.trans hno, hr'⟩, hd'.trans hd⟩
  | succ v hv ih =>
    obtain ⟨hquiet, hd⟩ := ih fun u hu huv => hnone u hu (by omega)
    obtain ⟨hquiet', hd'⟩ := quiet_succ h s (by omega) hquiet (hnone v (by omega) (by omega))
    exact ⟨hquiet', hd'.trans hd⟩

theorem converts_of_quiet : Converts s inp t := by
  obtain ⟨hlt, hle, -, -⟩ := nextEnable_bounds t
  have hlast := lastClock_bounds inp t
  have hbusy : ∀ v, nextEnable t < v → v ≤ lastClock inp t →
      ∃ j, v = nextEnable t + 1 + j ∧ j < 5 * TICKS (inp (nextEnable t)).resolution := by
    intro v hv hv'
    rw [lastClock] at hv'
    exact ⟨v - (nextEnable t + 1), by omega, by omega⟩
  refine ⟨⟨by omega, (latched h s ht hstart hq hlt le_rfl).1, ?_, (lastTick h s ht hstart hq).2.2⟩,
    ?_, ?_, ?_, ?_⟩
  · intro v hv hv'
    obtain ⟨j, rfl, hj⟩ := hbusy v hv hv'
    have htk := (converting h s ht hstart hq hj).1
    exact ne_idle_of_ticks (by omega)
  · intro v hv hv'
    rcases Nat.lt_or_ge (nextEnable t) v with hc | hc
    · obtain ⟨j, rfl, hj⟩ := hbusy v hc hv'
      exact (converting h s ht hstart hq hj).2.2
    · exact (latched h s ht hstart hq hv hc).2.2
  · intro v hv hv'
    exact (ready h s ht hstart hq hv hv').2.2.1
  · intro v hv hnone
    exact (quiet_after h s ht hstart hq hv hnone).1
  · intro v hv hnone
    rcases Nat.lt_or_ge (lastClock inp t + 5) v with h5 | h5
    · exact (quiet_after h s ht hstart hq h5 hnone).2
    · exact (ready h s ht hstart hq hv h5).2.2.2

end Start

/-- Up to the first start the interface is quiet. -/
theorem quiet_first {v : ℕ} (hv : 0 < v) (hnone : NoStart inp 0 v) : Quiet (regs s inp v) := by
  induction v, hv using Nat.le_induction with
  | base =>
    refine ⟨?_, ?_, ?_⟩ <;> simp [regs_succ, step, conv, h.reset]
  | succ v hv ih =>
    exact (quiet_succ h s hv (ih fun u hu huv => hnone u hu (by omega)) (hnone v hv (by omega))).1

/-- Each start finds the interface quiet. -/
theorem quiet_at_start (ht : 0 < t) (hstart : (inp t).start = true) : Quiet (regs s inp t) := by
  induction t using Nat.strong_induction_on with
  | _ t ih =>
    rcases exists_last_tick (fun v => (inp v).start) t with hnone | ⟨t', ht', hstart', hbetween⟩
    · exact quiet_first h s ht fun u _ hut => hnone u hut
    · rcases Nat.eq_zero_or_pos t' with rfl | hpos
      · exact quiet_first h s ht hbetween
      · have hlast := lastClock_bounds inp t'
        have hfar := h.apart t' t ht' hstart' hstart
        rw [PERIOD] at hfar
        exact (quiet_after h s hpos hstart' (ih t' ht' hpos hstart') (by omega) hbetween).1

/-- Every start makes one conversion. -/
theorem converts (ht : 0 < t) (hstart : (inp t).start = true) : Converts s inp t :=
  converts_of_quiet h s ht hstart (quiet_at_start h s ht hstart)

end Run

end Zpsc.Ltc2376
