import Mathlib.Algebra.Order.Ring.Abs
import Mathlib.Algebra.Order.Ring.Int
import Zpsc.Dac.Proofs.SmoothLinearProofs
import Zpsc.Dac.Trajectory

/-!
# The linear smooth ramp follows its trajectory

A tick that comes when the ramp waits either ends a section or starts an update, and an update is
over 15 clocks later, before the next tick (`Accounts`). So ticks, updates and section changes
balance, and the accumulator goes through the exact points (`setptAt_eq`).
-/

namespace Zpsc.SmoothLinear

open Bits Clocked

variable {p : Params} {r : Ramp} {i : In}

/-! ## What a clock does -/

/-- The section of a state; the run is over after three. -/
def sectionNo : State → ℕ
  | .START_CURVED | .SC_CALC_DY0 | .SC_WAIT_DY0_MULT | .SC_CALC_SETPT_CUR
  | .SC_UPDATE_SETPT_LAST => 0
  | .LINEAR | .LN_CALC_SETPT_CUR | .LN_UPDATE_SETPT_LAST => 1
  | .END_CURVED | .EC_CALC_DY0 | .EC_WAIT_DY0_MULT | .EC_CALC_SETPT_CUR
  | .EC_UPDATE_SETPT_LAST => 2
  | .IDLE => 3

/-- An update is under way. -/
def busy : State → Bool
  | .IDLE | .START_CURVED | .LINEAR | .END_CURVED => false
  | _ => true

/-- The clocks before the update that is under way. -/
def clocksLeft (r : Ramp) : ℕ :=
  match r.state with
  | .SC_CALC_DY0 | .EC_CALC_DY0 => 13
  | .SC_WAIT_DY0_MULT | .EC_WAIT_DY0_MULT => r.mult_wait_cnt.toNat + 2
  | .SC_CALC_SETPT_CUR | .LN_CALC_SETPT_CUR | .EC_CALC_SETPT_CUR => 1
  | _ => 0

theorem step_cnt (hr : i.reset = false) (hs : r.state ≠ .IDLE) :
    (step r i).cnt = r.cnt + if updates r then 1 else 0 := by
  cases hst : r.state <;> simp only [step, updates, hr, hst, Bool.false_eq_true, if_false]
  case IDLE => exact absurd hst hs
  case START_CURVED | LINEAR | END_CURVED => split <;> (try split) <;> simp
  case SC_WAIT_DY0_MULT | EC_WAIT_DY0_MULT => split <;> simp
  all_goals simp

theorem step_sectionNo (hr : i.reset = false) (hs : r.state ≠ .IDLE) :
    sectionNo (step r i).state = sectionNo r.state + (endsSection r i).toNat := by
  unfold endsSection
  cases hst : r.state <;> simp only [step, hr, hst, Bool.false_eq_true, if_false]
  case IDLE => exact absurd hst hs
  case START_CURVED | LINEAR | END_CURVED =>
    cases ht : i.tenkhz_trig <;> simp only [Bool.false_eq_true, if_false, if_true]
    · simp [hst]
    · split <;> simp [sectionNo]
  case SC_WAIT_DY0_MULT | EC_WAIT_DY0_MULT => split <;> simp [sectionNo]
  all_goals simp [sectionNo]

/-- A waiting ramp answers a tick with the start of an update or the end of the section. -/
theorem step_waiting (hr : i.reset = false) (hs : r.state ≠ .IDLE) (hb : busy r.state = false) :
    updates r = false ∧
      (busy (step r i).state).toNat + (endsSection r i).toNat = i.tenkhz_trig.toNat := by
  unfold endsSection
  cases hst : r.state <;> simp only [hst, busy] at hb <;>
    simp only [step, updates, hr, hst, Bool.false_eq_true, if_false]
  case IDLE => exact absurd hst hs
  case START_CURVED | LINEAR | END_CURVED =>
    cases ht : i.tenkhz_trig <;> simp only [Bool.false_eq_true, if_false, if_true]
    · simp [busy, hst]
    · split <;> simp [busy]
  all_goals exact absurd hb (by decide)

theorem step_busy (hr : i.reset = false) (hb : busy r.state = true) :
    endsSection r i = false ∧ (busy (step r i).state).toNat + (updates r).toNat = 1 := by
  unfold endsSection
  cases hst : r.state <;> simp only [hst, busy] at hb <;>
    simp only [step, updates, hr, hst, Bool.false_eq_true, if_false]
  case IDLE | START_CURVED | LINEAR | END_CURVED => exact absurd hb (by decide)
  case SC_WAIT_DY0_MULT | EC_WAIT_DY0_MULT => split <;> simp [busy]
  all_goals simp [busy]

/-- An update that is under way after a clock was started by a tick at that clock, or is one clock
closer. -/
theorem step_left (hr : i.reset = false) (hs : r.state ≠ .IDLE)
    (hb : busy (step r i).state = true) :
    (busy r.state = true ∧ clocksLeft (step r i) + 1 ≤ clocksLeft r) ∨
      (i.tenkhz_trig = true ∧ clocksLeft (step r i) ≤ 13) := by
  revert hb
  cases hst : r.state <;> simp only [step, hr, hst, Bool.false_eq_true, if_false]
  case IDLE => exact absurd hst hs
  case START_CURVED | LINEAR | END_CURVED =>
    cases ht : i.tenkhz_trig <;> simp only [Bool.false_eq_true, if_false, if_true]
    · simp [busy, hst]
    · split <;> simp [busy, clocksLeft]
  case SC_WAIT_DY0_MULT | EC_WAIT_DY0_MULT =>
    split
    · simp [busy, clocksLeft, hst]
    · next hne =>
      have := toNat_sub_one hne
      intro _
      refine .inl ⟨rfl, ?_⟩
      simp only [clocksLeft, hst]
      omega
  all_goals simp [busy, clocksLeft, hst]

/-! ## Ticks, updates and section changes -/

variable {s : Ramp} {inp : ℕ → In} {cur new : BitVec 20} {t T : ℕ}

theorem updatesBefore_succ (s : Ramp) (inp : ℕ → In) (t : ℕ) :
    updatesBefore s inp (t + 1) =
      updatesBefore s inp t + (updates (trace step s inp t)).toNat := by
  rw [updatesBefore, updatesBefore, Nat.count_succ]
  cases updates (trace step s inp t) <;> rfl

theorem updatesBefore_one (hs : s.state = .IDLE) : updatesBefore s inp 1 = 0 := by
  rw [updatesBefore_succ, updatesBefore, Nat.count_zero]
  simp [updates, hs]

theorem changesBefore_succ (s : Ramp) (inp : ℕ → In) (t : ℕ) :
    changesBefore s inp (t + 1) =
      changesBefore s inp t + (endsSection (trace step s inp t) (inp t)).toNat := by
  rw [changesBefore, changesBefore, Nat.count_succ]
  cases endsSection (trace step s inp t) (inp t) <;> rfl

theorem ticksBefore_succ (inp : ℕ → In) (ht : 0 < t) :
    ticksBefore inp (t + 1) = ticksBefore inp t + (inp t).tenkhz_trig.toNat := by
  rw [ticksBefore, ticksBefore, Nat.count_succ]
  cases (inp t).tenkhz_trig <;> simp [ht]

/-- The count is the number of updates, the section that of the section changes, and every tick has
made an update or ended a section, but for the one whose update is under way. -/
structure Accounts (s : Ramp) (inp : ℕ → In) (t : ℕ) : Prop where
  cnt : (trace step s inp t).cnt.toNat = updatesBefore s inp t
  sections : sectionNo (trace step s inp t).state = changesBefore s inp t
  ticks : ticksBefore inp t =
    updatesBefore s inp t + changesBefore s inp t + (busy (trace step s inp t).state).toNat
  since : busy (trace step s inp t).state = true →
    sinceTick 20 (fun u => (inp u).tenkhz_trig) t + clocksLeft (trace step s inp t) ≤ 13

/-- No tick comes while an update is under way. -/
theorem Accounts.no_tick (h : Accounts s inp t)
    (hticks : TicksApart 20 fun u => (inp u).tenkhz_trig)
    (hb : busy (trace step s inp t).state = true) : (inp t).tenkhz_trig = false := by
  by_contra htick
  have h20 := le_sinceTick hticks (t := t) (by simpa using htick)
  have h13 := h.since hb
  omega

theorem Accounts.succ (h : Accounts s inp t) (ht : 0 < t) (hr : (inp t).reset = false)
    (hs : (trace step s inp t).state ≠ .IDLE)
    (hcnt : (trace step s inp t).cnt.toNat < 2 ^ 31)
    (hticks : TicksApart 20 fun u => (inp u).tenkhz_trig) : Accounts s inp (t + 1) := by
  have hupd := updatesBefore_succ s inp t
  have hchg := changesBefore_succ s inp t
  have htck := ticksBefore_succ inp ht
  refine ⟨?_, ?_, ?_, ?_⟩
  · rw [trace_succ, step_cnt hr hs, hupd, ← h.cnt]
    cases updates (trace step s inp t) with
    | false => simp
    | true =>
      rw [if_pos rfl, BitVec.toNat_add, Nat.mod_eq_of_lt (by simp; omega)]
      rfl
  · rw [trace_succ, step_sectionNo hr hs, hchg, h.sections]
  · have hbal := h.ticks
    rw [trace_succ]
    cases hb : busy (trace step s inp t).state with
    | false =>
      obtain ⟨hu, hbusy⟩ := step_waiting hr hs hb
      rw [hb] at hbal
      rw [hu] at hupd
      simp only [Bool.toNat_false] at hbal hupd
      omega
    | true =>
      obtain ⟨he, hbusy⟩ := step_busy hr hb
      have hno := h.no_tick hticks hb
      rw [hb] at hbal
      rw [he] at hchg
      rw [hno] at htck
      simp only [Bool.toNat_true, Bool.toNat_false] at hbal hchg htck
      omega
  · intro hb
    rw [trace_succ] at hb ⊢
    rw [sinceTick]
    rcases step_left hr hs hb with ⟨hb', hleft⟩ | ⟨htick, hleft⟩
    · have hno := h.no_tick hticks hb'
      have hsince := h.since hb'
      rw [if_neg (by simp [hno])]
      omega
    · rw [if_pos htick]
      omega

/-! ## The run -/

/-- The run up to its end. -/
structure Running (p : Params) (cur : BitVec 20) (s : Ramp) (inp : ℕ → In) (t : ℕ) : Prop where
  onRamp : OnRamp p (startLevel cur) (trace step s inp t)
  accounts : Accounts s inp t

theorem OnRamp.cnt_le {v : ℤ} (h : OnRamp p v r) : r.cnt.toNat ≤ p.last := by
  obtain ⟨k, hcnt, hk, -⟩ := h
  have := last_lt p
  rw [hcnt, BitVec.toNat_ofNat, Nat.mod_eq_of_lt (by omega)]
  exact hk

theorem running_one (hs : Ready new s) (h : Undisturbed p cur new inp) :
    Running p cur s inp 1 := by
  obtain ⟨hon, hstate⟩ := step_start (r := s) (h.params 0) h.mode h.cur_setpt h.new_setpt hs
  have hone := step_start_eq (r := s) (h.params 0) h.mode h.cur_setpt h.new_setpt hs
  have hupd : updatesBefore s inp 1 = 0 := updatesBefore_one hs.1
  have hchg : changesBefore s inp 1 = 0 := by
    rw [changesBefore_succ, changesBefore, Nat.count_zero]
    simp [endsSection, hs.1]
  have htck : ticksBefore inp 1 = 0 := by
    rw [ticksBefore, Nat.count_succ]
    simp
  have hst : (trace step s inp 1).state = .START_CURVED := hstate
  refine ⟨hon, ?_, ?_, ?_, ?_⟩
  · rw [hupd]
    simp [trace_succ, hone]
  · rw [hchg, hst]
    rfl
  · rw [htck, hupd, hchg, hst]
    rfl
  · rw [hst]
    simp [busy]

theorem running_of_before (hs : Ready new s) (h : Undisturbed p cur new inp)
    (hticks : TicksApart 20 fun u => (inp u).tenkhz_trig)
    (hrun : ∀ u, 0 < u → u < T → (trace step s inp u).state ≠ .IDLE) (ht : 1 ≤ t) (htT : t ≤ T) :
    Running p cur s inp t := by
  refine hold (P := Running p cur s inp) ht (fun u hu hut hr => ?_) (running_one hs h)
  have hne := hrun u hu (by omega)
  have hcnt := hr.onRamp.cnt_le
  have hlast := last_lt p
  exact ⟨step_onRamp hr.onRamp (h.params u) hne,
    hr.accounts.succ hu (h.params u).reset hne (by omega) hticks⟩

/-! ## The points -/

namespace Params

theorem toInt_of_lt {x : BitVec 32} (h : x.toNat < 2 ^ 31) : x.toInt = x.toNat :=
  BitVec.toInt_eq_toNat_of_lt (by omega)

/-- The sections of a run of fewer than `2^31` points. -/
theorem sections (h : p.points < 2 ^ 31) :
    p.c = p.C ∧ p.cl = p.C + p.L ∧ p.tl = 2 * p.C + p.L := by
  have hC : p.curved_len.toNat = p.C := rfl
  have hL : p.linear_len.toNat = p.L := rfl
  unfold points at h
  have hcl : (p.curved_len + p.linear_len).toNat = p.C + p.L := by
    rw [BitVec.toNat_add, hC, hL, Nat.mod_eq_of_lt (by omega)]
  have htl : (p.curved_len + p.curved_len + p.linear_len).toNat = 2 * p.C + p.L := by
    rw [BitVec.toNat_add, BitVec.toNat_add, hC, hL]
    omega
  refine ⟨?_, ?_, ?_⟩
  · rw [c, toInt_of_lt (by omega), hC]
  · rw [cl, toInt_of_lt (by omega), hcl]
    push_cast
    rfl
  · rw [tl, toInt_of_lt (by omega), htl]
    push_cast
    rfl

theorem last_eq (h : p.points < 2 ^ 31) : p.last = p.points := by
  obtain ⟨h1, h2, h3⟩ := sections h
  rw [last, h1, h2, h3, points]
  omega

theorem inc_eq (h : p.points < 2 ^ 31) (k : ℕ) : p.inc k = p.stepAt k := by
  obtain ⟨h1, h2, h3⟩ := sections h
  have hc : (k : ℤ) < p.C ↔ k < p.C := by omega
  have hcl : (k : ℤ) < p.C + p.L ↔ k < p.C + p.L := by omega
  rw [inc, stepAt, h1, h2, h3, points]
  simp only [hc, hcl]
  push_cast
  rfl

theorem level_eq (h : p.points < 2 ^ 31) (cur : BitVec 20) (k : ℕ) :
    p.level (startLevel cur) k = p.point cur k := by
  induction k with
  | zero => simp [level, point, startLevel]
  | succ k ih => rw [level, ih, inc_eq h, point, point, Finset.sum_range_succ, add_assoc]

theorem point_succ (p : Params) (cur : BitVec 20) (k : ℕ) :
    p.point cur (k + 1) = p.point cur k + p.stepAt k := by
  rw [point, point, Finset.sum_range_succ, add_assoc]

/-- The progressions of the two curved sections add up to a square. -/
theorem point_points (h : p.points < 2 ^ 31) (cur : BitVec 20) :
    p.point cur p.points =
      cur.toInt * 2 ^ 48 + p.L * p.dy.toInt + p.C ^ 2 * p.dy_per_pt.toInt := by
  obtain ⟨h1, h2, h3⟩ := sections h
  have hsum := two_mul_level_last p (startLevel cur)
  have hc : max 0 p.c = p.C := by omega
  have hl : max 0 (p.cl - p.C) = p.L := by omega
  have ht : max 0 (p.tl - (p.C + p.L)) = p.C := by omega
  rw [last_eq h, level_eq h, hc, hl, ht, startLevel] at hsum
  have htwice : 2 * p.point cur p.points =
      2 * (cur.toInt * 2 ^ 48 + p.L * p.dy.toInt + p.C ^ 2 * p.dy_per_pt.toInt) := by
    rw [hsum]
    ring
  omega

theorem stepAt_nonneg (hdy : 0 ≤ p.dy.toInt) (hpt : 0 ≤ p.dy_per_pt.toInt) {k : ℕ}
    (hk : k < p.points) : 0 ≤ p.stepAt k := by
  unfold stepAt
  split
  · exact mul_nonneg (by omega) hpt
  · split
    · exact hdy
    · exact mul_nonneg (by omega) hpt

theorem stepAt_nonpos (hdy : p.dy.toInt ≤ 0) (hpt : p.dy_per_pt.toInt ≤ 0) {k : ℕ}
    (hk : k < p.points) : p.stepAt k ≤ 0 := by
  unfold stepAt
  split
  · exact mul_nonpos_of_nonneg_of_nonpos (by omega) hpt
  · split
    · exact hdy
    · exact mul_nonpos_of_nonneg_of_nonpos (by omega) hpt

theorem abs_stepAt_le {k : ℕ} (hk : k < p.points) :
    |p.stepAt k| ≤ max |p.dy.toInt| (p.C * |p.dy_per_pt.toInt|) := by
  have hcurved : ∀ n : ℤ, 0 ≤ n → n ≤ p.C →
      |n * p.dy_per_pt.toInt| ≤ max |p.dy.toInt| (p.C * |p.dy_per_pt.toInt|) := by
    intro n h0 hn
    rw [abs_mul, abs_of_nonneg h0]
    exact (mul_le_mul_of_nonneg_right hn (abs_nonneg _)).trans (le_max_right _ _)
  unfold points at hk
  unfold stepAt points
  split
  · exact hcurved k (by omega) (by omega)
  · split
    · exact le_max_left _ _
    · exact hcurved _ (by push_cast; omega) (by push_cast; omega)

end Params

theorem rampout_eq (r : Ramp) (h1 : -2 ^ 19 ≤ r.setpt_last.toInt / 2 ^ 48)
    (h2 : r.setpt_last.toInt / 2 ^ 48 < 2 ^ 19) :
    r.rampout.toInt = r.setpt_last.toInt / 2 ^ 48 := by
  have hlo := BitVec.le_toInt r.setpt_last
  have hhi := BitVec.toInt_lt (x := r.setpt_last)
  have hcode : r.rampout = codeOf r.setpt_last.toInt := by
    rw [codeOf, BitVec.ofInt_toInt, Ramp.rampout]
  rw [hcode, toInt_codeOf (by omega) (by omega)]
  split <;> omega

/-! ## The trajectory -/

theorem Running.setptAt_eq (h : Running p cur s inp t) (hlen : p.points < 2 ^ 31)
    (hrange : p.InRange cur) :
    setptAt s inp t = p.point cur (updatesBefore s inp t) ∧ updatesBefore s inp t ≤ p.points := by
  obtain ⟨⟨k, hcnt, hk, hlast, -, -⟩, hacc⟩ := h
  have h31 := last_lt p
  have hkeq : updatesBefore s inp t = k := by
    rw [← hacc.cnt, hcnt, BitVec.toNat_ofNat, Nat.mod_eq_of_lt (by omega)]
  rw [Params.last_eq hlen] at hk
  obtain ⟨hlo, hhi⟩ := hrange k hk
  refine ⟨?_, by omega⟩
  rw [setptAt, hlast, Params.level_eq hlen, hkeq, BitVec.toInt_ofInt,
    Int.bmod_eq_of_le (by omega) (by omega)]

/-- A clock of the run makes the step that is due, or none. -/
theorem Running.setptAt_succ (h : Running p cur s inp t) (h' : Running p cur s inp (t + 1))
    (hlen : p.points < 2 ^ 31) (hrange : p.InRange cur) :
    (updates (trace step s inp t) = true ∧ updatesBefore s inp t < p.points ∧
        setptAt s inp (t + 1) = setptAt s inp t + p.stepAt (updatesBefore s inp t)) ∨
      (updates (trace step s inp t) = false ∧ setptAt s inp (t + 1) = setptAt s inp t) := by
  obtain ⟨heq, -⟩ := h.setptAt_eq hlen hrange
  obtain ⟨heq', hle'⟩ := h'.setptAt_eq hlen hrange
  have hsucc := updatesBefore_succ s inp t
  rw [heq, heq']
  cases hu : updates (trace step s inp t) with
  | false =>
    rw [hu, Bool.toNat_false, Nat.add_zero (updatesBefore s inp t)] at hsucc
    exact .inr ⟨rfl, by rw [hsucc]⟩
  | true =>
    rw [hu, Bool.toNat_true] at hsucc
    exact .inl ⟨rfl, by omega, by rw [hsucc, Params.point_succ]⟩

/-- At the end of the run all updates have been made. -/
theorem Running.updatesBefore_eq (h : Running p cur s inp T) (hlen : p.points < 2 ^ 31)
    (hend : (trace step s inp T).state = .IDLE) : updatesBefore s inp T = p.points := by
  obtain ⟨⟨k, hcnt, -, -, -, hat⟩, hacc⟩ := h
  simp only [AtStep, hend] at hat
  have h31 := last_lt p
  rw [← hacc.cnt, hcnt, BitVec.toNat_ofNat, Nat.mod_eq_of_lt (by omega), hat, Params.last_eq hlen]

/-- At a tick and at the end of the run, all ticks before have been answered. -/
theorem Accounts.balanced (h : Accounts s inp t)
    (hticks : TicksApart 20 fun u => (inp u).tenkhz_trig)
    (hdue : (inp t).tenkhz_trig = true ∨ (trace step s inp t).state = .IDLE) :
    ticksBefore inp t = updatesBefore s inp t + changesBefore s inp t := by
  have hidle : busy (trace step s inp t).state = false := by
    rcases hdue with htick | hend
    · by_contra hb
      rw [h.no_tick hticks (by simpa using hb)] at htick
      exact Bool.false_ne_true htick
    · rw [hend]
      rfl
  rw [h.ticks, hidle]
  rfl

/-- A run with constant parameters follows the ramp: for lengths whose points can be counted, ticks
20 clocks apart and exact points in the range of the accumulator. -/
theorem smooth_linear_trajectory (p : Params) (cur new : BitVec 20) (s : Ramp) (inp : ℕ → In)
    (hs : Ready new s) (h : Undisturbed p cur new inp)
    (hticks : TicksApart 20 fun t => (inp t).tenkhz_trig) (hlen : p.points < 2 ^ 31)
    (hrange : p.InRange cur) : ∃ T, Trajectory p cur s inp T := by
  obtain ⟨T, hpos, hrun, hend, -⟩ := run_ends hs h
  have hrunning : ∀ t, 1 ≤ t → t ≤ T → Running p cur s inp t :=
    fun t h1 hT => running_of_before hs h hticks hrun h1 hT
  have hsucc := fun t (h0 : 0 < t) (hT : t < T) =>
    (hrunning t h0 (by omega)).setptAt_succ (hrunning (t + 1) (by omega) (by omega)) hlen hrange
  have hT := hrunning T hpos le_rfl
  have htotal := hT.updatesBefore_eq hlen hend
  refine ⟨T, hpos, hrun, hend, ?_, ?_, htotal, ?_, ?_, ?_, ?_, ?_, ?_, ?_, ?_⟩
  · intro t h0 htT hdue
    refine (hrunning t h0 htT).accounts.balanced hticks (hdue.imp_right ?_)
    rintro rfl
    exact hend
  · rw [← hT.accounts.sections, hend]
    rfl
  · rw [((hrunning 1 le_rfl hpos).setptAt_eq hlen hrange).1, updatesBefore_one hs.1, Params.point]
    simp
  · intro t h0 htT hu
    rcases hsucc t h0 htT with ⟨-, -, heq⟩ | ⟨hno, -⟩
    · exact heq
    · rw [hu] at hno
      exact absurd hno (by decide)
  · intro t h0 htT hu
    rcases hsucc t h0 htT with ⟨hyes, -⟩ | ⟨-, heq⟩
    · rw [hu] at hyes
      exact absurd hyes (by decide)
    · exact heq
  · rw [(hT.setptAt_eq hlen hrange).1, htotal, Params.point_points hlen]
  · exact fun t h1 h2 => rampout_eq _ h1 h2
  · intro hdy hpt t h0 htT
    rcases hsucc t h0 htT with ⟨-, hlt, heq⟩ | ⟨-, heq⟩
    · have := Params.stepAt_nonneg hdy hpt hlt
      omega
    · exact heq.ge
  · intro hdy hpt t h0 htT
    rcases hsucc t h0 htT with ⟨-, hlt, heq⟩ | ⟨-, heq⟩
    · have := Params.stepAt_nonpos hdy hpt hlt
      omega
    · exact heq.le
  · intro t h0 htT
    rcases hsucc t h0 htT with ⟨-, hlt, heq⟩ | ⟨-, heq⟩
    · rw [heq, add_sub_cancel_left]
      exact Params.abs_stepAt_le hlt
    · rw [heq, sub_self, abs_zero]
      exact (abs_nonneg _).trans (le_max_left _ _)

/-! A ramp over three points from code 0, in steps of 0, half a code and a quarter. -/

def shortParams : Params := ⟨1, 1, 0x800000000000, 0x400000000000⟩

def shortInputs (t : ℕ) : In := ⟨false, t % 20 = 0, 0, 0, 1, 1, 1, 0x800000000000, 0x400000000000⟩

def shortStart : Ramp := ⟨.IDLE, 0, 0, 0, 0, 0, 0, 0, false⟩

theorem short_trajectory : ∃ T, Trajectory shortParams 0 shortStart shortInputs T := by
  have hundisturbed : Undisturbed shortParams 0 1 shortInputs := by
    refine ⟨rfl, rfl, rfl, fun t => ⟨rfl, rfl, rfl, rfl, rfl⟩, fun t => ⟨20 * t, by omega, ?_⟩⟩
    simp [shortInputs]
  have hapart : TicksApart 20 fun t => (shortInputs t).tenkhz_trig := by
    intro t t' hlt ht ht'
    simp only [shortInputs, decide_eq_true_eq] at ht ht'
    omega
  refine smooth_linear_trajectory shortParams 0 1 shortStart shortInputs ⟨rfl, by decide⟩
    hundisturbed hapart (by decide) ?_
  have hall : ∀ k < 4, -2 ^ 95 ≤ shortParams.point 0 k ∧ shortParams.point 0 k < 2 ^ 95 := by
    decide +kernel
  intro k hk
  exact hall k (Nat.lt_succ_iff.mpr hk)

end Zpsc.SmoothLinear
