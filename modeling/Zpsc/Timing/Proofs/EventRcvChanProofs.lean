import Zpsc.Timing.EventRcvChan

/-!
# Proofs: the pulses of an event channel

Both machines are followed by the number of clocks since the last matching event. The VHDL entity
ends its delay one clock later than the Verilog module, and its pulse two clocks later.
-/

namespace Zpsc.EventRcvChan

open Clocked

variable {c : Conf} {s s' : Regs} {i : In} {inp : ℕ → In} {n t : ℕ}

/-- The registers `n + 1` clocks after the last matching event. -/
def phase (c : Conf) (n : ℕ) : Regs :=
  let D := c.myDelay.toNat
  let W := c.myWidth.toNat
  { delayCounter := if n ≤ D + 1 then BitVec.ofNat 32 n else 0
    widthCounter :=
      if D + 1 < 2 ^ 32 ∧ D + 2 ≤ n ∧ n ≤ D + W + 3 then BitVec.ofNat 32 (n - (D + 2)) else 0
    startDelay := n ≤ D
    startWidth := D + 1 < 2 ^ 32 ∧ D + 2 ≤ n ∧ n ≤ D + W + 2 }

/-- The registers of the Verilog module `n + 1` clocks after the last matching event. -/
def phaseVerilog (c : Conf) (n : ℕ) : Regs :=
  let D := c.myDelay.toNat
  let W := c.myWidth.toNat
  { delayCounter := if n ≤ D then BitVec.ofNat 32 n else 0
    widthCounter := if D + 1 ≤ n ∧ n ≤ D + W + 1 then BitVec.ofNat 32 (n - (D + 1)) else 0
    startDelay := n < D
    startWidth := D + 1 ≤ n ∧ n ≤ D + W }

theorem phase_reset (hn : c.myDelay.toNat + c.myWidth.toNat + 4 ≤ n) :
    phase c n = ⟨0, 0, false, false⟩ := by
  simp only [phase, Regs.mk.injEq]
  refine ⟨if_neg (by omega), if_neg (by omega), decide_eq_false (by omega),
    decide_eq_false (by omega)⟩

theorem phaseVerilog_reset (hn : c.myDelay.toNat + c.myWidth.toNat + 4 ≤ n) :
    phaseVerilog c n = ⟨0, 0, false, false⟩ := by
  simp only [phaseVerilog, Regs.mk.injEq]
  refine ⟨if_neg (by omega), if_neg (by omega), decide_eq_false (by omega),
    decide_eq_false (by omega)⟩

theorem toNat_pos {x : BitVec 32} (h : x ≠ 0) : 0 < x.toNat := by
  rcases Nat.eq_zero_or_pos x.toNat with h0 | hpos
  · exact absurd (BitVec.eq_of_toNat_eq h0) h
  · exact hpos

/-! ## One clock -/

theorem step_phase (hD : c.myDelay ≠ 0) (hW : c.myWidth ≠ 0) (hr : i.Reset = false)
    (he : c.myEvent ≠ i.eventStream) (n : ℕ) : step c (phase c n) i = phase c (n + 1) := by
  have hD := toNat_pos hD
  have hW := toNat_pos hW
  have hDlt := c.myDelay.isLt
  have hWlt := c.myWidth.isLt
  simp only [step, phase, hr, he, Bool.false_eq_true, if_false, Regs.mk.injEq, BitVec.le_def,
    BitVec.lt_def, decide_eq_true_eq]
  refine ⟨?_, ?_, ?_, ?_⟩
  · apply BitVec.eq_of_toNat_eq
    simp only [apply_ite BitVec.toNat, BitVec.toNat_add, BitVec.ofNat_eq_ofNat, BitVec.toNat_ofNat]
    split_ifs <;> omega
  · apply BitVec.eq_of_toNat_eq
    simp only [apply_ite BitVec.toNat, BitVec.toNat_add, BitVec.ofNat_eq_ofNat, BitVec.toNat_ofNat]
    split_ifs <;> omega
  · rw [Bool.eq_iff_iff]
    simp only [apply_ite BitVec.toNat, BitVec.ofNat_eq_ofNat, BitVec.toNat_ofNat]
    split_ifs
    all_goals
      simp only [decide_eq_true_eq, false_iff]
      omega
  · rw [Bool.eq_iff_iff]
    simp only [apply_ite BitVec.toNat, BitVec.ofNat_eq_ofNat, BitVec.toNat_ofNat]
    split_ifs
    all_goals
      simp only [decide_eq_true_eq, false_iff, true_iff]
      omega

theorem step_phaseVerilog (hD : c.myDelay ≠ 0) (hW : c.myWidth ≠ 0) (hr : i.Reset = false)
    (he : c.myEvent ≠ i.eventStream) (n : ℕ) :
    EventReceiverChannel.step c (phaseVerilog c n) i = phaseVerilog c (n + 1) := by
  have hD := toNat_pos hD
  have hW := toNat_pos hW
  have hDlt := c.myDelay.isLt
  have hWlt := c.myWidth.isLt
  simp only [EventReceiverChannel.step, phaseVerilog, hr, he, Bool.false_eq_true, if_false,
    Regs.mk.injEq, BitVec.le_def, ← BitVec.toNat_inj, decide_eq_true_eq]
  have hsub : ∀ x : BitVec 32, 0 < x.toNat → (x - 1#32).toNat = x.toNat - 1 := by
    intro x hx
    have hlt := x.isLt
    rw [BitVec.toNat_sub, BitVec.toNat_ofNat]
    omega
  refine ⟨?_, ?_, ?_, ?_⟩
  · simp only [apply_ite BitVec.toNat, BitVec.toNat_add, BitVec.ofNat_eq_ofNat, BitVec.toNat_ofNat]
    split_ifs <;> omega
  · simp only [apply_ite BitVec.toNat, BitVec.toNat_add, BitVec.ofNat_eq_ofNat, BitVec.toNat_ofNat]
    split_ifs <;> omega
  · rw [Bool.eq_iff_iff]
    simp only [apply_ite BitVec.toNat, BitVec.ofNat_eq_ofNat, BitVec.toNat_ofNat, hsub _ hD]
    split_ifs
    all_goals
      simp only [decide_eq_true_eq, false_iff]
      omega
  · rw [Bool.eq_iff_iff]
    simp only [apply_ite BitVec.toNat, BitVec.ofNat_eq_ofNat, BitVec.toNat_ofNat, hsub _ hW]
    split_ifs
    all_goals
      simp only [decide_eq_true_eq, false_iff, true_iff]
      omega

/-- A clock with an event, when the pulse of the one before is over. -/
theorem step_event (hr : i.Reset = false) (he : c.myEvent = i.eventStream)
    (hD : c.myDelay ≠ 0) (hn : c.myDelay.toNat + c.myWidth.toNat + 4 ≤ n) :
    step c (phase c n) i = phase c 0 ∧
      EventReceiverChannel.step c (phaseVerilog c n) i = phaseVerilog c 0 := by
  have hDpos := toNat_pos hD
  rw [phase_reset hn, phaseVerilog_reset hn]
  constructor
  · simp [step, phase, hr, he]
  · simp only [EventReceiverChannel.step, phaseVerilog, hr, he, Ne.symm hD, hDpos]
    simp

/-- `trigger` is the same function in both. -/
theorem trigger_eq (hD : c.myDelay ≠ 0) (hW : c.myWidth ≠ 0) (s : Regs) :
    trigger c s = (c.myPolarity ^^ s.startWidth) := by
  rw [trigger, if_pos ⟨hD, hW⟩]
  cases c.myPolarity with
  | true => exact (Bool.true_xor _).symm
  | false => exact (Bool.false_xor _).symm

/-! ## A run -/

/-- The number of clocks since the last matching event, or enough of them. -/
def since (c : Conf) (inp : ℕ → In) (t : ℕ) : ℕ :=
  sinceTick (c.myDelay.toNat + c.myWidth.toNat + 7) (matching c inp) t

theorem since_succ (c : Conf) (inp : ℕ → In) (t : ℕ) :
    since c inp (t + 1) = if matching c inp t = true then 0 else since c inp t + 1 := rfl

theorem matching_iff : matching c inp t = true ↔
    (inp t).Reset = false ∧ c.myEvent = (inp t).eventStream := by
  simp [matching]

section Run

variable (hD : c.myDelay ≠ 0) (hW : c.myWidth ≠ 0) (hreset : ResetFirst inp)
  (hapart : TicksApart (c.myDelay.toNat + c.myWidth.toNat + 7) (matching c inp))

include hD hW hreset hapart

theorem trace_phase (s s' : Regs) (t : ℕ) :
    trace (step c) s inp (t + 1) = phase c (since c inp (t + 1)) ∧
      trace (EventReceiverChannel.step c) s' inp (t + 1) =
        phaseVerilog c (since c inp (t + 1)) := by
  induction t with
  | zero =>
    have hno : matching c inp 0 = false := by
      rw [matching, hreset.1]
      rfl
    have hsince : since c inp 1 = c.myDelay.toNat + c.myWidth.toNat + 7 + 1 := by
      rw [since_succ, hno]
      rfl
    rw [hsince, phase_reset (by omega), phaseVerilog_reset (by omega)]
    constructor
    · rw [trace_succ, step, hreset.1]
      rfl
    · rw [trace_succ, EventReceiverChannel.step, hreset.1]
      rfl
  | succ t ih =>
    obtain ⟨h, h'⟩ := ih
    have hr := hreset.2 (t + 1) t.succ_pos
    rw [trace_succ, h, trace_succ, h', since_succ c inp (t + 1)]
    by_cases hm : matching c inp (t + 1) = true
    · have hle := le_sinceTick hapart hm
      rw [if_pos hm]
      exact step_event hr (matching_iff.mp hm).2 hD (by rw [since]; omega)
    · rw [if_neg hm]
      have he : c.myEvent ≠ (inp (t + 1)).eventStream := fun he =>
        hm (matching_iff.mpr ⟨hr, he⟩)
      exact ⟨step_phase hD hW hr he _, step_phaseVerilog hD hW hr he _⟩

theorem out_phase (s s' : Regs) (t : ℕ) :
    out c s inp (t + 1) = (c.myPolarity ^^ (phase c (since c inp (t + 1))).startWidth) ∧
      outVerilog c s' inp (t + 1) =
        (c.myPolarity ^^ (phaseVerilog c (since c inp (t + 1))).startWidth) := by
  obtain ⟨h, h'⟩ := trace_phase hD hW hreset hapart s s' t
  rw [out, h, outVerilog, h']
  exact ⟨trigger_eq hD hW _, trigger_eq hD hW _⟩

/-- The Verilog pulse has started and the VHDL one has not. -/
theorem out_ne (s s' : Regs) (ht : matching c inp t = true) :
    out c s inp (t + c.myDelay.toNat + 2) ≠ outVerilog c s' inp (t + c.myDelay.toNat + 2) := by
  obtain ⟨h, h'⟩ := out_phase hD hW hreset hapart s s' (t + c.myDelay.toNat + 1)
  have hsince : since c inp (t + c.myDelay.toNat + 2) = c.myDelay.toNat + 1 := by
    rw [show t + c.myDelay.toNat + 2 = t + 1 + (c.myDelay.toNat + 1) by omega]
    exact sinceTick_after hapart ht (by omega)
  have hWpos := toNat_pos hW
  rw [h, h', hsince]
  have hlate : (phase c (c.myDelay.toNat + 1)).startWidth = false :=
    decide_eq_false (by omega)
  have hearly : (phaseVerilog c (c.myDelay.toNat + 1)).startWidth = true :=
    decide_eq_true (by omega)
  rw [hlate, hearly]
  cases c.myPolarity <;> decide

/-- Without an event nothing happens. -/
theorem out_quiet (s s' : Regs) (hnone : ∀ t, matching c inp t = false) (t : ℕ) :
    out c s inp (t + 1) = c.myPolarity ∧ outVerilog c s' inp (t + 1) = c.myPolarity := by
  obtain ⟨h, h'⟩ := out_phase hD hW hreset hapart s s' t
  have hle : c.myDelay.toNat + c.myWidth.toNat + 7 ≤ since c inp (t + 1) :=
    le_sinceTick_of_none fun u _ => hnone u
  rw [h, h', phase_reset (by omega), phaseVerilog_reset (by omega)]
  exact ⟨Bool.xor_false _, Bool.xor_false _⟩

/-- The pulses are as intended, and those of the Verilog module, if and only if there are none. -/
theorem asPorted_iff (s s' : Regs) :
    AsPorted c inp s s' ↔ ∀ t, matching c inp t = false := by
  constructor
  · rintro ⟨-, hsame⟩ t
    by_contra hm
    rw [Bool.not_eq_false] at hm
    exact out_ne hD hW hreset hapart s s' hm (hsame _ (by omega))
  · intro hnone
    have hquiet := out_quiet hD hW hreset hapart s s' hnone
    have hstart : ∀ a, ¬ PulseStarts c (out c s inp) a := by
      rintro a ⟨ha, -, hact⟩
      obtain ⟨t, rfl⟩ := Nat.exists_eq_add_of_lt ha
      exact hact (hquiet _).1
    refine ⟨⟨?_, ?_, ?_⟩, ?_⟩
    · intro t ht
      rw [hnone t] at ht
      cases ht
    · exact fun a ha => absurd ha (hstart a)
    · exact fun a ha => absurd ha (hstart a)
    · intro t ht
      obtain ⟨u, rfl⟩ := Nat.exists_eq_add_of_le' ht
      rw [(hquiet u).1, (hquiet u).2]

end Run

/-! ## One event -/

/-- A delay and a width of 1. -/
def shortest : Conf := ⟨0x2A, 1, 1, false⟩

/-- A reset, then the event `ev` at clock 1 and no other. -/
def once (ev : Bits.Byte) (t : ℕ) : In := ⟨t = 0, if t = 1 then ev else 0⟩

theorem once_reset (ev : Bits.Byte) : ResetFirst (once ev) :=
  ⟨rfl, fun _ ht => decide_eq_false (by omega)⟩

theorem once_apart (ev : Bits.Byte) (n : ℕ) : TicksApart n (matching shortest (once ev)) := by
  have hone : ∀ t, matching shortest (once ev) t = true → t = 1 := by
    intro t ht
    obtain ⟨-, he⟩ := matching_iff.mp ht
    by_contra hne
    rw [once, if_neg hne] at he
    exact absurd he (show (0x2A : Bits.Byte) ≠ 0 by decide)
  intro t t' htt' ht ht'
  rw [hone t ht, hone t' ht'] at htt'
  omega

/-- An event that does not match. -/
theorem once_other : AsPorted shortest (once 0x2B) ⟨7, 0, true, false⟩ ⟨0, 3, false, true⟩ := by
  rw [asPorted_iff (by decide) (by decide) (once_reset _) (once_apart _ _)]
  intro t
  by_cases ht : t = 1
  · rw [ht]
    decide
  · simp [matching, once, ht, shortest]

/-- The pulse of one clock is two clocks long and starts one clock after the Verilog one. -/
theorem once_late :
    TicksApart 9 (matching shortest (once 0x2A)) ∧
      ¬ AsPorted shortest (once 0x2A) ⟨0, 0, false, false⟩ ⟨0, 0, false, false⟩ ∧
      ¬ OnePulse shortest (once 0x2A) (out shortest ⟨0, 0, false, false⟩ (once 0x2A)) := by
  refine ⟨once_apart _ _, ?_, ?_⟩
  · rintro ⟨-, hsame⟩
    exact absurd (hsame 4 (by decide)) (by decide)
  · intro h
    exact absurd (h.width 5 ⟨by decide, by decide, by decide⟩).2 (by decide)

end Zpsc.EventRcvChan
