import Mathlib.Data.BitVec
import Zpsc.Bits.Serial
import Zpsc.Timing.EventRcvTs

/-!
# Proofs: the time of day

From the third clock after a latch event on, the position goes down by one with each bit event, and
the bits that were sent stand above it. So the word is complete when the next latch event comes, and
from then on the offset counts the clocks.
-/

namespace Zpsc.EventRcvTs

open Bits Clocked

variable {ts : BitVec 64} {inp : ℕ → In} {start stop t u : ℕ} {sec : BitVec 32}

theorem regs_succ (t : ℕ) : regs ts inp (t + 1) = step (regs ts inp t) (inp t) := rfl

/-! ## The bits that were sent -/

theorem bitsIn_empty {a b : ℕ} (h : b ≤ a) : bitsIn inp a b = [] := by
  rw [bitsIn, Nat.sub_eq_zero_of_le h]
  rfl

theorem bitsIn_succ {a b : ℕ} (hab : a ≤ b) :
    bitsIn inp a (b + 1) = bitsIn inp a b ++ (bitOf (inp b).EventStream).toList := by
  rw [bitsIn, show b + 1 - a = b - a + 1 by omega, List.range'_concat, List.filterMap_append,
    show a + 1 * (b - a) = b by omega]
  cases h : bitOf (inp b).EventStream <;> simp [h, bitsIn]

theorem bitsIn_le (inp : ℕ → In) {a b c : ℕ} (hab : a ≤ b) (hbc : b ≤ c) :
    (bitsIn inp a b).length ≤ (bitsIn inp a c).length := by
  refine hold (P := fun v => (bitsIn inp a b).length ≤ (bitsIn inp a v).length) hbc ?_ le_rfl
  intro v hbv _ h
  rw [bitsIn_succ (hab.trans hbv), List.length_append]
  omega

theorem length_msbFirst (sec : BitVec 32) : (msbFirst sec).length = 32 := by
  rw [msbFirst, List.length_map, List.length_range]

theorem getLsbD_assign (x : BitVec 32) (k : ℕ) (b : Bool) {j : ℕ} (hj : j < 32) :
    (assign x k b).getLsbD j = if j = k then b else x.getLsbD j :=
  getLsbD_setBit x k b hj

/-! ## The position -/

/-- After the bits `bs` of a word: the next one goes below them. -/
structure Filled (bs : List Bool) (s : Regs) : Prop where
  clear : s.clear = false
  clear_reg : s.clear_reg = false
  pos : s.pos = 31 - BitVec.ofNat 5 bs.length
  seconds_tmp : ∀ j, (hj : j < bs.length) → s.seconds_tmp.getLsbD (31 - j) = bs[j]

/-- The place of bit number `n`. -/
theorem toNat_pos {n : ℕ} (hn : n < 32) : (31 - BitVec.ofNat 5 n).toNat = 31 - n := by
  rw [BitVec.toNat_sub, BitVec.toNat_ofNat]
  change (2 ^ 5 - n % 2 ^ 5 + 31) % 2 ^ 5 = 31 - n
  omega

theorem pos_succ (n : ℕ) : 31 - BitVec.ofNat 5 n - 1 = 31 - BitVec.ofNat 5 (n + 1) := by
  rw [← BitVec.ofNat_add_ofNat, sub_sub]
  rfl

theorem Filled.step {bs : List Bool} {s : Regs} {i : In} (h : Filled bs s)
    (hr : i.Reset = false) (hlatch : i.EventStream ≠ latchEvent)
    (hlen : (bs ++ (bitOf i.EventStream).toList).length ≤ 32) :
    Filled (bs ++ (bitOf i.EventStream).toList) (step s i) := by
  have hclear : (i.Reset || s.clear_reg) = false := by rw [hr, h.clear_reg, Bool.or_false]
  cases hbit : bitOf i.EventStream with
  | none =>
    rw [Option.toList_none, List.append_nil]
    refine ⟨decide_eq_false hlatch, h.clear, ?_, ?_⟩
    · simp only [EventRcvTs.step, if_neg hlatch, hbit]
      exact h.pos
    · intro j hj
      simp only [EventRcvTs.step, hclear, hbit]
      exact h.seconds_tmp j hj
  | some b =>
    rw [hbit, Option.toList_some, List.length_append, List.length_singleton] at hlen
    rw [Option.toList_some]
    refine ⟨decide_eq_false hlatch, h.clear, ?_, ?_⟩
    · simp only [EventRcvTs.step, if_neg hlatch, hbit, Option.isSome_some, if_true]
      rw [h.pos, pos_succ, List.length_append, List.length_singleton]
    · intro j hj
      rw [List.length_append, List.length_singleton] at hj
      simp only [EventRcvTs.step, hclear, hbit, Bool.false_eq_true, if_false]
      rw [getLsbD_assign _ _ _ (by omega), h.pos, toNat_pos (by omega)]
      rcases Nat.lt_succ_iff_lt_or_eq.mp hj with hlt | rfl
      · rw [if_neg (by omega), h.seconds_tmp j hlt, List.getElem_append_left]
      · rw [if_pos rfl, List.getElem_append_right le_rfl]
        simp

/-- The registers are ready for the first bit two clocks after a latch event, and at the start. -/
theorem filled_start (ts : BitVec 64) (h : Sent inp start stop sec) :
    ∃ a, start ≤ a ∧ a ≤ stop ∧ bitsIn inp start a = [] ∧ Filled [] (regs ts inp a) := by
  have hlen : (bitsIn inp start stop).length = 32 := by rw [h.bits, length_msbFirst]
  rcases h.begins with rfl | ⟨hpos, hlatch, hnone0, hnone1⟩
  · exact ⟨0, le_rfl, Nat.zero_le _, bitsIn_empty le_rfl, rfl, rfl, rfl,
      fun j hj => absurd hj (Nat.not_lt_zero j)⟩
  · obtain ⟨w, rfl⟩ := Nat.exists_eq_add_of_le' hpos
    have hempty : bitsIn inp (w + 1) (w + 3) = [] := by
      rw [bitsIn_succ (by omega), bitsIn_succ le_rfl, bitsIn_empty le_rfl, hnone0, hnone1]
      rfl
    -- the word does not end before its first bit
    have hstop : w + 3 ≤ stop := by
      by_contra hlt
      rcases Nat.lt_or_ge stop (w + 1) with hbefore | hafter
      · rw [bitsIn_empty hbefore.le] at hlen
        exact absurd hlen (by decide)
      · have hle := bitsIn_le inp hafter (show stop ≤ w + 3 by omega)
        rw [hlen, hempty] at hle
        exact absurd hle (by decide)
    have hno0 := h.no_latch (w + 1) le_rfl (by omega)
    have hno1 := h.no_latch (w + 2) (by omega) (by omega)
    have h1 : (regs ts inp (w + 1)).pos = 31 := if_pos hlatch
    have h2 : (regs ts inp (w + 2)).pos = 31 := by
      rw [regs_succ]
      simp only [EventRcvTs.step, if_neg hno0, hnone0, Option.isSome_none, Bool.false_eq_true,
        if_false, h1]
    have h3 : (regs ts inp (w + 3)).pos = 31 := by
      rw [regs_succ]
      simp only [EventRcvTs.step, if_neg hno1, hnone1, Option.isSome_none, Bool.false_eq_true,
        if_false, h2]
    exact ⟨w + 3, by omega, hstop, hempty, decide_eq_false hno1, decide_eq_false hno0, h3,
      fun j hj => absurd hj (Nat.not_lt_zero j)⟩

/-- The bits that have been sent are in place. -/
theorem filled (h : Sent inp start stop sec) (hreset : ∀ u, start ≤ u → (inp u).Reset = false) :
    Filled (msbFirst sec) (regs ts inp stop) := by
  have hlen : (bitsIn inp start stop).length = 32 := by rw [h.bits, length_msbFirst]
  obtain ⟨a, hsa, hast, hempty, hfilled⟩ := filled_start ts h
  have hall := hold (P := fun v => Filled (bitsIn inp start v) (regs ts inp v)) hast
    (fun v hav hv hfill => by
      have hsv := hsa.trans hav
      have hle := bitsIn_le inp (hsv.trans (Nat.le_succ v)) hv
      rw [bitsIn_succ hsv] at hle ⊢
      exact hfill.step (hreset v hsv) (h.no_latch v hsv hv) (hlen ▸ hle))
    (hempty ▸ hfilled)
  rwa [h.bits] at hall

theorem seconds_tmp_eq {s : Regs} (h : Filled (msbFirst sec) s) : s.seconds_tmp = sec := by
  apply BitVec.eq_of_getLsbD_eq
  intro j hj
  have hbit := h.seconds_tmp (31 - j) (by rw [length_msbFirst]; omega)
  rw [show 31 - (31 - j) = j by omega] at hbit
  rw [hbit]
  simp [msbFirst, show 31 - (31 - j) = j by omega]

/-! ## The time stamp -/

/-- Between latch events the seconds stay and the offset counts. -/
theorem after_latch (ts : BitVec 64) (hlatch : (inp stop).EventStream = latchEvent)
    (ht : stop < t) (hno : ∀ u, stop < u → u < t → (inp u).EventStream ≠ latchEvent) :
    (regs ts inp t).secondsReg = (regs ts inp stop).seconds_tmp ∧
      (regs ts inp t).offsetReg = BitVec.ofNat 32 (t - stop - 1) := by
  refine hold (P := fun v => (regs ts inp v).secondsReg = (regs ts inp stop).seconds_tmp ∧
    (regs ts inp v).offsetReg = BitVec.ofNat 32 (v - stop - 1)) (Nat.succ_le_of_lt ht) ?_ ?_
  · rintro v hv hvt ⟨hsec, hoff⟩
    have hne := hno v hv hvt
    rw [regs_succ]
    simp only [EventRcvTs.step, if_neg hne, hsec, hoff, true_and]
    rw [show v + 1 - stop - 1 = v - stop - 1 + 1 by omega, ← BitVec.ofNat_add_ofNat]
    rfl
  · rw [regs_succ, show stop + 1 - stop - 1 = 0 by omega]
    exact ⟨if_pos hlatch, if_pos hlatch⟩

/-- From two clocks after a latch event until the next one takes effect, the time stamp is the word
that was sent before it and the number of clocks since. -/
theorem timeStamp_eq (h : Sent inp start stop sec)
    (hreset : ∀ u, start ≤ u → (inp u).Reset = false) (ht : stop + 2 ≤ t)
    (hno : ∀ u, stop < u → u + 2 ≤ t → (inp u).EventStream ≠ latchEvent) :
    (regs ts inp t).TimeStamp = sec ++ BitVec.ofNat 32 (t - stop - 2) := by
  obtain ⟨v, rfl⟩ : ∃ v, t = v + 1 := ⟨t - 1, by omega⟩
  obtain ⟨a, hsa, hast, -⟩ := filled_start ts h
  obtain ⟨hsec, hoff⟩ := after_latch ts h.latch (show stop < v by omega)
    fun u hu huv => hno u hu (by omega)
  rw [regs_succ]
  simp only [EventRcvTs.step, hreset v (by omega), Bool.false_eq_true, if_false]
  rw [hsec, hoff, seconds_tmp_eq (filled h hreset), show v + 1 - stop - 2 = v - stop - 1 by omega]

/-! ## A second -/

/-- A latch event, two clocks without a bit event, the bits of 0x68A1B2C3 one after the other, and
the next latch event. -/
def oneSecond (u : ℕ) : In where
  Reset := false
  EventStream :=
    if u = 0 ∨ u = 35 then latchEvent
    else if 3 ≤ u ∧ u < 35 then
      if (0x68A1B2C3 : BitVec 32).getLsbD (34 - u) then 0x71 else 0x70
    else 0

theorem oneSecond_quiet {u : ℕ} (hu : u ≠ 0) (hu' : u ≠ 35) :
    (oneSecond u).EventStream ≠ latchEvent := by
  simp only [oneSecond, if_neg (not_or.mpr ⟨hu, hu'⟩)]
  split_ifs <;> decide

theorem oneSecond_sent : Sent oneSecond 1 35 0x68A1B2C3 where
  begins := .inr ⟨by decide, rfl, rfl, rfl⟩
  bits := by decide
  no_latch := fun _ hu hlt => oneSecond_quiet (by omega) (by omega)
  latch := rfl

/-- A thousand clocks after the second was latched. -/
theorem oneSecond_timeStamp :
    (regs 0 oneSecond 1037).TimeStamp = (0x68A1B2C3 : BitVec 32) ++ (1000 : BitVec 32) :=
  timeStamp_eq oneSecond_sent (fun _ _ => rfl) (by decide)
    fun _ hu _ => oneSecond_quiet (by omega) (by omega)

end Zpsc.EventRcvTs
