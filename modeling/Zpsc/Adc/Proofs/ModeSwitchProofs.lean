import Zpsc.Adc.ModeSwitch
import Zpsc.Adc.Proofs.AverageProofs

/-!
# Proofs: mode changes of the moving average

Since the last change of the mode all writes have had the same limit, so `ram_cnt` is the place that
it had then, moved on once for each write.
-/

namespace Zpsc.Average

open Clocked Window

variable {s : Regs} {i : In} {inp : ℕ → In} {t u v : ℕ}

/-! ## Counting -/

theorem countIn_self (p : ℕ → Bool) (t : ℕ) : countIn p t t = 0 := by
  rw [countIn, Finset.Ico_self]
  rfl

theorem countIn_succ (p : ℕ → Bool) (h : t ≤ u) :
    countIn p t (u + 1) = countIn p t u + if p u = true then 1 else 0 := by
  rw [countIn, ← Finset.insert_Ico_right_eq_Ico_add_one h, Finset.filter_insert]
  split
  · exact Finset.card_insert_of_notMem fun hmem =>
      Finset.right_notMem_Ico (Finset.mem_of_mem_filter u hmem)
  · rfl

theorem advance_zero (A r : ℕ) : advance A r 0 = r := by
  rw [advance, Nat.add_zero]
  split
  · exact Nat.mod_eq_of_lt (by omega)
  · rfl

theorem advance_succ (A r n : ℕ) :
    advance A r (n + 1) = if advance A r n = A then 0 else advance A r n + 1 := by
  unfold advance
  split
  · rw [← add_assoc, succ_mod]
  · rw [if_neg (by omega), add_assoc]

/-! ## One clock -/

theorem writes_iff : writes s inp t = true ↔
    (inp t).reset = false ∧ (regs s inp t).present_state = .WRITE_TO_RAM := by
  simp [writes]

theorem taken_iff : taken s inp t = true ↔
    (inp t).reset = false ∧ (regs s inp t).present_state = .IDLE ∧ (inp t).start = true ∧
      (regs s inp t).mode ≠ 0 := by
  simp [taken, and_assoc]

/-- `ram_cnt` moves on with a write only. -/
theorem ram_cnt_succ (s : Regs) (inp : ℕ → In) (t : ℕ) :
    (regs s inp (t + 1)).ram_cnt =
      if writes s inp t = true then
        if (regs s inp t).ram_cnt = (regs s inp t).addr_max then 0
        else (regs s inp t).ram_cnt + 1
      else (regs s inp t).ram_cnt := by
  rw [regs_succ, writes, step]
  generalize regs s inp t = s, inp t = i
  have hstorage := storage_step s i
  generalize storage s i = s' at hstorage ⊢
  cases hstorage with
  | reset hr => simp [hr]
  | idle _ hs => simp [hs]
  | through _ hs => simp [hs]
  | start _ hs => simp [hs]
  | wrap hr hs h => simp [hr, hs, h]
  | store hr hs h => simp [hr, hs, h]
  | last _ hs => simp [hs]
  | add _ hs => simp [hs]
  | finished _ hs => simp [hs]

/-- A write follows a start that has set the limit. -/
theorem write_after (h : (regs s inp (t + 1)).present_state = .WRITE_TO_RAM) :
    taken s inp t = true ∧ (regs s inp (t + 1)).addr_max = addrMax (regs s inp t).mode := by
  rw [taken_iff]
  rw [regs_succ, step] at h ⊢
  generalize regs s inp t = s, inp t = i at h ⊢
  have hstorage := storage_step s i
  generalize storage s i = s' at h hstorage ⊢
  cases hstorage with
  | reset => cases h
  | idle _ hs => exact State.noConfusion (hs.symm.trans h)
  | through => cases h
  | start hr hs hi hm => exact ⟨⟨hr, hs, hi, hm⟩, rfl⟩
  | wrap => cases h
  | store => cases h
  | last => cases h
  | add _ hs => exact State.noConfusion (hs.symm.trans h)
  | finished => cases h

theorem taken_write (h : taken s inp t = true) (hr : (inp (t + 1)).reset = false) :
    writes s inp (t + 1) = true := by
  obtain ⟨hr', hs, hstart, hm⟩ := taken_iff.mp h
  rw [writes_iff, regs_succ, step, storage_start hr' hs hstart hm]
  exact ⟨hr, rfl⟩

/-! ## Since the last change -/

theorem lastChange_le (s : Regs) (inp : ℕ → In) (t : ℕ) : lastChange s inp t ≤ t := by
  induction t with
  | zero => exact le_rfl
  | succ t ih =>
    rw [lastChange]
    split
    · exact ih.trans (Nat.le_succ t)
    · exact le_rfl

theorem mode_since (h : lastChange s inp t ≤ u) (hu : u ≤ t) :
    (regs s inp u).mode = (regs s inp t).mode := by
  induction t with
  | zero => rw [Nat.le_zero.mp hu]
  | succ t ih =>
    rw [lastChange] at h
    rcases Nat.le_succ_iff.mp hu with hle | rfl
    · split at h
      · next heq => rw [ih h hle, heq]
      · omega
    · rfl

/-- Since the mode has changed, each write has moved the place on. -/
theorem ram_cnt_since (hu : lastChange s inp t + 1 ≤ u) (hut : u ≤ t + 1) :
    (regs s inp u).ram_cnt =
      advance (addrMax (regs s inp t).mode) (regs s inp (lastChange s inp t + 1)).ram_cnt
        (countIn (writes s inp) (lastChange s inp t + 1) u) := by
  induction u, hu using Nat.le_induction with
  | base => rw [countIn_self, advance_zero]
  | succ u hu ih =>
    have hcnt := ih (by omega)
    rw [ram_cnt_succ, countIn_succ _ hu]
    split
    · next hw =>
      obtain ⟨w, rfl⟩ : ∃ w, u = w + 1 := ⟨u - 1, by omega⟩
      obtain ⟨-, hmax⟩ := write_after (writes_iff.mp hw).2
      have hmode : (regs s inp w).mode = (regs s inp t).mode := mode_since (by omega) (by omega)
      rw [hmax, hmode, hcnt, advance_succ]
    · exact hcnt

/-- What a start needs is what its write must do. -/
theorem startOk_iff (h : taken s inp t = true) (hr : (inp (t + 1)).reset = false) :
    StartOk s inp t ↔
      ((regs s inp (t + 1)).ram_cnt ≠ (regs s inp (t + 1)).addr_max →
        (regs s inp (t + 1)).ram_cnt < 500) ∧
      ((regs s inp (t + 1)).addr_max + 1 ≤ countIn (taken s inp) (lastChange s inp t) t →
        (regs s inp (t + 1)).ram_cnt < (regs s inp (t + 1)).addr_max) := by
  have hmax := (write_after (writes_iff.mp (taken_write h hr)).2).2
  have hcnt := ram_cnt_since (Nat.succ_le_succ (lastChange_le s inp t)) (le_refl (t + 1))
  have hle := addrMax_le (regs s inp t).mode
  rw [hmax, hcnt, StartOk, advance]
  generalize addrMax (regs s inp t).mode = A at hle
  generalize countIn (taken s inp) (lastChange s inp t) t = starts
  generalize countIn (writes s inp) (lastChange s inp t + 1) (t + 1) = stored
  generalize (regs s inp (lastChange s inp t + 1)).ram_cnt = r
  have hlt : (r + stored) % (A + 1) < A + 1 := Nat.mod_lt _ (by omega)
  split <;> omega

/-- The index of every write is in the RAM, and in range after `addr_max + 1` starts in one mode, if
and only if every start finds what it needs. -/
theorem inRange_iff (m : BitVec 2) (a : BitVec 32) (d : Bool) (inp : ℕ → In) :
    IndexOk (powerUp m a d) inp ∧ BackInRange (powerUp m a d) inp ↔
      ∀ t, taken (powerUp m a d) inp t = true → (inp (t + 1)).reset = false →
        StartOk (powerUp m a d) inp t := by
  constructor
  · rintro ⟨hindex, hback⟩ t ht hr
    exact (startOk_iff ht hr).mpr ⟨hindex (t + 1) (taken_write ht hr), hback t ht hr⟩
  · intro h
    constructor
    · intro t hw
      obtain ⟨hr, hs⟩ := writes_iff.mp hw
      cases t with
      | zero => cases hs
      | succ t =>
        have ht := (write_after hs).1
        exact ((startOk_iff ht hr).mp (h t ht hr)).1
    · exact fun t ht hr => ((startOk_iff ht hr).mp (h t ht hr)).2

/-! ## A limit that is lowered -/

/-- A start every three clocks, each followed by its write and a reset; after 301 starts in the mode
of 500 samples the mode is the one of 167. -/
def lowered (t : ℕ) : In where
  reset := t % 3 = 2
  start := t % 3 = 0
  data_in := 1
  sel := if t < 900 then 2 else 1

theorem lowered_mode (k : ℕ) :
    (regs (powerUp 2 0 false) lowered (3 * k)).mode = if k ≤ 300 then 2 else 1 := by
  cases k with
  | zero => rfl
  | succ k =>
    rw [show 3 * (k + 1) = 3 * k + 2 + 1 by omega, regs_succ]
    change (if 3 * k + 2 < 900 then (2 : BitVec 2) else 1) = _
    split <;> split <;> first | rfl | omega

/-- Each start moves `ram_cnt` on, also beyond the RAM. -/
theorem lowered_starts (k : ℕ) (hk : k ≤ 500) :
    (regs (powerUp 2 0 false) lowered (3 * k)).present_state = .IDLE ∧
      (regs (powerUp 2 0 false) lowered (3 * k)).ram_cnt = k := by
  induction k with
  | zero => exact ⟨rfl, rfl⟩
  | succ k ih =>
    obtain ⟨hs, hcnt⟩ := ih (by omega)
    have hstart : (lowered (3 * k)).start = true := decide_eq_true (by omega)
    have hr : ∀ j < 2, (lowered (3 * k + j)).reset = false := fun j hj =>
      decide_eq_false (by omega)
    have hreset : (lowered (3 * k + 2)).reset = true := decide_eq_true (by omega)
    have htaken : taken (powerUp 2 0 false) lowered (3 * k) = true := by
      rw [taken_iff, lowered_mode]
      refine ⟨hr 0 (by omega), hs, hstart, ?_⟩
      split <;> decide
    have hw := taken_write htaken (hr 1 (by omega))
    have hmax := (write_after (writes_iff.mp hw).2).2
    -- the place is not the limit of 500 at the first 301 starts, nor the one of 167 after them
    have hne : k ≠ addrMax (regs (powerUp 2 0 false) lowered (3 * k)).mode := by
      have h500 : addrMax 2 = 500 := rfl
      have h167 : addrMax 1 = 167 := rfl
      rw [lowered_mode]
      split <;> omega
    have hidle : writes (powerUp 2 0 false) lowered (3 * k) = false := by
      rw [writes, hs, Bool.and_eq_false_iff]
      exact .inr rfl
    have hcut : writes (powerUp 2 0 false) lowered (3 * k + 2) = false := by
      rw [writes, hreset]
      rfl
    rw [show 3 * (k + 1) = 3 * k + 2 + 1 by omega]
    constructor
    · rw [regs_succ, step, storage_reset hreset]
    · rw [ram_cnt_succ, hcut, if_neg Bool.false_ne_true, ram_cnt_succ, if_pos hw, hmax,
        ram_cnt_succ, hidle, if_neg Bool.false_ne_true, hcnt, if_neg hne]

/-- Start number 500 stores its sample beyond the RAM. -/
theorem lowered_not_inRange :
    ¬ (IndexOk (powerUp 2 0 false) lowered ∧ BackInRange (powerUp 2 0 false) lowered) := by
  rintro ⟨hindex, -⟩
  obtain ⟨hs, hcnt⟩ := lowered_starts 500 le_rfl
  have hmode := lowered_mode 500
  have htaken : taken (powerUp 2 0 false) lowered (3 * 500) = true := by
    rw [taken_iff, hmode]
    exact ⟨rfl, hs, rfl, by decide⟩
  have hw := taken_write htaken rfl
  have hidle : writes (powerUp 2 0 false) lowered (3 * 500) = false := by
    rw [writes, hs]
    rfl
  have hnext : (regs (powerUp 2 0 false) lowered (3 * 500 + 1)).ram_cnt = 500 := by
    rw [ram_cnt_succ, hidle, if_neg Bool.false_ne_true, hcnt]
  have h := hindex _ hw
  rw [hnext, (write_after (writes_iff.mp hw).2).2, hmode] at h
  exact absurd (h (by decide)) (lt_irrefl 500)

end Zpsc.Average
