import Zpsc.Net.PscData

/-!
# The periodic data is sent on time

The code compares wrapped ticks; the time of the last fast and of the last slow poll, without the
wrap, is what it goes by (`Follows`), as neither is ever so long ago that the difference wraps.
-/

namespace Zpsc.PscData

open Clocked

variable {ticks : BitVec 32 → BitVec 32} {polarity : BitVec 32} {start G : ℕ} {now : ℕ → ℕ} {k : ℕ}

/-- The difference of two ticks that are not too far apart. -/
theorem toNat_tick_sub {a b : ℕ} (hba : b ≤ a) (hlt : a - b < 2 ^ 32) :
    (BitVec.ofNat 32 a - BitVec.ofNat 32 b).toNat = a - b := by
  rw [BitVec.toNat_sub, BitVec.toNat_ofNat, BitVec.toNat_ofNat]
  omega

/-- The polls that call `x`. -/
def calls (ticks : BitVec 32 → BitVec 32) (polarity : BitVec 32) (start : ℕ) (now : ℕ → ℕ)
    (x : Sender) (k : ℕ) : Bool :=
  x ∈ sent ticks polarity start now k

def lastFast (ticks : BitVec 32 → BitVec 32) (polarity : BitVec 32) (start : ℕ) (now : ℕ → ℕ)
    (k : ℕ) : ℕ :=
  lastTime start now (calls ticks polarity start now .sadata_send) k

def lastSlow (ticks : BitVec 32 → BitVec 32) (polarity : BitVec 32) (start : ℕ) (now : ℕ → ℕ)
    (k : ℕ) : ℕ :=
  lastTime start now (calls ticks polarity start now .lstats_send) k

/-! ## One poll -/

/-- What a poll does `a` ticks after the last fast and `b` after the last slow one. -/
theorem poll_eq {s : State} {n : BitVec 32} {a b : ℕ} (ha : (n - s.last_fast).toNat = a)
    (hb : (n - s.last_slow).toNat = b) :
    pscdata_poll ticks s n =
      if a < fastTicks ticks then (s, [])
      else if slowTicks ticks ≤ b then
        ({ s with last_fast := n, last_slow := n },
          [.sadata_send, .lstats_send] ++ (if s.bpc_enabled then [.bpc_send] else []) ++
            [.snapshot_process])
      else ({ s with last_fast := n }, [.sadata_send, .snapshot_process]) := by
  subst ha hb
  rfl

/-! ## Runs -/

/-- The registers hold the times of the last polls, none of which is too long ago. -/
structure Follows (ticks : BitVec 32 → BitVec 32) (polarity : BitVec 32) (start G : ℕ)
    (now : ℕ → ℕ) (k : ℕ) : Prop where
  fast : (state ticks polarity start now k).last_fast =
    BitVec.ofNat 32 (lastFast ticks polarity start now k)
  slow : (state ticks polarity start now k).last_slow =
    BitVec.ofNat 32 (lastSlow ticks polarity start now k)
  bpc : (state ticks polarity start now k).bpc_enabled = decide (polarity = 0)
  fast_le : lastFast ticks polarity start now k ≤ now k
  now_le : now k ≤ lastFast ticks polarity start now k + fastTicks ticks + G
  slow_le : lastSlow ticks polarity start now k ≤ lastFast ticks polarity start now k
  le_slow : lastFast ticks polarity start now k ≤
    lastSlow ticks polarity start now k + slowTicks ticks

section Polls

variable (h : Polled ticks start now G)
include h

/-- The calls of a poll by the times of the last ones. -/
theorem Follows.poll (hk : Follows ticks polarity start G now k) :
    pscdata_poll ticks (state ticks polarity start now k) (BitVec.ofNat 32 (now k)) =
      if now k < lastFast ticks polarity start now k + fastTicks ticks then
        (state ticks polarity start now k, [])
      else if lastSlow ticks polarity start now k + slowTicks ticks ≤ now k then
        ({ state ticks polarity start now k with
            last_fast := BitVec.ofNat 32 (now k), last_slow := BitVec.ofNat 32 (now k) },
          [.sadata_send, .lstats_send] ++
              (if (state ticks polarity start now k).bpc_enabled then [.bpc_send] else []) ++
            [.snapshot_process])
      else
        ({ state ticks polarity start now k with last_fast := BitVec.ofNat 32 (now k) },
          [.sadata_send, .snapshot_process]) := by
  have hfits := h.fits
  have hfast := hk.fast_le
  have hnow := hk.now_le
  have hslow := hk.slow_le
  have hle := hk.le_slow
  have ha : (BitVec.ofNat 32 (now k) - (state ticks polarity start now k).last_fast).toNat =
      now k - lastFast ticks polarity start now k := by
    rw [hk.fast]
    exact toNat_tick_sub hfast (by omega)
  have hb : (BitVec.ofNat 32 (now k) - (state ticks polarity start now k).last_slow).toNat =
      now k - lastSlow ticks polarity start now k := by
    rw [hk.slow]
    exact toNat_tick_sub (hslow.trans hfast) (by omega)
  have hfast_iff : now k - lastFast ticks polarity start now k < fastTicks ticks ↔
      now k < lastFast ticks polarity start now k + fastTicks ticks := by
    omega
  have hslow_iff : slowTicks ticks ≤ now k - lastSlow ticks polarity start now k ↔
      lastSlow ticks polarity start now k + slowTicks ticks ≤ now k := by
    omega
  rw [poll_eq ha hb]
  simp only [hfast_iff, hslow_iff]

/-- The calls of a poll. -/
theorem Follows.sent_eq (hk : Follows ticks polarity start G now k) :
    sent ticks polarity start now k =
      if now k < lastFast ticks polarity start now k + fastTicks ticks then []
      else if lastSlow ticks polarity start now k + slowTicks ticks ≤ now k then
        [.sadata_send, .lstats_send] ++ (if polarity = 0 then [.bpc_send] else []) ++
          [.snapshot_process]
      else [.sadata_send, .snapshot_process] := by
  rw [sent, hk.poll h, hk.bpc]
  simp only [decide_eq_true_eq]
  split_ifs <;> rfl

theorem Follows.calls_fast (hk : Follows ticks polarity start G now k) :
    calls ticks polarity start now .sadata_send k = true ↔
      lastFast ticks polarity start now k + fastTicks ticks ≤ now k := by
  rw [calls, decide_eq_true_eq, hk.sent_eq h]
  split_ifs <;> simp <;> omega

theorem Follows.calls_slow (hk : Follows ticks polarity start G now k) :
    calls ticks polarity start now .lstats_send k = true ↔
      lastFast ticks polarity start now k + fastTicks ticks ≤ now k ∧
        lastSlow ticks polarity start now k + slowTicks ticks ≤ now k := by
  rw [calls, decide_eq_true_eq, hk.sent_eq h]
  split_ifs <;> simp <;> omega

theorem Follows.lastFast_succ (hk : Follows ticks polarity start G now k) :
    lastFast ticks polarity start now (k + 1) =
      if lastFast ticks polarity start now k + fastTicks ticks ≤ now k then now k
      else lastFast ticks polarity start now k := by
  rw [lastFast, lastTime]
  simp only [hk.calls_fast h]
  rfl

theorem Follows.lastSlow_succ (hk : Follows ticks polarity start G now k) :
    lastSlow ticks polarity start now (k + 1) =
      if lastFast ticks polarity start now k + fastTicks ticks ≤ now k ∧
          lastSlow ticks polarity start now k + slowTicks ticks ≤ now k then now k
      else lastSlow ticks polarity start now k := by
  rw [lastSlow, lastTime]
  simp only [hk.calls_slow h]
  rfl

theorem Follows.succ (hk : Follows ticks polarity start G now k) :
    Follows ticks polarity start G now (k + 1) := by
  have hmono := h.mono k
  have hgap := h.gap k
  have hstate : state ticks polarity start now (k + 1) =
      (pscdata_poll ticks (state ticks polarity start now k) (BitVec.ofNat 32 (now k))).1 := rfl
  have hfast := hk.lastFast_succ h
  have hslow := hk.lastSlow_succ h
  rw [hk.poll h] at hstate
  obtain ⟨hf, hs, hb, hfast_le, hnow_le, hslow_le, hle_slow⟩ := hk
  by_cases hquiet : now k < lastFast ticks polarity start now k + fastTicks ticks
  · rw [if_pos hquiet] at hstate
    rw [if_neg (by omega)] at hfast
    rw [if_neg (by omega)] at hslow
    refine ⟨?_, ?_, ?_, by omega, by omega, by omega, by omega⟩
    · rw [hstate, hfast]
      exact hf
    · rw [hstate, hslow]
      exact hs
    · rw [hstate]
      exact hb
  · rw [if_neg hquiet] at hstate
    rw [if_pos (by omega)] at hfast
    by_cases hlong : lastSlow ticks polarity start now k + slowTicks ticks ≤ now k
    · rw [if_pos hlong] at hstate
      rw [if_pos ⟨by omega, hlong⟩] at hslow
      refine ⟨?_, ?_, ?_, by omega, by omega, by omega, by omega⟩
      · rw [hstate, hfast]
      · rw [hstate, hslow]
      · rw [hstate]
        exact hb
    · rw [if_neg hlong] at hstate
      rw [if_neg fun hboth => hlong hboth.2] at hslow
      refine ⟨?_, ?_, ?_, by omega, by omega, by omega, by omega⟩
      · rw [hstate, hfast]
      · rw [hstate, hslow]
        exact hs
      · rw [hstate]
        exact hb

theorem follows (polarity : BitVec 32) (k : ℕ) : Follows ticks polarity start G now k := by
  induction k with
  | zero =>
    have hle := h.first_le
    refine ⟨rfl, rfl, rfl, h.first_ge, ?_, le_rfl, ?_⟩
    · show now 0 ≤ start + fastTicks ticks + G
      omega
    · show start ≤ start + slowTicks ticks
      omega
  | succ k ih => exact ih.succ h

/-! ## The schedule -/

theorem elapsed_iff (x : Sender) (n k : ℕ) :
    Elapsed ticks polarity start now x n k ↔
      lastTime start now (calls ticks polarity start now x) k + n ≤ now k := by
  rw [lastTime_add_le_iff h.first_ge h.mono]
  simp only [Elapsed, calls, decide_eq_true_eq]

omit h in
theorem recent_of_le {x : Sender} {n k : ℕ}
    (hle : now k ≤ lastTime start now (calls ticks polarity start now x) k + n) :
    Recent ticks polarity start now x n k := by
  rcases lastTime_cases start now (calls ticks polarity start now x) k with hs | ⟨j, hj, hcall, hl⟩
  · rw [hs] at hle
    exact .inl hle
  · rw [hl] at hle
    rw [calls, decide_eq_true_eq] at hcall
    exact .inr ⟨j, hj, hcall, hle⟩

/-- Every poll calls what is due and nothing else, in order and once, whatever the counter does: the
status frame and the snapshots when it is `fastTicks` since all earlier ones, the statistics with
them when it is `slowTicks`, and the BPC with these on a bipolar unit. Neither is ever late by more
than the time between two polls, and the statistics by a fast period more. -/
theorem polls_on_time (polarity : BitVec 32) (k : ℕ) :
    (sent ticks polarity start now k).Sublist
        [.sadata_send, .lstats_send, .bpc_send, .snapshot_process] ∧
      (.sadata_send ∈ sent ticks polarity start now k ↔
        Elapsed ticks polarity start now .sadata_send (fastTicks ticks) k) ∧
      (.lstats_send ∈ sent ticks polarity start now k ↔
        Elapsed ticks polarity start now .sadata_send (fastTicks ticks) k ∧
          Elapsed ticks polarity start now .lstats_send (slowTicks ticks) k) ∧
      (.bpc_send ∈ sent ticks polarity start now k ↔
        .lstats_send ∈ sent ticks polarity start now k ∧ polarity = 0) ∧
      (.snapshot_process ∈ sent ticks polarity start now k ↔
        .sadata_send ∈ sent ticks polarity start now k) ∧
      Recent ticks polarity start now .sadata_send (fastTicks ticks + G) k ∧
      Recent ticks polarity start now .lstats_send (slowTicks ticks + fastTicks ticks + G) k := by
  have hk := follows h polarity k
  have hsent := hk.sent_eq h
  have hfast := hk.calls_fast h
  have hslow := hk.calls_slow h
  rw [calls, decide_eq_true_eq] at hfast hslow
  refine ⟨?_, ?_, ?_, ?_, ?_, recent_of_le ?_, recent_of_le ?_⟩
  · rw [hsent]
    split_ifs <;> simp
  · rw [elapsed_iff h]
    exact hfast
  · rw [elapsed_iff h, elapsed_iff h]
    exact hslow
  · rw [hsent]
    by_cases hpol : polarity = 0
    · simp only [hpol, if_true, and_true]
      split_ifs <;> simp
    · simp only [hpol, if_false, and_false, iff_false]
      split_ifs <;> simp
  · rw [hsent]
    split_ifs <;> simp
  · have hle := hk.now_le
    rw [lastFast] at hle
    omega
  · have hle := hk.now_le
    have hle' := hk.le_slow
    rw [lastFast, lastSlow] at hle'
    rw [lastFast] at hle
    omega

end Polls

/-! ## A counter that wraps -/

/-- The first poll comes 6 ticks before the wrap, and then one every 10 ticks, of a millisecond. -/
def everyTen (k : ℕ) : ℕ := 4294967290 + 10 * k

theorem polled_everyTen : Polled id 4294967290 everyTen 10 where
  first_ge := le_rfl
  first_le := Nat.le_add_right _ _
  mono k := by
    unfold everyTen
    omega
  gap k := by
    unfold everyTen
    omega
  fits := by decide

/-- The eleventh poll sends the first status frame. -/
theorem polls_on_time_wrap : .sadata_send ∈ sent id 0 4294967290 everyTen 10 := by
  have hfast : fastTicks id = 100 := by decide
  refine (polls_on_time polled_everyTen 0 10).2.1.mpr ⟨?_, ?_⟩
  · rw [hfast, everyTen]
  · intro j hj hsent
    have hstart := ((polls_on_time polled_everyTen 0 j).2.1.mp hsent).1
    rw [hfast, everyTen] at hstart
    omega

end Zpsc.PscData
