import Zpsc.Timing.OneHz

/-!
# Proofs: the check of the 1 Hz event

An edge is seen two clocks after the rise. The counter has the number of clocks since the last edge,
modulo `2^32`.
-/

namespace Zpsc.OneHz

open Clocked

variable {cnt freq : BitVec 32} {trig : ℕ → Bool} {t u u' : ℕ}

/-! ## Edges -/

/-- The edge that the check sees before clock `t`. -/
def edge (cnt freq : BitVec 32) (trig : ℕ → Bool) (t : ℕ) : Bool :=
  !(regs cnt freq trig t).onehz_trig_sync2 && (regs cnt freq trig t).onehz_trig_sync1

theorem edge_add_two (u : ℕ) : edge cnt freq trig (u + 2) = rise trig u := by
  cases u with
  | zero =>
    show (!false && trig 0) = (trig 0 && (true || _))
    rw [Bool.not_false, Bool.true_and, Bool.true_or, Bool.and_true]
  | succ u =>
    show (!trig u && trig (u + 1)) = (trig (u + 1) && (false || !trig u))
    rw [Bool.false_or, Bool.and_comm]

theorem edge_early (h : t < 2) : edge cnt freq trig t = false := by
  rcases t with - | - | t
  · rfl
  · rfl
  · omega

theorem cnt_succ (t : ℕ) :
    (regs cnt freq trig (t + 1)).onehz_rate_cnt =
      if edge cnt freq trig t then 0 else (regs cnt freq trig t).onehz_rate_cnt + 1 := rfl

theorem onehz_trig_succ (t : ℕ) :
    (regs cnt freq trig (t + 1)).onehz_trig =
      (edge cnt freq trig t &&
        decide (InWindow (regs cnt freq trig t).onehz_rate_cnt.toNat)) := rfl

/-- An edge is passed on where the trigger has risen and the counter is in the window. -/
theorem onehz_trig_iff : (regs cnt freq trig t).onehz_trig = true ↔
    ∃ u, t = u + 3 ∧ rise trig u = true ∧
      InWindow (regs cnt freq trig (u + 2)).onehz_rate_cnt.toNat := by
  constructor
  · intro h
    cases t with
    | zero => cases h
    | succ t =>
      rw [onehz_trig_succ, Bool.and_eq_true_iff, decide_eq_true_iff] at h
      rcases Nat.lt_or_ge t 2 with hlt | hge
      · rw [edge_early hlt] at h
        exact absurd h.1 Bool.false_ne_true
      · obtain ⟨u, rfl⟩ := Nat.exists_eq_add_of_le' hge
        rw [edge_add_two] at h
        exact ⟨u, rfl, h⟩
  · rintro ⟨u, rfl, hrise, hwin⟩
    rw [onehz_trig_succ, edge_add_two, hrise, Bool.true_and, decide_eq_true hwin]

/-! ## The counter -/

/-- While no edge is seen the counter counts the clocks. -/
theorem cnt_between {a b : ℕ} (hab : a ≤ b)
    (h : ∀ v, a ≤ v → v < b → edge cnt freq trig v = false) :
    (regs cnt freq trig b).onehz_rate_cnt.toNat =
      ((regs cnt freq trig a).onehz_rate_cnt.toNat + (b - a)) % 2 ^ 32 := by
  induction b, hab using Nat.le_induction with
  | base => rw [Nat.sub_self, Nat.add_zero, Nat.mod_eq_of_lt (BitVec.isLt _)]
  | succ b hab ih =>
    rw [cnt_succ, if_neg (by rw [h b hab (by omega)]; exact Bool.false_ne_true), BitVec.toNat_add,
      ih fun v hv hvb => h v hv (by omega)]
    change (_ + 1) % 2 ^ 32 = _
    omega

/-- At an edge the counter has the clocks since the one before. -/
theorem cnt_last (cnt freq : BitVec 32) (h : LastRise trig u' u) :
    (regs cnt freq trig (u + 2)).onehz_rate_cnt.toNat = (u - u' - 1) % 2 ^ 32 := by
  obtain ⟨hlt, hrise, hbetween⟩ := h
  have hclear : (regs cnt freq trig (u' + 3)).onehz_rate_cnt = 0 := by
    rw [cnt_succ, edge_add_two, hrise, if_pos rfl]
  rw [cnt_between (show u' + 3 ≤ u + 2 by omega), hclear]
  · rw [show u + 2 - (u' + 3) = u - u' - 1 by omega]
    simp
  · intro v hv hvu
    obtain ⟨w, rfl⟩ := Nat.exists_eq_add_of_le' (show 2 ≤ v by omega)
    rw [edge_add_two]
    exact hbetween w (by omega) (by omega)

/-- At the first edge the counter has gone on from its initial value. -/
theorem cnt_first (cnt freq : BitVec 32) (h : ∀ v < u, rise trig v = false) :
    (regs cnt freq trig (u + 2)).onehz_rate_cnt.toNat = (cnt.toNat + u + 2) % 2 ^ 32 := by
  rw [cnt_between (Nat.zero_le _)]
  · rw [Nat.sub_zero, ← Nat.add_assoc]
    rfl
  · intro v _ hvu
    rcases Nat.lt_or_ge v 2 with hlt | hge
    · exact edge_early hlt
    · obtain ⟨w, rfl⟩ := Nat.exists_eq_add_of_le' hge
      rw [edge_add_two]
      exact h w (by omega)

/-! ## The check -/

theorem LastRise.unique {a b : ℕ} (ha : LastRise trig a t) (hb : LastRise trig b t) : a = b := by
  obtain ⟨hat, hra, hna⟩ := ha
  obtain ⟨hbt, hrb, hnb⟩ := hb
  rcases Nat.lt_trichotomy a b with hlt | heq | hlt
  · rw [hna b hlt hbt] at hrb
    cases hrb
  · exact heq
  · rw [hnb a hlt hat] at hra
    cases hra

/-- Only edges about a second after the one before are passed on, if and only if the counter has
never wrapped into the window. -/
theorem passesSeconds_iff (cnt freq : BitVec 32) (trig : ℕ → Bool) :
    PassesSeconds cnt freq trig ↔ GapsOk cnt trig := by
  constructor
  · intro h u hrise
    constructor
    · rintro u' hlast ⟨hwrap, hwin⟩
      rw [← cnt_last cnt freq hlast] at hwin
      obtain ⟨v', v, hv, -, hlast', hlo, hhi⟩ := h _ (onehz_trig_iff.mpr ⟨u, rfl, hrise, hwin⟩)
      obtain rfl : u = v := by omega
      rw [hlast'.unique hlast] at hhi
      omega
    · intro hnone hwin
      rw [← cnt_first cnt freq hnone] at hwin
      obtain ⟨v', v, hv, -, hlast', -⟩ := h _ (onehz_trig_iff.mpr ⟨u, rfl, hrise, hwin⟩)
      obtain rfl : u = v := by omega
      have hrise' := hlast'.2.1
      rw [hnone v' hlast'.1] at hrise'
      exact absurd hrise' Bool.false_ne_true
  · intro h t ht
    obtain ⟨u, rfl, hrise, hwin⟩ := onehz_trig_iff.mp ht
    obtain ⟨hgaps, hfirst⟩ := h u hrise
    rcases exists_last_tick (rise trig) u with hnone | ⟨u', hlt, hrise', hbetween⟩
    · rw [cnt_first cnt freq hnone] at hwin
      exact absurd hwin (hfirst hnone)
    · have hlast : LastRise trig u' u := ⟨hlt, hrise', hbetween⟩
      rw [cnt_last cnt freq hlast] at hwin
      have hsmall : u - u' - 1 < 2 ^ 32 := by
        by_contra hge
        exact hgaps u' hlast ⟨by omega, hwin⟩
      rw [Nat.mod_eq_of_lt hsmall] at hwin
      obtain ⟨hlo, hhi⟩ := hwin
      exact ⟨u', u, rfl, hrise, hlast, by omega, by omega⟩

/-- A trigger at clock 0, and the next one 43.95 seconds later. -/
def dropOut (t : ℕ) : Bool := t = 0 ∨ t = 2 ^ 32 + 100000000

/-- The edge after a drop-out is passed on. -/
theorem dropOut_passed : ¬ PassesSeconds 0 0 dropOut := by
  intro h
  have hrise : rise dropOut (2 ^ 32 + 100000000) = true := by decide
  have hbetween : ∀ u, 0 < u → u < 2 ^ 32 + 100000000 → rise dropOut u = false := by
    intro u hu hlt
    rw [rise, dropOut, decide_eq_false (by omega), Bool.false_and]
  have hlast : LastRise dropOut 0 (2 ^ 32 + 100000000) := ⟨by omega, by decide, hbetween⟩
  have hcnt := cnt_last 0 0 hlast
  obtain ⟨v', v, hv, -, hlast', -, hhi⟩ := h _ (onehz_trig_iff.mpr
    ⟨2 ^ 32 + 100000000, rfl, hrise, by rw [hcnt]; decide⟩)
  obtain rfl : 2 ^ 32 + 100000000 = v := by omega
  rw [hlast'.unique hlast] at hhi
  omega

end Zpsc.OneHz
