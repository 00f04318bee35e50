import Mathlib.Tactic.Ring
import Zpsc.Dac.SmoothRun

/-!
# A run of the linear smooth ramp

A run of `smooth_linear_ramp` from `IDLE` back to `IDLE` with constant parameters, for any sequence
of ticks that does not end. Ticks decide when the steps are made, not what they are: after `k` steps
`setpt_last` is `level k`, the sum of the first `k` steps (`OnRamp`, `step_onRamp`), every step
brings the run closer to its end (`rank`, `step_rank`), and it ends at `level last` (`run_ends`),
which is the sum of three arithmetic progressions (`two_mul_level_last`).
-/

namespace Zpsc.SmoothLinear

open Bits Clocked

/-! ## Arithmetic of the registers -/

theorem sresize_eq_ofInt {w w' : ℕ} (h : w ≤ w') (x : BitVec w) :
    sresize w' x = BitVec.ofInt w' x.toInt := by
  rw [sresize, if_pos h, BitVec.signExtend]

theorem mul96_eq (n : BitVec 32) (d : BitVec 64) :
    mul96 n d = BitVec.ofInt 96 (n.toInt * d.toInt) := by
  rw [mul96, sresize_eq_ofInt (by decide), sresize_eq_ofInt (by decide), ← BitVec.ofInt_mul]

theorem toInt_ofNat_lt {n : ℕ} (h : n < 2 ^ 31) : (BitVec.ofNat 32 n).toInt = n := by
  rw [BitVec.toInt_eq_toNat_of_lt] <;> rw [BitVec.toNat_ofNat, Nat.mod_eq_of_lt (by omega)]
  omega

/-! ## The code of a sum -/

theorem toInt_codeOf {w : ℤ} (h : -2 ^ 95 ≤ w) (h' : w < 2 ^ 95) :
    (codeOf w).toInt = w / 2 ^ 48 % 2 ^ 19 - if w / 2 ^ 48 < 0 then 2 ^ 19 else 0 := by
  have hw : ((BitVec.ofInt 96 w).sshiftRight 48).toInt = w / 2 ^ 48 := by
    rw [BitVec.toInt_sshiftRight, BitVec.toInt_ofInt, Int.bmod_eq_of_le (by omega) (by omega),
      Int.shiftRight_eq_div_pow]
    rfl
  rw [codeOf, toInt_sresize_narrow (by decide), hw]

/-- A sum has the code `new` exactly when it is less than one code above it, if it is near `new` or
in the range of the codes. -/
theorem codeOf_eq_iff {w : ℤ} {new : BitVec 20}
    (h : (-2 ^ 67 ≤ w ∧ w < 2 ^ 67) ∨ |w - new.toInt * 2 ^ 48| < 2 ^ 66) :
    codeOf w = new ↔ 0 ≤ w - new.toInt * 2 ^ 48 ∧ w - new.toInt * 2 ^ 48 < 2 ^ 48 := by
  have h1 := @BitVec.toInt_lt 20 new
  have h2 := @BitVec.le_toInt 20 new
  rw [abs_lt] at h
  rw [← BitVec.toInt_inj, toInt_codeOf (by omega) (by omega)]
  split <;> omega

@[simp] theorem codeOf_startLevel (cur : BitVec 20) : codeOf (startLevel cur) = cur := by
  have h1 := @BitVec.toInt_lt 20 cur
  have h2 := @BitVec.le_toInt 20 cur
  rw [startLevel, codeOf_eq_iff (.inr (by simp))]
  omega

/-! ## The steps of a run -/

variable {p : Params} {v : ℤ} {r : Ramp} {i : In}

/-- What the registers hold in each state after `k` steps. -/
def AtStep (p : Params) (v : ℤ) (r : Ramp) (k : ℕ) : Prop :=
  match r.state with
  | .IDLE => k = p.last
  | .START_CURVED => True
  | .SC_CALC_DY0 => k < p.c
  | .SC_WAIT_DY0_MULT | .SC_CALC_SETPT_CUR =>
    k < p.c ∧ r.dy0 = BitVec.ofInt 96 (k * p.dy_per_pt.toInt)
  | .SC_UPDATE_SETPT_LAST => k < p.c ∧ r.setpt_cur = BitVec.ofInt 96 (p.level v (k + 1))
  | .LINEAR => p.c ≤ k
  | .LN_CALC_SETPT_CUR => p.c ≤ k ∧ k < p.cl
  | .LN_UPDATE_SETPT_LAST =>
    p.c ≤ k ∧ k < p.cl ∧ r.setpt_cur = BitVec.ofInt 96 (p.level v (k + 1))
  | .END_CURVED => p.c ≤ k ∧ p.cl ≤ k
  | .EC_CALC_DY0 => p.c ≤ k ∧ p.cl ≤ k ∧ k < p.tl
  | .EC_WAIT_DY0_MULT | .EC_CALC_SETPT_CUR =>
    p.c ≤ k ∧ p.cl ≤ k ∧ k < p.tl ∧ r.dy0 = BitVec.ofInt 96 ((p.tl - k) * p.dy_per_pt.toInt)
  | .EC_UPDATE_SETPT_LAST =>
    p.c ≤ k ∧ p.cl ≤ k ∧ k < p.tl ∧ r.setpt_cur = BitVec.ofInt 96 (p.level v (k + 1))

/-- The ramp is on a run with parameters `p` from `v`, or has just finished one. -/
def OnRamp (p : Params) (v : ℤ) (r : Ramp) : Prop :=
  ∃ k : ℕ, r.cnt = BitVec.ofNat 32 k ∧ k ≤ p.last ∧
    r.setpt_last = BitVec.ofInt 96 (p.level v k) ∧
    r.total_len = p.curved_len + p.curved_len + p.linear_len ∧ AtStep p v r k

theorem last_lt (p : Params) : p.last < 2 ^ 31 := by
  have h1 := @BitVec.toInt_lt 32 p.curved_len
  have h2 := @BitVec.toInt_lt 32 (p.curved_len + p.linear_len)
  have h3 := @BitVec.toInt_lt 32 (p.curved_len + p.curved_len + p.linear_len)
  simp only [Params.last, Params.c, Params.cl, Params.tl]
  omega

theorem lt_last {k : ℕ} (h : (k : ℤ) < p.c ∨ (k : ℤ) < p.cl ∨ (k : ℤ) < p.tl) : k < p.last := by
  simp only [Params.last]
  omega

theorem eq_last {k : ℕ} (hk : k ≤ p.last) (h1 : p.c ≤ k) (h2 : p.cl ≤ k) (h3 : p.tl ≤ k) :
    k = p.last := by
  simp only [Params.last] at hk ⊢
  omega

theorem onRamp_succ {k : ℕ} (hcnt : r.cnt = BitVec.ofNat 32 k) (hlt : k < p.last)
    (htl : r.total_len = p.curved_len + p.curved_len + p.linear_len)
    (hcur : r.setpt_cur = BitVec.ofInt 96 (p.level v (k + 1))) {st : State}
    (hat : AtStep p v { r with setpt_last := r.setpt_cur, cnt := r.cnt + 1, state := st } (k + 1)) :
    OnRamp p v { r with setpt_last := r.setpt_cur, cnt := r.cnt + 1, state := st } := by
  refine ⟨k + 1, ?_, hlt, hcur, htl, hat⟩
  simp only [hcnt]
  rw [BitVec.ofNat_add]
  rfl

theorem step_onRamp (h : OnRamp p v r) (hi : Carries p i) (hs : r.state ≠ .IDLE) :
    OnRamp p v (step r i) := by
  obtain ⟨k, hcnt, hk, hlast, htl, hat⟩ := h
  have hk31 := last_lt p
  have hint : r.cnt.toInt = k := by rw [hcnt, toInt_ofNat_lt (by omega)]
  have htl' : r.total_len.toInt = p.tl := by rw [htl, Params.tl]
  unfold AtStep at hat
  cases hst : r.state <;> simp only [hst] at hat
  case IDLE => exact absurd hst hs
  case START_CURVED =>
    simp only [step, hi.reset, hst, hi.curved_len, Bool.false_eq_true, if_false]
    split
    · split
      · next hlt =>
        exact ⟨k, hcnt, hk, hlast, htl, by rw [hint] at hlt; exact hlt⟩
      · next hge =>
        exact ⟨k, hcnt, hk, hlast, htl, by rw [hint] at hge; exact not_lt.mp hge⟩
    · exact ⟨k, hcnt, hk, hlast, htl, by simp only [AtStep, hst]⟩
  case SC_CALC_DY0 =>
    simp only [step, hi.reset, hst, hi.dy_per_pt, Bool.false_eq_true, if_false]
    exact ⟨k, hcnt, hk, hlast, htl, hat, by rw [mul96_eq, hint]⟩
  case SC_WAIT_DY0_MULT =>
    simp only [step, hi.reset, hst, Bool.false_eq_true, if_false]
    split
    · exact ⟨k, hcnt, hk, hlast, htl, hat⟩
    · exact ⟨k, hcnt, hk, hlast, htl, hat⟩
  case SC_CALC_SETPT_CUR =>
    simp only [step, hi.reset, hst, Bool.false_eq_true, if_false]
    refine ⟨k, hcnt, hk, hlast, htl, hat.1, ?_⟩
    simp only [hlast, hat.2, ← BitVec.ofInt_add, Params.level, Params.inc, if_pos hat.1]
  case SC_UPDATE_SETPT_LAST =>
    simp only [step, hi.reset, hst, Bool.false_eq_true, if_false]
    exact onRamp_succ hcnt (lt_last (Or.inl hat.1)) htl hat.2 trivial
  case LINEAR =>
    simp only [step, hi.reset, hst, hi.curved_len, hi.linear_len, Bool.false_eq_true, if_false]
    split
    · split
      · next hlt =>
        exact ⟨k, hcnt, hk, hlast, htl, hat, by rw [hint] at hlt; exact hlt⟩
      · next hge =>
        exact ⟨k, hcnt, hk, hlast, htl, hat, by rw [hint] at hge; exact not_lt.mp hge⟩
    · exact ⟨k, hcnt, hk, hlast, htl, by simp only [AtStep, hst]; exact hat⟩
  case LN_CALC_SETPT_CUR =>
    simp only [step, hi.reset, hst, hi.dy, Bool.false_eq_true, if_false]
    refine ⟨k, hcnt, hk, hlast, htl, hat.1, hat.2, ?_⟩
    simp only [hlast, sresize_eq_ofInt (show 64 ≤ 96 by decide), ← BitVec.ofInt_add, Params.level,
      Params.inc, if_neg (not_lt.mpr hat.1), if_pos hat.2]
  case LN_UPDATE_SETPT_LAST =>
    simp only [step, hi.reset, hst, Bool.false_eq_true, if_false]
    refine onRamp_succ hcnt (lt_last (Or.inr (Or.inl hat.2.1))) htl hat.2.2 ?_
    have := hat.1
    show p.c ≤ ((k + 1 : ℕ) : ℤ)
    omega
  case END_CURVED =>
    simp only [step, hi.reset, hst, Bool.false_eq_true, if_false]
    split
    · split
      · next hlt =>
        exact ⟨k, hcnt, hk, hlast, htl, hat.1, hat.2, by rw [hint, htl'] at hlt; exact hlt⟩
      · next hge =>
        rw [hint, htl'] at hge
        exact ⟨k, hcnt, hk, hlast, htl, eq_last hk hat.1 hat.2 (not_lt.mp hge)⟩
    · exact ⟨k, hcnt, hk, hlast, htl, by simp only [AtStep, hst]; exact hat⟩
  case EC_CALC_DY0 =>
    simp only [step, hi.reset, hst, hi.dy_per_pt, Bool.false_eq_true, if_false]
    have hsub : (r.total_len - r.cnt).toInt = p.tl - k := by
      have h1 := @BitVec.toInt_lt 32 r.total_len
      rw [BitVec.toInt_sub, hint, htl', Int.bmod_eq_of_le] <;> omega
    exact ⟨k, hcnt, hk, hlast, htl, hat.1, hat.2.1, hat.2.2, by rw [mul96_eq, hsub]⟩
  case EC_WAIT_DY0_MULT =>
    simp only [step, hi.reset, hst, Bool.false_eq_true, if_false]
    split
    · exact ⟨k, hcnt, hk, hlast, htl, hat⟩
    · exact ⟨k, hcnt, hk, hlast, htl, hat⟩
  case EC_CALC_SETPT_CUR =>
    simp only [step, hi.reset, hst, Bool.false_eq_true, if_false]
    obtain ⟨h1, h2, h3, h4⟩ := hat
    refine ⟨k, hcnt, hk, hlast, htl, h1, h2, h3, ?_⟩
    simp only [hlast, h4, ← BitVec.ofInt_add, Params.level, Params.inc, if_neg (not_lt.mpr h1),
      if_neg (not_lt.mpr h2)]
  case EC_UPDATE_SETPT_LAST =>
    simp only [step, hi.reset, hst, Bool.false_eq_true, if_false]
    obtain ⟨h1, h2, h3, h4⟩ := hat
    refine onRamp_succ hcnt (lt_last (Or.inr (Or.inr h3))) htl h4 ⟨?_, ?_⟩
    · show p.c ≤ ((k + 1 : ℕ) : ℤ)
      omega
    · show p.cl ≤ ((k + 1 : ℕ) : ℤ)
      omega

/-! ## The end of a run -/

/-- A bound on the number of clocks to the end of a run, those spent waiting for a tick not
counted. -/
def rank (p : Params) (r : Ramp) : ℕ :=
  let rem := p.last - r.cnt.toNat
  match r.state with
  | .IDLE => 0
  | .START_CURVED => 30 * rem + 3
  | .LINEAR => 30 * rem + 2
  | .END_CURVED => 30 * rem + 1
  | .SC_CALC_DY0 | .EC_CALC_DY0 => 30 * (rem - 1) + 29
  | .SC_WAIT_DY0_MULT | .EC_WAIT_DY0_MULT => 30 * (rem - 1) + 6 + r.mult_wait_cnt.toNat
  | .SC_CALC_SETPT_CUR | .EC_CALC_SETPT_CUR | .LN_CALC_SETPT_CUR => 30 * (rem - 1) + 5
  | .SC_UPDATE_SETPT_LAST | .EC_UPDATE_SETPT_LAST | .LN_UPDATE_SETPT_LAST => 30 * (rem - 1) + 4

theorem toNat_sub_one {x : BitVec 4} (h : x ≠ 0) : (x - 1).toNat + 1 = x.toNat := by
  have hne : x.toNat ≠ 0 := fun e => h (BitVec.eq_of_toNat_eq e)
  have hlt := x.isLt
  rw [BitVec.toNat_sub]
  simp
  omega

/-- No clock of a run raises the rank, and a clock with a tick lowers it. -/
theorem step_rank (h : OnRamp p v r) (hi : Carries p i) (hs : r.state ≠ .IDLE) :
    rank p (step r i) ≤ rank p r ∧ (i.tenkhz_trig = true → rank p (step r i) < rank p r) := by
  obtain ⟨k, hcnt, hk, hlast, htl, hat⟩ := h
  have hk31 := last_lt p
  have hint : r.cnt.toInt = k := by rw [hcnt, toInt_ofNat_lt (by omega)]
  have hnat : r.cnt.toNat = k := by rw [hcnt, BitVec.toNat_ofNat, Nat.mod_eq_of_lt (by omega)]
  have hsucc : k < p.last → (r.cnt + 1).toNat = k + 1 := by
    intro _
    rw [BitVec.toNat_add, hnat]
    exact Nat.mod_eq_of_lt (by simp; omega)
  have htl' : r.total_len.toInt = p.tl := by rw [htl, Params.tl]
  unfold AtStep at hat
  cases hst : r.state <;> simp only [hst] at hat
  case IDLE => exact absurd hst hs
  case START_CURVED =>
    simp only [step, hi.reset, hst, hi.curved_len, hint, Bool.false_eq_true, if_false]
    split
    · split
      · next hlt =>
        have := lt_last (p := p) (Or.inl hlt)
        simp only [rank, hnat, hst]
        omega
      · simp only [rank, hnat, hst]
        omega
    · next hno => exact ⟨le_rfl, fun ht => absurd ht hno⟩
  case SC_CALC_DY0 =>
    simp [step, hi.reset, hst, rank, hnat]
  case SC_WAIT_DY0_MULT =>
    simp only [step, hi.reset, hst, Bool.false_eq_true, if_false]
    split
    · simp only [rank, hst]
      omega
    · next hne =>
      have := toNat_sub_one hne
      simp only [rank, hst]
      omega
  case SC_CALC_SETPT_CUR =>
    simp [step, hi.reset, hst, rank]
  case SC_UPDATE_SETPT_LAST =>
    have hlt := lt_last (p := p) (Or.inl hat.1)
    simp only [step, hi.reset, hst, rank, hsucc hlt, hnat, Bool.false_eq_true, if_false]
    omega
  case LINEAR =>
    simp only [step, hi.reset, hst, hi.curved_len, hi.linear_len, hint, Bool.false_eq_true,
      if_false]
    split
    · split
      · next hlt =>
        have := lt_last (p := p) (Or.inr (Or.inl hlt))
        simp only [rank, hnat, hst]
        omega
      · simp only [rank, hnat, hst]
        omega
    · next hno => exact ⟨le_rfl, fun ht => absurd ht hno⟩
  case LN_CALC_SETPT_CUR =>
    simp [step, hi.reset, hst, rank]
  case LN_UPDATE_SETPT_LAST =>
    have hlt := lt_last (p := p) (Or.inr (Or.inl hat.2.1))
    simp only [step, hi.reset, hst, rank, hsucc hlt, hnat, Bool.false_eq_true, if_false]
    omega
  case END_CURVED =>
    simp only [step, hi.reset, hst, hint, htl', Bool.false_eq_true, if_false]
    split
    · split
      · next hlt =>
        have := lt_last (p := p) (Or.inr (Or.inr hlt))
        simp only [rank, hnat, hst]
        omega
      · simp only [rank, hst]
        omega
    · next hno => exact ⟨le_rfl, fun ht => absurd ht hno⟩
  case EC_CALC_DY0 =>
    simp [step, hi.reset, hst, rank, hnat]
  case EC_WAIT_DY0_MULT =>
    simp only [step, hi.reset, hst, Bool.false_eq_true, if_false]
    split
    · simp only [rank, hst]
      omega
    · next hne =>
      have := toNat_sub_one hne
      simp only [rank, hst]
      omega
  case EC_CALC_SETPT_CUR =>
    simp [step, hi.reset, hst, rank]
  case EC_UPDATE_SETPT_LAST =>
    have hlt := lt_last (p := p) (Or.inr (Or.inr hat.2.2.1))
    simp only [step, hi.reset, hst, rank, hsucc hlt, hnat, Bool.false_eq_true, if_false]
    omega

theorem shiftLeft_eq_ofInt (cur : BitVec 20) :
    sresize 96 cur <<< 48 = BitVec.ofInt 96 (startLevel cur) := by
  rw [sresize_eq_ofInt (by decide), BitVec.shiftLeft_eq_mul_twoPow, startLevel, BitVec.ofInt_mul]
  rfl

theorem step_start_eq {cur new : BitVec 20} (hi : Carries p i) (hmode : i.mode = 0b00#2)
    (hcur : i.cur_setpt = cur) (hnew : i.new_setpt = new) (hs : Ready new r) :
    step r i =
      { r with
        new_setpt_prev := new, smooth_active := true
        setpt_last := sresize 96 cur <<< 48, state := .START_CURVED, cnt := 0
        total_len := p.curved_len + p.curved_len + p.linear_len } := by
  simp [step, hi.reset, hs.1, hmode, hcur, hnew, hs.2, hi.curved_len, hi.linear_len]

theorem step_start {cur new : BitVec 20} (hi : Carries p i) (hmode : i.mode = 0b00#2)
    (hcur : i.cur_setpt = cur) (hnew : i.new_setpt = new) (hs : Ready new r) :
    OnRamp p (startLevel cur) (step r i) ∧ (step r i).state = .START_CURVED := by
  rw [step_start_eq hi hmode hcur hnew hs]
  exact ⟨⟨0, rfl, Nat.zero_le _, shiftLeft_eq_ofInt cur, rfl, trivial⟩, rfl⟩

/-- The first value that a ramp puts out is the one it starts from. -/
theorem rampout_start {cur new : BitVec 20} (hi : Carries p i) (hmode : i.mode = 0b00#2)
    (hcur : i.cur_setpt = cur) (hnew : i.new_setpt = new) (hs : Ready new r) :
    (step r i).rampout = cur := by
  rw [step_start_eq hi hmode hcur hnew hs, Ramp.rampout]
  simp only [shiftLeft_eq_ofInt]
  exact codeOf_startLevel cur

/-- An undisturbed run ends, with the code of the sum of all its steps. -/
theorem run_ends {cur new : BitVec 20} {s : Ramp} {inp : ℕ → In} (hs : Ready new s)
    (h : Undisturbed p cur new inp) :
    RunEnds s inp (codeOf (p.level (startLevel cur) p.last)) := by
  set st := trace step s inp with hst
  obtain ⟨h1, h1s⟩ := step_start (r := s) (h.params 0) h.mode h.cur_setpt h.new_setpt hs
  -- the first return to `IDLE` exists because the rank falls at every tick
  obtain ⟨t', ht', hidle⟩ : ∃ t', 1 ≤ t' ∧
      ¬ (OnRamp p (startLevel cur) (st t') ∧ (st t').state ≠ .IDLE) := by
    refine eventually_of_rank (fun t => rank p (st t)) h.ticks (fun t ht => ?_) 1
    have ht := not_not.mp ht
    exact step_rank ht.1 (h.params t) ht.2
  classical
  have hex : ∃ t, 1 ≤ t ∧ ¬ (OnRamp p (startLevel cur) (st t) ∧ (st t).state ≠ .IDLE) :=
    ⟨t', ht', hidle⟩
  set t := Nat.find hex with ht
  obtain ⟨hpos, hend⟩ := Nat.find_spec hex
  rw [← ht] at hpos hend
  have hbefore : ∀ u, 1 ≤ u → u < t → OnRamp p (startLevel cur) (st u) ∧ (st u).state ≠ .IDLE := by
    intro u hu hut
    by_contra hno
    exact Nat.find_min hex hut ⟨hu, hno⟩
  have hon : OnRamp p (startLevel cur) (st t) := by
    by_cases h1t : t = 1
    · rw [h1t]
      exact h1
    · obtain ⟨u, hu⟩ : ∃ u, t = u + 1 := ⟨t - 1, by omega⟩
      obtain ⟨huon, hus⟩ := hbefore u (by omega) (by omega)
      rw [hu]
      exact step_onRamp huon (h.params u) hus
  have hstate : (st t).state = .IDLE := by
    by_contra hne
    exact hend ⟨hon, hne⟩
  refine ⟨t, by omega, fun u hu hut => (hbefore u hu hut).2, hstate, ?_⟩
  obtain ⟨k, -, -, hlast, -, hat⟩ := hon
  simp only [AtStep, hstate] at hat
  rw [← hst, Ramp.rampout, hlast, hat, codeOf]

theorem RunEnds.unique {s : Ramp} {inp : ℕ → In} {x y : BitVec 20} (hx : RunEnds s inp x)
    (hy : RunEnds s inp y) : x = y := by
  obtain ⟨t, ht, hbt, hst, rfl⟩ := hx
  obtain ⟨u, hu, hbu, hsu, rfl⟩ := hy
  rw [first_unique (P := fun v => (trace step s inp v).state = .IDLE) ht hbt hst hu hbu hsu]

/-! ## The sum of the steps -/

/-- The first section: steps `0, P, 2P, …`. -/
theorem two_mul_level_curved {k : ℕ} (hk : (k : ℤ) ≤ p.c) :
    2 * p.level v k = 2 * v + p.dy_per_pt.toInt * (k * (k - 1)) := by
  induction k with
  | zero => simp [Params.level]
  | succ k ih =>
    have hlt : (k : ℤ) < p.c := by push_cast at hk; omega
    rw [Params.level, Params.inc, if_pos hlt, mul_add, ih hlt.le]
    push_cast
    ring

/-- The linear section: steps `Q`. -/
theorem level_linear {a : ℕ} (ha : p.c ≤ a) {j : ℕ} (hj : ((a + j : ℕ) : ℤ) ≤ p.cl) :
    p.level v (a + j) = p.level v a + p.dy.toInt * j := by
  induction j with
  | zero => simp
  | succ j ih =>
    push_cast at hj
    rw [← Nat.add_assoc, Params.level, Params.inc, if_neg (by push_cast; omega),
      if_pos (by push_cast; omega), ih (by push_cast; omega)]
    push_cast
    ring

/-- The last section: steps `nP, …, 2P, P`. -/
theorem two_mul_level_end {a : ℕ} (ha : p.c ≤ a) (ha' : p.cl ≤ a) {j : ℕ}
    (hj : ((a + j : ℕ) : ℤ) ≤ p.tl) :
    2 * p.level v (a + j) = 2 * p.level v a +
      p.dy_per_pt.toInt * ((p.tl - a) * (p.tl - a + 1) - (p.tl - a - j) * (p.tl - a - j + 1)) := by
  induction j with
  | zero => simp
  | succ j ih =>
    push_cast at hj
    rw [← Nat.add_assoc, Params.level, Params.inc, if_neg (by push_cast; omega),
      if_neg (by push_cast; omega), mul_add, ih (by push_cast; omega)]
    push_cast
    ring

theorem two_mul_level_last (p : Params) (v : ℤ) :
    2 * p.level v p.last = 2 * v +
      p.dy_per_pt.toInt * (max 0 p.c * (max 0 p.c - 1)) +
      2 * (p.dy.toInt * max 0 (p.cl - max 0 p.c)) +
      p.dy_per_pt.toInt *
        (max 0 (p.tl - (max 0 p.c + max 0 (p.cl - max 0 p.c))) *
          (max 0 (p.tl - (max 0 p.c + max 0 (p.cl - max 0 p.c))) + 1)) := by
  obtain ⟨a, ha⟩ : ∃ a : ℕ, (a : ℤ) = max 0 p.c := ⟨(max 0 p.c).toNat, by omega⟩
  obtain ⟨b, hb⟩ : ∃ b : ℕ, (b : ℤ) = max 0 (p.cl - max 0 p.c) :=
    ⟨(max 0 (p.cl - max 0 p.c)).toNat, by omega⟩
  obtain ⟨d, hd⟩ : ∃ d : ℕ, (d : ℤ) = max 0 (p.tl - (max 0 p.c + max 0 (p.cl - max 0 p.c))) :=
    ⟨(max 0 (p.tl - (max 0 p.c + max 0 (p.cl - max 0 p.c)))).toNat, by omega⟩
  have hlast : p.last = a + b + d := by
    simp only [Params.last]
    omega
  have h1 : 2 * p.level v a = 2 * v + p.dy_per_pt.toInt * (a * (a - 1)) := by
    rcases Nat.eq_zero_or_pos a with h0 | h0
    · simp [h0, Params.level]
    · exact two_mul_level_curved (by omega)
  have h2 : p.level v (a + b) = p.level v a + p.dy.toInt * b := by
    rcases Nat.eq_zero_or_pos b with h0 | h0
    · simp [h0]
    · exact level_linear (by omega) (by push_cast; omega)
  have h3 : 2 * p.level v (a + b + d) =
      2 * p.level v (a + b) + p.dy_per_pt.toInt * (d * (d + 1)) := by
    rcases Nat.eq_zero_or_pos d with h0 | h0
    · simp [h0]
    · have hd' : p.tl - ((a + b : ℕ) : ℤ) = d := by push_cast; omega
      rw [two_mul_level_end (by push_cast; omega) (by push_cast; omega) (by push_cast; omega), hd']
      ring
  rw [← hd, ← hb, ← ha, hlast, h3, h2, mul_add, h1]

end Zpsc.SmoothLinear
