import Zpsc.Adc.GainOffset

/-!
# When a reading is calibrated without wrapping

What a pass puts out is the wrapped quotient of the wrapped difference (`toInt_out`). In range it is
the intended one exactly when the difference fits, but for two cases in which nothing is lost
(`lap_above`).
-/

namespace Zpsc.AdcGainOffset

open Bits Clocked

variable {ι : Type} {w : ℕ} {s : Stage ι w} {inp : ℕ → In ι w}

/-! ## The clocks of a pass -/

/-- After three clocks the results are there, and the delay begins. -/
theorem trace_three (sign : BitVec w → BitVec w) (q : ι) (h : Converts s inp) :
    let s' := trace (step sign) s inp 3
    s'.state = .MULT_DLY ∧ s'.multdlycnt = 0 ∧
      s'.out q = sign (fixed_mul ((inp 1).raw q - (inp 1).params.offset q) ((inp 2).params.gain q)
        4) := by
  have h0 := h.no_reset 0 (by decide)
  have h1 := h.no_reset 1 (by decide)
  have h2 := h.no_reset 2 (by decide)
  simp [trace, step, h0, h1, h2, h.idle, h.last, h.conv_done]

/-- The delay counts to 6 and changes nothing else. -/
theorem trace_delay (sign : BitVec w → BitVec w) (q : ι) (h : Converts s inp) {n : ℕ} (hn : n ≤ 6) :
    let s' := trace (step sign) s inp (3 + n)
    s'.state = .MULT_DLY ∧ s'.multdlycnt = BitVec.ofNat 4 n ∧
      s'.out q = (trace (step sign) s inp 3).out q := by
  induction n with
  | zero =>
    obtain ⟨hst, hcnt, -⟩ := trace_three sign q h
    exact ⟨hst, hcnt, rfl⟩
  | succ n ih =>
    obtain ⟨hst, hcnt, hout⟩ := ih (by omega)
    have hne : BitVec.ofNat 4 n ≠ 6#4 := by
      intro he
      have := congrArg BitVec.toNat he
      simp at this
      omega
    have hstep : trace (step sign) s inp (3 + (n + 1)) =
        { trace (step sign) s inp (3 + n) with
          multdlycnt := (trace (step sign) s inp (3 + n)).multdlycnt + 1 } := by
      rw [← Nat.add_assoc, trace_succ, step, h.no_reset (3 + n) (by omega)]
      simp [hst, hcnt, hne]
    rw [hstep]
    refine ⟨hst, ?_, hout⟩
    show (trace (step sign) s inp (3 + n)).multdlycnt + 1 = _
    rw [hcnt, BitVec.ofNat_add]
    rfl

theorem trace_ten (sign : BitVec w → BitVec w) (q : ι) (h : Converts s inp) :
    (trace (step sign) s inp 10).done = true ∧
      (trace (step sign) s inp 10).out q =
        sign (fixed_mul ((inp 1).raw q - (inp 1).params.offset q) ((inp 2).params.gain q) 4) := by
  obtain ⟨hst, hcnt, hout⟩ := trace_delay sign q h (n := 6) le_rfl
  rw [← (trace_three sign q h).2.2, ← hout, trace_succ, step, h.no_reset 9 (by decide)]
  simp only [Nat.reduceAdd] at hst hcnt
  simp [hst, hcnt]

/-! ## What is put out -/

theorem toInt_fixed_mul (a : BitVec (w + 1)) (b : BitVec 24) :
    (fixed_mul a b 4).toInt = (a.toInt * b.toInt / 2 ^ 20).bmod (2 ^ (w + 1)) := by
  rw [fixed_mul, toInt_slice _ (by omega), toInt_mul_sresize a b]

variable {raw offset : BitVec (w + 1)} {gain : BitVec 24}

theorem toInt_mon_out :
    (fixed_mul (raw - offset) gain 4).toInt =
      (1 * wrappedQuotient raw offset gain).bmod (2 ^ (w + 1)) := by
  rw [toInt_fixed_mul, one_mul, wrappedQuotient]

theorem toInt_dcct_out :
    (-fixed_mul (raw - offset) gain 4).toInt =
      (-1 * wrappedQuotient raw offset gain).bmod (2 ^ (w + 1)) := by
  rw [BitVec.toInt_neg, toInt_fixed_mul, Int.bmod_neg_bmod, neg_one_mul, wrappedQuotient]

/-! ## The difference -/

theorem difference_bounds (raw offset : BitVec (w + 1)) :
    -(2 * 2 ^ w) < raw.toInt - offset.toInt ∧ raw.toInt - offset.toInt < 2 * 2 ^ w := by
  have hr0 := BitVec.le_toInt raw
  have hr1 := BitVec.toInt_lt (x := raw)
  have ho0 := BitVec.le_toInt offset
  have ho1 := BitVec.toInt_lt (x := offset)
  rw [Nat.add_sub_cancel] at hr0 hr1 ho0 ho1
  constructor <;> linarith

/-- The difference in `w` bits: one lap less or more where it does not fit. -/
theorem toInt_difference (raw offset : BitVec (w + 1)) :
    let d := raw.toInt - offset.toInt
    (2 ^ w ≤ d → (raw - offset).toInt = d - 2 * 2 ^ w) ∧
      (d < -2 ^ w → (raw - offset).toInt = d + 2 * 2 ^ w) ∧
      (-2 ^ w ≤ d → d < 2 ^ w → (raw - offset).toInt = d) := by
  intro d
  obtain ⟨hlo, hhi⟩ := difference_bounds raw offset
  have hpow : ((2 ^ (w + 1) : ℕ) : ℤ) = 2 * 2 ^ w := by
    push_cast
    ring
  have hbmod : ∀ k : ℤ, -2 ^ w ≤ d + k * (2 * 2 ^ w) → d + k * (2 * 2 ^ w) < 2 ^ w →
      (raw - offset).toInt = d + k * (2 * 2 ^ w) := by
    intro k h1 h2
    rw [BitVec.toInt_sub, ← Int.add_mul_bmod_self_right (raw.toInt - offset.toInt) k, hpow]
    exact Int.bmod_eq_of_le (by rw [hpow]; omega) (by rw [hpow]; omega)
  refine ⟨fun h => ?_, fun h => ?_, fun h h' => ?_⟩
  · have := hbmod (-1) (by linarith) (by linarith)
    linarith
  · have := hbmod 1 (by linarith) (by linarith)
    linarith
  · have := hbmod 0 (by linarith) (by linarith)
    linarith

/-! ## Where the result is the intended one -/

theorem two_pow_succ_cast (w : ℕ) : ((2 ^ (w + 1) : ℕ) : ℤ) = 2 * 2 ^ w := by
  push_cast
  ring

/-- The highest and the lowest number, by their low bits. -/
theorem bmod_eq_limit_iff (w : ℕ) (x : ℤ) :
    (x.bmod (2 ^ (w + 1)) = 2 ^ w - 1 ↔ x % 2 ^ (w + 1) = 2 ^ w - 1) ∧
      (x.bmod (2 ^ (w + 1)) = -2 ^ w ↔ x % 2 ^ (w + 1) = 2 ^ w) := by
  have hpos : (0 : ℤ) < 2 ^ w := by positivity
  have hm0 := Int.emod_nonneg x (show (2 * 2 ^ w : ℤ) ≠ 0 by positivity)
  have hm1 := Int.emod_lt_of_pos x (show (0 : ℤ) < 2 * 2 ^ w by positivity)
  rw [Int.bmod_def, two_pow_succ_cast, show (2 : ℤ) ^ (w + 1) = 2 * 2 ^ w by ring]
  generalize x % (2 * 2 ^ w) = m at *
  generalize (2 : ℤ) ^ w = H at *
  constructor <;> split <;> omega

/-- A number in range, by its laps. -/
theorem bmod_eq_iff_dvd {w : ℕ} {x z : ℤ} (hlo : -2 ^ w ≤ z) (hhi : z < 2 ^ w) :
    x.bmod (2 ^ (w + 1)) = z ↔ 2 * 2 ^ w ∣ x - z := by
  have hz : z.bmod (2 ^ (w + 1)) = z := by
    refine Int.bmod_eq_of_le ?_ ?_ <;> rw [two_pow_succ_cast] <;> omega
  rw [← two_pow_succ_cast, Int.dvd_iff_bmod_eq_zero, ← Int.bmod_eq_bmod_iff_bmod_sub_eq_zero, hz]

theorem clampS_of_ge {w : ℕ} {z : ℤ} (h : 2 ^ w ≤ z) : clampS (w + 1) z = 2 ^ w - 1 := by
  have hpos : (0 : ℤ) < 2 ^ w := by positivity
  rw [clampS, Nat.add_sub_cancel]
  omega

theorem clampS_of_lt {w : ℕ} {z : ℤ} (h : z < -2 ^ w) : clampS (w + 1) z = -2 ^ w := by
  have hpos : (0 : ℤ) < 2 ^ w := by positivity
  rw [clampS, Nat.add_sub_cancel]
  omega

theorem clampS_of_mem {w : ℕ} {z : ℤ} (hlo : -2 ^ w ≤ z) (hhi : z < 2 ^ w) :
    clampS (w + 1) z = z := by
  rw [clampS, Nat.add_sub_cancel]
  omega

/-- In range: the quotient of the wrapped difference is laps away only where nothing has wrapped,
and in the two cases in which the laps do not show. -/
theorem dvd_quotients_iff {σ : ℤ} (hσ : σ = 1 ∨ σ = -1)
    (hlo : -2 ^ w ≤ σ * quotient raw offset gain) (hhi : σ * quotient raw offset gain < 2 ^ w) :
    2 * 2 ^ w ∣ σ * wrappedQuotient raw offset gain - σ * quotient raw offset gain ↔
      (-2 ^ w ≤ raw.toInt - offset.toInt ∧ raw.toInt - offset.toInt < 2 ^ w) ∨ gain = 0 ∨
        (raw.toInt - offset.toInt = 2 ^ w ∧ gain.toInt = -σ * 2 ^ 20) := by
  have hneg : 2 * 2 ^ w ∣ σ * wrappedQuotient raw offset gain - σ * quotient raw offset gain ↔
      2 * 2 ^ w ∣ quotient raw offset gain - wrappedQuotient raw offset gain := by
    rw [← mul_sub, ← Int.dvd_neg (b := quotient raw offset gain - _), neg_sub]
    rcases hσ with rfl | rfl
    · rw [one_mul]
    · rw [neg_one_mul, Int.dvd_neg]
  have hzero : gain = 0 ↔ gain.toInt = 0 := by
    rw [← BitVec.toInt_inj]
    rfl
  obtain ⟨hd0, hd1⟩ := difference_bounds raw offset
  obtain ⟨habove, hbelow, hin⟩ := toInt_difference raw offset
  rw [hneg, hzero]
  unfold quotient wrappedQuotient at *
  generalize (raw - offset).toInt = e at *
  generalize raw.toInt - offset.toInt = d at *
  generalize gain.toInt = g at *
  have hH : (0 : ℤ) < 2 ^ w := by positivity
  generalize (2 : ℤ) ^ w = H at *
  have hF : (0 : ℤ) < 2 ^ 20 := by norm_num
  have hqlo : -H ≤ d * g / 2 ^ 20 ∧ d * g / 2 ^ 20 ≤ H := by
    rcases hσ with rfl | rfl
    · constructor <;> linarith
    · constructor <;> linarith
  by_cases hg : g = 0
  · subst hg
    simp
  rcases lt_or_ge d (-H) with hlt | hge
  · rw [hbelow hlt]
    have hno := lap_below hF hd0 hlt hg rfl rfl hqlo.1 hqlo.2
    refine iff_of_false hno ?_
    rintro (⟨h, -⟩ | h | ⟨h, -⟩)
    · omega
    · exact hg h
    · omega
  rcases lt_or_ge d H with hlt | hgt
  · rw [hin hge hlt, sub_self]
    exact iff_of_true (dvd_zero _) (.inl ⟨hge, hlt⟩)
  · rw [habove hgt]
    constructor
    · intro hdvd
      obtain ⟨hdH, hcase⟩ := lap_above hH hF hgt hd1 hg rfl rfl hqlo.1 hqlo.2 hdvd
      refine .inr (.inr ⟨hdH, ?_⟩)
      rcases hcase with ⟨hgF, hq⟩ | ⟨hgF, hq⟩
      · rcases hσ with rfl | rfl
        · omega
        · rw [hgF]
          ring
      · rcases hσ with rfl | rfl
        · rw [hgF]
          ring
        · omega
    · rintro (⟨-, h⟩ | h | ⟨rfl, rfl⟩)
      · omega
      · exact absurd h hg
      · -- the quotients are `-σ * H` and `σ * H`
        have hdiv : ∀ x : ℤ, x * (-σ * 2 ^ 20) / 2 ^ 20 = x * -σ := by
          intro x
          rw [← mul_assoc]
          exact Int.mul_ediv_cancel _ hF.ne'
        rw [hdiv, hdiv]
        exact ⟨-σ, by ring⟩

/-- The wrapped result is the limited one exactly where `Fits` says. -/
theorem wrapped_eq_clampS_iff {σ : ℤ} (hσ : σ = 1 ∨ σ = -1) (raw offset : BitVec (w + 1))
    (gain : BitVec 24) :
    (σ * wrappedQuotient raw offset gain).bmod (2 ^ (w + 1)) =
      clampS (w + 1) (σ * quotient raw offset gain) ↔ Fits σ raw offset gain := by
  obtain ⟨hmax, hmin⟩ := bmod_eq_limit_iff w (σ * wrappedQuotient raw offset gain)
  simp only [Fits, Nat.add_sub_cancel]
  split
  · next hge => rw [clampS_of_ge hge, hmax]
  · next hlt =>
    split
    · next hmin' => rw [clampS_of_lt hmin', hmin]
    · next hge =>
      rw [clampS_of_mem (not_lt.mp hge) (not_le.mp hlt),
        bmod_eq_iff_dvd (not_lt.mp hge) (not_le.mp hlt),
        dvd_quotients_iff hσ (not_lt.mp hge) (not_le.mp hlt)]

/-- For all readings, offsets and gains, and every conversion of the DCCTs and of the monitors. -/
theorem calibrated_iff {s : Stage Dcct 20} {inp : ℕ → In Dcct 20} (h : Converts s inp)
    {s' : Stage Mon 16} {inp' : ℕ → In Mon 16} (h' : Converts s' inp') (q : Dcct) (q' : Mon) :
    (PutsOut (trace dcct_gainoffset s inp 10) q
          (-quotient ((inp 1).raw q) ((inp 1).params.offset q) ((inp 2).params.gain q)) ↔
        Fits (-1) ((inp 1).raw q) ((inp 1).params.offset q) ((inp 2).params.gain q)) ∧
      (PutsOut (trace mon_gainoffset s' inp' 10) q'
          (quotient ((inp' 1).raw q') ((inp' 1).params.offset q') ((inp' 2).params.gain q')) ↔
        Fits 1 ((inp' 1).raw q') ((inp' 1).params.offset q') ((inp' 2).params.gain q')) := by
  constructor
  · obtain ⟨hdone, hout⟩ := trace_ten (-·) q h
    have hiff := wrapped_eq_clampS_iff (w := 19) (.inr rfl) ((inp 1).raw q)
      ((inp 1).params.offset q) ((inp 2).params.gain q)
    rw [neg_one_mul (quotient _ _ _)] at hiff
    rw [PutsOut, dcct_gainoffset, hdone, hout, toInt_dcct_out]
    simpa using hiff
  · obtain ⟨hdone, hout⟩ := trace_ten id q' h'
    have hiff := wrapped_eq_clampS_iff (w := 15) (.inl rfl) ((inp' 1).raw q')
      ((inp' 1).params.offset q') ((inp' 2).params.gain q')
    rw [one_mul (quotient _ _ _)] at hiff
    rw [PutsOut, mon_gainoffset, hdone, hout, id, toInt_mon_out]
    simpa using hiff

/-- Registers at zero. -/
def ready (ι : Type) (w : ℕ) : Stage ι w := ⟨.IDLE, false, 0, fun _ => 0, fun _ => 0, false⟩

/-- The same reading and gain everywhere, without an offset. -/
def steady (ι : Type) {w : ℕ} (raw : BitVec w) (gain : BitVec 24) : ℕ → In ι w :=
  fun _ => ⟨false, true, fun _ => raw, ⟨fun _ => gain, fun _ => 0⟩⟩

theorem converts_steady (ι : Type) {w : ℕ} (raw : BitVec w) (gain : BitVec 24) :
    Converts (ready ι w) (steady ι raw gain) := ⟨rfl, rfl, rfl, fun _ _ => rfl⟩

/-- A gain of 1. -/
theorem unity_calibrated :
    PutsOut (trace dcct_gainoffset (ready Dcct 20) (steady Dcct 300000 0x100000) 10) .dcct0
        (-300000) ∧
      PutsOut (trace mon_gainoffset (ready Mon 16) (steady Mon 20000 0x100000) 10) .ps_error
        20000 :=
  have hiff := calibrated_iff (converts_steady Dcct 300000 0x100000)
    (converts_steady Mon 20000 0x100000) .dcct0 .ps_error
  ⟨hiff.1.mpr (by decide), hiff.2.mpr (by decide)⟩

/-- With a gain of 2 a DCCT that should be at its lowest number is reported as 448576, and an error
signal that should be at its highest as -25536. -/
theorem doubled_wraps :
    (Converts (ready Dcct 20) (steady Dcct 300000 0x200000) ∧
      ((trace dcct_gainoffset (ready Dcct 20) (steady Dcct 300000 0x200000) 10).out .dcct0).toInt =
        448576 ∧
      ¬ PutsOut (trace dcct_gainoffset (ready Dcct 20) (steady Dcct 300000 0x200000) 10) .dcct0
        (-quotient (300000 : BitVec 20) 0 0x200000)) ∧
    Converts (ready Mon 16) (steady Mon 20000 0x200000) ∧
      ((trace mon_gainoffset (ready Mon 16) (steady Mon 20000 0x200000) 10).out .ps_error).toInt =
        -25536 ∧
      ¬ PutsOut (trace mon_gainoffset (ready Mon 16) (steady Mon 20000 0x200000) 10) .ps_error
        (quotient (20000 : BitVec 16) 0 0x200000) :=
  ⟨⟨converts_steady .., by decide, fun h => absurd h.2 (by decide)⟩, converts_steady .., by decide,
    fun h => absurd h.2 (by decide)⟩

end Zpsc.AdcGainOffset
