import Mathlib.Tactic.FieldSimp
import Zpsc.Control.LinearSmooth
import Zpsc.Dac.Proofs.SmoothLinearProofs

/-!
# Where a linear smooth ramp ends

The registers that `Calc_WriteLinearSmooth` writes make the sections of a ramp add up to the
distance between the setpoints, up to the rounding of the two step sizes (`level_last_eq`).
`rampout` is the floor of the sum, so the ramp lands on the new setpoint exactly when the rounding
errors together are in `[0, 2^48)`, provided that nothing is cut or wraps (`run_ends_iff_lands`).
-/

namespace Zpsc.Control

open Bits CConv Clocked SmoothLinear

/-! ## The registers -/

theorem append_extractLsb (x : BitVec 64) : x.extractLsb' 32 32 ++ x.extractLsb' 0 32 = x := by
  apply BitVec.eq_of_getLsbD_eq
  intro j hj
  rw [BitVec.getLsbD_append]
  by_cases h : j < 32
  · simp [h]
  · simp [h, show j - 32 < 32 by omega, show 32 + (j - 32) = j by omega]

theorem setWidth_ofInt_toInt (x : BitVec 20) : (BitVec.ofInt 32 x.toInt).setWidth 20 = x := by
  rw [setWidth_ofInt (by decide), BitVec.ofInt_toInt]

theorem guarded_eq {x : ℚ} (h : |x| < 2 ^ 31) :
    guarded x = some (if 512 ≤ |x| then 0 else x) := by
  have hlt : |trunc x| < 2 ^ 31 := by
    by_contra hno
    have := (le_abs_trunc (2 ^ 31) x).mp (not_lt.mp hno)
    push_cast at this
    linarith
  obtain ⟨h1, h2⟩ := abs_lt.mp hlt
  have hiff : 511 < |trunc x| ↔ 512 ≤ |x| := by
    have := le_abs_trunc 512 x
    push_cast at this
    rw [← this]
    omega
  rw [guarded, toS32, if_pos ⟨by omega, h2⟩]
  simp only [Option.bind_eq_bind, Option.bind_some, Option.pure_def, hiff]

theorem toInt_q16_48 {x : ℚ} (h : |x| < 512) : (q16_48 x).toInt = llround (x * 2 ^ 48) := by
  obtain ⟨hr, hr'⟩ := abs_le.mp (abs_llround_sub_le (x * 2 ^ 48))
  obtain ⟨hx, hx'⟩ := abs_lt.mp h
  rw [q16_48, BitVec.toInt_ofInt]
  generalize llround (x * 2 ^ 48) = n at *
  have h1 : ((-2 ^ 58 : ℤ) : ℚ) < n := by push_cast; linarith
  have h2 : (n : ℚ) < ((2 ^ 58 : ℤ) : ℚ) := by push_cast; linarith
  rw [Int.cast_lt] at h1 h2
  rw [Int.bmod_eq_of_le] <;> omega

/-- A step size after its guard, as the ramp reads it. -/
theorem toInt_q16_48_guarded (x : ℚ) :
    (q16_48 (if 512 ≤ |x| then 0 else x)).toInt =
      if 512 ≤ |x| then 0 else llround (x * 2 ^ 48) := by
  split
  · rw [toInt_q16_48 (by norm_num)]
    norm_num [llround]
  · next h => rw [toInt_q16_48 (not_le.mp h)]

theorem linearSmooth_eq {e : SmoothEnv} {cur new : ℤ} {r : LinearSmooth}
    (h : linearSmooth e cur new = some r) :
    0 < r.curved_pts.toNat ∧ 0 < (r.curved_pts + r.linear_pts).toNat ∧
      r.dy = (new - cur : ℤ) / ((r.curved_pts + r.linear_pts).toNat : ℚ) ∧
      r.dy_per_curve_pt = r.dy / (r.curved_pts.toNat : ℚ) := by
  simp only [linearSmooth, fdiv, Option.bind_eq_bind, Option.bind_eq_some_iff, Option.pure_def,
    Option.ite_none_left_eq_some, Option.some.injEq] at h
  obtain ⟨d, -, l, -, c, -, dy, ⟨hN, hdy⟩, q, ⟨hC, hq⟩, rfl⟩ := h
  refine ⟨Nat.pos_of_ne_zero ?_, Nat.pos_of_ne_zero ?_, hdy.symm, hq.symm⟩
  · exact fun h0 => hC (by simp only at h0; rw [h0]; rfl)
  · exact fun h0 => hN (by simp only at h0; rw [h0]; rfl)

theorem rampParams_writeRegs (rf : RegFile) (c : Chan) (l n : BitVec 32) (dy dypp : BitVec 64)
    (v : BitVec 32) :
    rampParams (writeRegs rf c (smoothWrites l n dy dypp v)) c = ⟨l, n, dy, dypp⟩ ∧
      (writeRegs rf c (smoothWrites l n dy dypp v)).chan c .dac_setpt = v.setWidth 20 := by
  simp only [writeRegs, smoothWrites, List.foldl, rampParams, RegFile.out32_chan]
  simp [ChanReg.width]
  exact ⟨append_extractLsb dy, append_extractLsb dypp⟩

/-! ## The sum of the steps of a ramp -/

section Travel

variable {D : ℤ} {C L : ℕ}

theorem guard_iff {x : ℚ} {D : ℤ} {n : ℕ} (hn : 0 < n) (hx : x = D / n) :
    512 ≤ |x| ↔ 512 * (n : ℤ) ≤ |D| := by
  have hn' : (0 : ℚ) < n := by exact_mod_cast hn
  rw [hx, abs_div, abs_of_pos hn', le_div_iff₀ hn']
  exact_mod_cast Iff.rfl

theorem even_mul_pred (n : ℤ) : 2 * (n * (n - 1) / 2) = n * (n - 1) :=
  Int.mul_ediv_cancel' (Int.even_mul_pred_self n).two_dvd

theorem even_mul_succ (n : ℤ) : 2 * (n * (n + 1) / 2) = n * (n + 1) :=
  Int.mul_ediv_cancel' (Int.even_mul_succ_self n).two_dvd

/-- A run whose registers hold the step sizes of a ramp covers `travel`. -/
theorem level_last_eq {p : Params} {v : ℤ} (hC : p.curved_len.toNat = C)
    (hL : p.linear_len.toNat = L)
    (hP : p.dy_per_pt.toInt =
      if 512 * (((C + L) % 2 ^ 32 : ℕ) * C : ℤ) ≤ |D| then 0 else curvedStep D ((C + L) % 2 ^ 32) C)
    (hQ : p.dy.toInt =
      if 512 * (((C + L) % 2 ^ 32 : ℕ) : ℤ) ≤ |D| then 0 else linearStep D ((C + L) % 2 ^ 32)) :
    p.level v p.last = v + travel D C L := by
  have hc : p.c = signed32 C := by rw [Params.c, signed32, ← hC, BitVec.ofNat_toNat]; simp
  have hcl : p.cl = signed32 (C + L) := by
    rw [Params.cl, signed32, ← hC, ← hL, BitVec.ofNat_add]
    simp
  have htl : p.tl = signed32 (2 * C + L) := by
    rw [Params.tl, signed32, two_mul, ← hC, ← hL, BitVec.ofNat_add, BitVec.ofNat_add]
    simp
  have h := two_mul_level_last p v
  rw [hP, hQ, hc, hcl, htl] at h
  simp only [travel]
  rw [← even_mul_pred, ← even_mul_succ] at h
  linarith

theorem signed32_of_lt {n : ℕ} (h : n < 2 ^ 31) : signed32 n = n := toInt_ofNat_lt h

theorem travel_short (h : 2 * C + L < 2 ^ 31) :
    travel D C L =
      C ^ 2 * (if 512 * ((C + L : ℕ) * C : ℤ) ≤ |D| then 0 else curvedStep D (C + L) C) +
        L * (if 512 * ((C + L : ℕ) : ℤ) ≤ |D| then 0 else linearStep D (C + L)) := by
  have hN : (C + L) % 2 ^ 32 = C + L := Nat.mod_eq_of_lt (by omega)
  have h1 : max 0 (signed32 C) = C := by rw [signed32_of_lt (by omega)]; omega
  have h2 : max 0 (signed32 (C + L) - C) = L := by rw [signed32_of_lt (by omega)]; omega
  have h3 : max 0 (signed32 (2 * C + L) - (C + L)) = C := by rw [signed32_of_lt (by omega)]; omega
  simp only [travel, hN, h1, h2, h3]
  refine mul_left_cancel₀ (two_ne_zero (α := ℤ)) ?_
  generalize (if 512 * ((C + L : ℕ) * C : ℤ) ≤ |D| then 0 else curvedStep D (C + L) C) = P
  generalize (if 512 * ((C + L : ℕ) : ℤ) ≤ |D| then 0 else linearStep D (C + L)) = Q
  calc 2 * (P * (C * (C - 1) / 2) + Q * L + P * (C * (C + 1) / 2))
      = P * (2 * (C * (C - 1) / 2)) + 2 * (Q * L) + P * (2 * (C * (C + 1) / 2)) := by ring
    _ = P * (C * (C - 1)) + 2 * (Q * L) + P * (C * (C + 1)) := by
        rw [even_mul_pred, even_mul_succ]
    _ = 2 * (C ^ 2 * P + L * Q) := by ring

/-! ## Rounding errors -/

theorem curvedStep_eq (D : ℤ) (N C : ℕ) : curvedStep D N C = linearStep D (N * C) := by
  rw [curvedStep, linearStep, div_div]
  push_cast
  rfl

theorem linearStep_error {N : ℕ} (hN : 0 < N) :
    |2 * (N * linearStep D N) - 2 * (D * 2 ^ 48)| ≤ (N : ℤ) := by
  have hN' : (0 : ℚ) < N := by exact_mod_cast hN
  have h := abs_llround_sub_le ((D : ℚ) / N * 2 ^ 48)
  have he : (2 * (N * linearStep D N) - 2 * (D * 2 ^ 48) : ℚ) =
      2 * N * (linearStep D N - D / N * 2 ^ 48) := by
    field_simp
  have hb : |(2 * (N * linearStep D N) - 2 * (D * 2 ^ 48) : ℚ)| ≤ N := by
    rw [he, abs_mul, abs_of_pos (by linarith : (0 : ℚ) < 2 * N)]
    calc 2 * (N : ℚ) * |(linearStep D N : ℚ) - D / N * 2 ^ 48|
        ≤ 2 * (N : ℚ) * (1 / 2) := mul_le_mul_of_nonneg_left h (by linarith)
      _ = N := by ring
  exact_mod_cast hb

/-- The rounding errors of all steps are together at most half the number of roundings. -/
theorem two_mul_abs_drift_le (hC : 0 < C) : 2 * |drift D C L| ≤ C ^ 2 + L := by
  have hN : (0 : ℤ) < C + L := by omega
  have hP := linearStep_error (D := D) (N := (C + L) * C) (Nat.mul_pos (by omega) hC)
  have hQ := linearStep_error (D := D) (N := C + L) (by omega)
  rw [← curvedStep_eq] at hP
  set P := curvedStep D (C + L) C
  set Q := linearStep D (C + L)
  have he : 2 * (C + L) * drift D C L =
      C * (2 * (((C + L) * C : ℕ) * P) - 2 * (D * 2 ^ 48)) +
        L * (2 * ((C + L : ℕ) * Q) - 2 * (D * 2 ^ 48)) := by
    simp only [drift]
    push_cast
    ring
  have hb : |2 * (C + L) * drift D C L| ≤ (C + L) * (C ^ 2 + L) := by
    rw [he]
    calc _ ≤ |(C : ℤ) * (2 * (((C + L) * C : ℕ) * P) - 2 * (D * 2 ^ 48))| +
          |(L : ℤ) * (2 * ((C + L : ℕ) * Q) - 2 * (D * 2 ^ 48))| := abs_add_le _ _
      _ ≤ (C : ℤ) * ((C + L) * C : ℕ) + (L : ℤ) * (C + L : ℕ) := by
          rw [abs_mul, abs_mul, Nat.abs_cast, Nat.abs_cast]
          exact add_le_add (mul_le_mul_of_nonneg_left hP (by omega))
            (mul_le_mul_of_nonneg_left hQ (by omega))
      _ = (C + L) * (C ^ 2 + L) := by push_cast; ring
  rw [abs_mul, abs_of_pos (by omega : (0 : ℤ) < 2 * (C + L))] at hb
  exact le_of_mul_le_mul_left (by linarith) hN

/-! ## Short ramps -/

theorem new_sub_cur (cur new : BitVec 20) : |new.toInt - cur.toInt| < 2 ^ 20 := by
  have h1 := @BitVec.toInt_lt 20 new
  have h2 := @BitVec.le_toInt 20 new
  have h3 := @BitVec.toInt_lt 20 cur
  have h4 := @BitVec.le_toInt 20 cur
  rw [abs_lt]
  omega

theorem not_lands_of_curved_cut {cur new : BitVec 20} (hC : 0 < C)
    (h : 512 * ((C + L : ℕ) * C : ℤ) ≤ |new.toInt - cur.toInt|) :
    codeOf (startLevel cur) ≠ new := by
  have h3 := @BitVec.toInt_lt 20 cur
  have h4 := @BitVec.le_toInt 20 cur
  have hpos : (0 : ℤ) < (C + L : ℕ) * C := by
    have : 0 < (C + L) * C := Nat.mul_pos (by omega) hC
    exact_mod_cast this
  rw [le_abs] at h
  rw [Ne, codeOf_eq_iff
    (Or.inl ⟨by simp only [startLevel]; omega, by simp only [startLevel]; omega⟩)]
  simp only [startLevel]
  omega

theorem curvedStep_neg (D : ℤ) (N C : ℕ) : curvedStep (-D) N C = -curvedStep D N C := by
  rw [curvedStep, curvedStep, ← llround_neg]
  congr 1
  push_cast
  ring

/-- With the linear step cut to 0 the curved sections cover at least 511 codes less than `D`. -/
theorem curved_sum_le (hC : 0 < C) (hL : 0 < L) (h : 512 * ((C + L : ℕ) : ℤ) ≤ D)
    (hD : D < 2 ^ 20) :
    0 ≤ C ^ 2 * curvedStep D (C + L) C ∧
      C ^ 2 * curvedStep D (C + L) C ≤ (D - 511) * 2 ^ 48 := by
  have hN : (0 : ℤ) < (C + L : ℕ) := by omega
  have hP := linearStep_error (D := D) (N := (C + L) * C) (Nat.mul_pos (by omega) hC)
  rw [← curvedStep_eq] at hP
  have hnonneg : 0 ≤ curvedStep D (C + L) C := by
    refine llround_nonneg ?_
    have : (0 : ℚ) ≤ D := by exact_mod_cast (by omega : 0 ≤ D)
    positivity
  set P := curvedStep D (C + L) C
  refine ⟨by positivity, ?_⟩
  have hC' : (C : ℤ) ^ 2 ≤ 2 ^ 22 := by
    have : (C : ℤ) ≤ 2 ^ 11 := by omega
    calc (C : ℤ) ^ 2 ≤ (2 ^ 11) ^ 2 := pow_le_pow_left₀ (by omega) this 2
      _ = 2 ^ 22 := by norm_num
  -- the sections miss `D * L / N` codes, and `D` is at least `512 * N`
  have hmiss : 512 * ((C + L : ℕ) : ℤ) * 1 ≤ D * L :=
    mul_le_mul h (by omega) (by omega) (by omega)
  have hup : 2 * (((C + L) * C : ℕ) * P) ≤ 2 * (D * 2 ^ 48) + ((C + L) * C : ℕ) := by
    have := (abs_le.mp hP).2
    linarith
  have hmul := mul_le_mul_of_nonneg_left hup (by omega : (0 : ℤ) ≤ C)
  have hDC : D * C = D * (C + L : ℕ) - D * L := by push_cast; ring
  have hN2 : (C + L : ℕ) * (2 * (C ^ 2 * P)) ≤
      ((C + L : ℕ) : ℤ) * (2 * ((D - 512) * 2 ^ 48) + C ^ 2) := by
    calc ((C + L : ℕ) : ℤ) * (2 * (C ^ 2 * P)) = C * (2 * (((C + L) * C : ℕ) * P)) := by
          push_cast; ring
      _ ≤ C * (2 * (D * 2 ^ 48) + ((C + L) * C : ℕ)) := hmul
      _ = 2 * 2 ^ 48 * (D * C) + (C + L : ℕ) * C ^ 2 := by push_cast; ring
      _ ≤ 2 * 2 ^ 48 * (D * (C + L : ℕ) - 512 * (C + L : ℕ)) + (C + L : ℕ) * C ^ 2 := by
          rw [hDC]; linarith
      _ = _ := by ring
  have := le_of_mul_le_mul_left hN2 hN
  linarith

theorem not_lands_of_linear_cut {cur new : BitVec 20} (hC : 0 < C) (hL : 0 < L)
    (h : 512 * ((C + L : ℕ) : ℤ) ≤ |new.toInt - cur.toInt|) :
    codeOf (startLevel cur + C ^ 2 * curvedStep (new.toInt - cur.toInt) (C + L) C) ≠ new := by
  have h1 := @BitVec.toInt_lt 20 new
  have h2 := @BitVec.le_toInt 20 new
  have h3 := @BitVec.toInt_lt 20 cur
  have h4 := @BitVec.le_toInt 20 cur
  rcases le_abs.mp h with hD | hD
  · have hb := curved_sum_le hC hL hD (by omega)
    generalize (C : ℤ) ^ 2 * curvedStep (new.toInt - cur.toInt) (C + L) C = W at *
    simp only [startLevel]
    rw [Ne, codeOf_eq_iff (Or.inl (by omega))]
    omega
  · have hb := curved_sum_le hC hL hD (by omega)
    rw [curvedStep_neg, mul_neg] at hb
    generalize (C : ℤ) ^ 2 * curvedStep (new.toInt - cur.toInt) (C + L) C = W at *
    simp only [startLevel]
    rw [Ne, codeOf_eq_iff (Or.inl (by omega))]
    omega

/-- A short ramp whose steps are not cut covers the distance, up to the rounding errors. -/
theorem travel_eq_drift (h : 2 * C + L < 2 ^ 31) (hcut : ¬ 512 * ((C + L : ℕ) * C : ℤ) ≤ |D|)
    (hlin : L = 0 ∨ ¬ 512 * ((C + L : ℕ) : ℤ) ≤ |D|) : travel D C L = D * 2 ^ 48 + drift D C L := by
  have hQ : (L : ℤ) * (if 512 * ((C + L : ℕ) : ℤ) ≤ |D| then 0 else linearStep D (C + L)) =
      L * linearStep D (C + L) := by
    rcases hlin with h0 | hno
    · simp [h0]
    · rw [if_neg hno]
  rw [travel_short h, if_neg hcut, hQ, drift]
  ring

theorem short_lands_iff {cur new : BitVec 20} (hC : 0 < C) (h : 2 * C + L < 2 ^ 31) :
    codeOf (startLevel cur + travel (new.toInt - cur.toInt) C L) = new ↔
      ShortLands (new.toInt - cur.toInt) C L := by
  set D := new.toInt - cur.toInt with hD
  by_cases hcut : 512 * ((C + L : ℕ) * C : ℤ) ≤ |D|
  · -- nothing moves
    rw [travel_short h]
    have hN : ((C + L : ℕ) : ℤ) * 1 ≤ (C + L : ℕ) * C :=
      mul_le_mul_of_nonneg_left (by omega) (by omega)
    rw [if_pos hcut, if_pos (by linarith), mul_zero, mul_zero, add_zero, add_zero]
    refine iff_of_false (not_lands_of_curved_cut hC hcut) ?_
    intro hs
    have := hs.curved
    push_cast at hcut
    linarith
  · by_cases hlin : 0 < L ∧ 512 * ((C + L : ℕ) : ℤ) ≤ |D|
    · rw [travel_short h, if_neg hcut, if_pos hlin.2, mul_zero, add_zero]
      refine iff_of_false (not_lands_of_linear_cut hC hlin.1 hlin.2) ?_
      intro hs
      have := hs.linear
      have := hlin.2
      push_cast at this
      omega
    · have hsum : startLevel cur + travel D C L - new.toInt * 2 ^ 48 = drift D C L := by
        rw [travel_eq_drift h hcut (by omega), startLevel, hD]
        ring
      have hsmall : |drift D C L| < 2 ^ 66 := by
        have hC2 : (C : ℤ) ^ 2 ≤ (2 ^ 30) ^ 2 := pow_le_pow_left₀ (by omega) (by omega) 2
        have := two_mul_abs_drift_le (D := D) (L := L) hC
        omega
      rw [codeOf_eq_iff (Or.inr (by rw [hsum]; exact hsmall)), hsum]
      constructor
      · rintro ⟨h0, h1⟩
        refine ⟨?_, ?_, h0, h1⟩
        · push_cast at hcut
          linarith
        · push_cast at hlin
          omega
      · exact fun hs => ⟨hs.drift_nonneg, hs.drift_lt⟩

end Travel

/-! ## The end of a run -/

/-- What `Calc_WriteLinearSmooth` writes, and that a run with it covers `travel`. -/
theorem calc_write_shape {e : SmoothEnv} {cur new : BitVec 20} {r : LinearSmooth}
    (h : linearSmooth e cur.toInt new.toInt = some r) :
    ∃ dy dypp, Calc_WriteLinearSmooth e cur.toInt new.toInt =
        some (smoothWrites r.linear_pts r.curved_pts dy dypp (BitVec.ofInt 32 new.toInt)) ∧
      ∀ v, (⟨r.linear_pts, r.curved_pts, dy, dypp⟩ : Params).level v
          (⟨r.linear_pts, r.curved_pts, dy, dypp⟩ : Params).last =
        v + travel (new.toInt - cur.toInt) r.curved_pts.toNat r.linear_pts.toNat := by
  obtain ⟨hC, hN, hdy, hdypp⟩ := linearSmooth_eq h
  have hD := new_sub_cur cur new
  set D := new.toInt - cur.toInt
  set N := (r.curved_pts + r.linear_pts).toNat with hNdef
  have hNeq : (r.curved_pts.toNat + r.linear_pts.toNat) % 2 ^ 32 = N := by
    rw [hNdef, BitVec.toNat_add]
  have hdypp' : r.dy_per_curve_pt = D / ((N * r.curved_pts.toNat : ℕ) : ℚ) := by
    rw [hdypp, hdy, div_div]
    push_cast
    rfl
  have hsmall : ∀ {x : ℚ} {n : ℕ}, 0 < n → x = D / n → |x| < 2 ^ 31 := by
    intro x n hn hx
    have hn' : (1 : ℚ) ≤ n := by exact_mod_cast hn
    have hDq : |(D : ℚ)| < 2 ^ 20 := by exact_mod_cast hD
    rw [hx, abs_div, abs_of_pos (by linarith : (0 : ℚ) < n), div_lt_iff₀ (by linarith)]
    linarith
  have hpos : 0 < N * r.curved_pts.toNat := Nat.mul_pos hN hC
  set dy := if 512 ≤ |r.dy| then 0 else r.dy with hdyg
  set dypp := if 512 ≤ |r.dy_per_curve_pt| then 0 else r.dy_per_curve_pt with hdyppg
  refine ⟨q16_48 dy, q16_48 dypp, ?_, fun v => level_last_eq rfl rfl ?_ ?_⟩
  · simp only [Calc_WriteLinearSmooth, h, guarded_eq (hsmall hN hdy),
      guarded_eq (hsmall hpos hdypp'), Option.bind_eq_bind, Option.bind_some, Option.pure_def]
    rfl
  · have hcut := guard_iff hpos hdypp'
    push_cast at hcut
    rw [hdyppg, toInt_q16_48_guarded, hNeq, curvedStep, ← hdy, ← hdypp]
    simp only [hcut]
  · rw [hdyg, toInt_q16_48_guarded, hNeq, linearStep, ← hdy]
    simp only [guard_iff hN hdy]

/-- The registers after `Calc_WriteLinearSmooth` make a run cover `travel`. -/
theorem calc_write_eq {e : SmoothEnv} {cur new : BitVec 20} {r : LinearSmooth}
    (h : linearSmooth e cur.toInt new.toInt = some r) (rf : RegFile) (c : Chan) :
    ∃ ws, Calc_WriteLinearSmooth e cur.toInt new.toInt = some ws ∧
      (writeRegs rf c ws).chan c .dac_setpt = new ∧
      ∀ v, (rampParams (writeRegs rf c ws) c).level v (rampParams (writeRegs rf c ws) c).last =
        v + travel (new.toInt - cur.toInt) r.curved_pts.toNat r.linear_pts.toNat := by
  obtain ⟨dy, dypp, hws, hlevel⟩ := calc_write_shape h
  obtain ⟨hp, hv⟩ := rampParams_writeRegs rf c r.linear_pts r.curved_pts dy dypp
    (BitVec.ofInt 32 new.toInt)
  refine ⟨_, hws, hv.trans (setWidth_ofInt_toInt new), ?_⟩
  intro v
  rw [hp]
  exact hlevel v

/-- All undisturbed runs end alike. -/
theorem landsOn_iff_code {p : Params} {cur new : BitVec 20} :
    LandsOn p cur new ↔ codeOf (p.level (startLevel cur) p.last) = new := by
  constructor
  · intro h
    have hready : ∃ x : BitVec 20, x ≠ new := by
      by_cases h0 : new = 0
      · exact ⟨1, by rw [h0]; decide⟩
      · exact ⟨0, Ne.symm h0⟩
    obtain ⟨x, hx⟩ := hready
    have hs : Ready new ⟨.IDLE, 0, x, 0, 0, 0, 0, 0, false⟩ := ⟨rfl, hx⟩
    have hinp : Undisturbed p cur new
        fun _ => ⟨false, true, 0, cur, new, p.linear_len, p.curved_len, p.dy, p.dy_per_pt⟩ :=
      ⟨rfl, rfl, rfl, fun _ => ⟨rfl, rfl, rfl, rfl, rfl⟩, fun t => ⟨t, le_rfl, rfl⟩⟩
    exact (run_ends hs hinp).unique (h _ _ hs hinp)
  · intro h s inp hs hinp
    rw [← h]
    exact run_ends hs hinp

/-- The registers that `Calc_WriteLinearSmooth` writes make a run from the current setpoint land on
the new one exactly under `Lands`. -/
theorem run_ends_iff_lands (e : SmoothEnv) (rf : RegFile) (c : Chan) (cur new : BitVec 20)
    (r : LinearSmooth) (h : linearSmooth e cur.toInt new.toInt = some r) :
    ∃ ws, Calc_WriteLinearSmooth e cur.toInt new.toInt = some ws ∧
      (writeRegs rf c ws).chan c .dac_setpt = new ∧
      (LandsOn (rampParams (writeRegs rf c ws) c) cur new ↔
        Lands cur new r.curved_pts.toNat r.linear_pts.toNat) := by
  obtain ⟨ws, hws, hsetpt, hlevel⟩ := calc_write_eq h rf c
  refine ⟨ws, hws, hsetpt, ?_⟩
  rw [landsOn_iff_code, hlevel]
  have hC := (linearSmooth_eq h).1
  simp only [Lands]
  by_cases hshort : 2 * r.curved_pts.toNat + r.linear_pts.toNat < 2 ^ 31
  · rw [short_lands_iff hC hshort]
    constructor
    · exact fun hs => Or.inl ⟨hshort, hs⟩
    · rintro (⟨-, hs⟩ | ⟨hlong, -⟩)
      · exact hs
      · omega
  · constructor
    · exact fun hs => Or.inr ⟨by omega, hs⟩
    · rintro (⟨hs, -⟩ | ⟨-, hs⟩)
      · exact absurd hs hshort
      · exact hs

/-- A channel with 20-bit DAC and a ramp rate of `52428.8 / dac_dccts` bits per second. -/
def rateEnv (dac_dccts : ℚ) (percent : BitVec 8) : SmoothEnv where
  scalefactors := ⟨1, dac_dccts, 1, 1, 1⟩
  CONVVOLTSTODACBITS := CONVVOLTSTO20BITS
  smoothramp_percentcurved := percent
  maindipole_mode := 0

/-- From 0 to 4096 with step sizes that need no rounding. -/
theorem exact_steps_land :
    ∃ ws, Calc_WriteLinearSmooth (rateEnv (16384 / 100000) 50) 0 4096 = some ws ∧
      LandsOn (rampParams (writeRegs .zeros .ps1 ws) .ps1) 0 4096 := by
  obtain ⟨ws, hws, -, hlands⟩ := run_ends_iff_lands (rateEnv (16384 / 100000) 50) .zeros .ps1 0 4096
    ⟨0, 64, 64, 1⟩ (by decide +kernel)
  refine ⟨ws, hws, hlands.mpr (Or.inl ⟨by decide, ?_⟩)⟩
  constructor
  · decide +kernel
  · exact Or.inl rfl
  · decide +kernel
  · decide +kernel

/-- A channel with 20-bit DAC and scale factor 1 that ramps by 1000 A/s, 10 percent curved. -/
def fastEnv : SmoothEnv := { rateEnv 1 10 with scalefactors := ⟨1000, 1, 1, 1, 1⟩ }

/-- From 0 to full scale in 97 points: both step sizes are above 511 codes and written as 0, and the
ramp never leaves 0. -/
theorem full_scale_misses :
    fastEnv.ramp_rate = some 52428800 ∧
    linearSmooth fastEnv 0 524287 = some ⟨79, 9, 524287 / 88, 524287 / 792⟩ ∧
    Calc_WriteLinearSmooth fastEnv 0 524287 = some (smoothWrites 79 9 0 0 524287) ∧
    ¬ LandsOn (rampParams (writeRegs .zeros .ps1 (smoothWrites 79 9 0 0 524287)) .ps1) 0 524287 := by
  have hcalc : linearSmooth fastEnv (0#20).toInt (524287#20).toInt =
      some ⟨79, 9, 524287 / 88, 524287 / 792⟩ := by decide +kernel
  have hwrites : Calc_WriteLinearSmooth fastEnv (0#20).toInt (524287#20).toInt =
      some (smoothWrites 79 9 0 0 524287) := by decide +kernel
  refine ⟨by decide +kernel, hcalc, hwrites, ?_⟩
  obtain ⟨ws, hws, -, hlevel⟩ := calc_write_eq hcalc .zeros .ps1
  obtain rfl : ws = smoothWrites 79 9 0 0 524287 := Option.some.inj (hws.symm.trans hwrites)
  intro hlands
  rw [landsOn_iff_code, hlevel] at hlands
  -- more than 512 codes a step in the curved sections already
  have hcut : ¬ |(524287 : ℤ)| < 512 * (9 + 79) * 9 := by decide
  exact hcut ((short_lands_iff (by decide) (by decide)).mp hlands).curved

end Zpsc.Control
