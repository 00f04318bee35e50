import Zpsc.Control.ChanSettings

/-!
# Which protection parameters arrive

Up to the write all messages are alike (`chan_settings_eq`), and up to the register every field but
the DCCT count limit is (`limit_eq`). What is left is the arithmetic of the low bits of a word
(`toNat_word`) and of `abs` (`toInt_sabs`).
-/

namespace Bits

theorem toInt_sabs {w : ℕ} (x : BitVec w) :
    (sabs x).toInt =
      if 2 * x.toNat < 2 ^ w then (x.toNat : ℤ)
      else if 2 * x.toNat = 2 ^ w then -(x.toNat : ℤ)
      else 2 ^ w - x.toNat := by
  have hx := x.isLt
  have hpow : ((2 ^ w : ℕ) : ℤ) = 2 ^ w := by push_cast; rfl
  rw [← hpow, sabs]
  by_cases hm : x.msb = true
  · have hge := BitVec.msb_eq_true_iff_two_mul_ge.mp hm
    have hneg : (-x).toNat = 2 ^ w - x.toNat := by
      rw [BitVec.toNat_neg, Nat.mod_eq_of_lt (by omega)]
    rw [if_pos hm, if_neg (by omega), BitVec.toInt_eq_toNat_cond, hneg]
    split <;> split <;> omega
  · have hlt := BitVec.msb_eq_false_iff_two_mul_lt.mp (Bool.eq_false_iff.mpr hm)
    rw [if_neg hm, if_pos hlt, BitVec.toInt_eq_toNat_cond, if_pos hlt]

end Bits

namespace Zpsc.Control

open Bits CConv

variable {sf : Chan → ScaleFactorType} {conv : ℚ} {rf : RegFile} {c : Chan} {m : ProtMsg} {v : ℚ}

/-! ## The write -/

theorem requested_nonneg (m : ProtMsg) (s : ScaleFactorType) (conv : ℚ) (hv : 0 ≤ v) :
    0 ≤ m.requested s conv v := by
  cases m <;> first | exact abs_nonneg _ | exact mul_nonneg hv (by norm_num [SAMPLERATE])

theorem threshVal_eq {s : ℚ} (hs : s ≠ 0) (k : ℚ) : threshVal k s v = some |v * k / s| := by
  rw [threshVal, fdiv, if_neg (abs_ne_zero.mpr hs), abs_div]

theorem scaledVal_eq (hs : m.scalefactor (sf c) ≠ 0) :
    scaledVal (sf c) conv v m = some (m.requested (sf c) conv v) := by
  cases m <;> first | exact threshVal_eq hs _ | rfl

theorem chan_settings_eq (conv : ℚ) (rf : RegFile) (hv : 0 ≤ v) (hs : m.scalefactor (sf c) ≠ 0) :
    chan_settings sf conv rf c m.addr v =
      if trunc (m.requested (sf c) conv v) < 2 ^ 31 then
        some (rf.out32 (chanAddr c m.reg)
          (BitVec.ofInt 32 (clampVal m (trunc (m.requested (sf c) conv v)))))
      else none := by
  have h0 := trunc_nonneg (requested_nonneg m (sf c) conv hv)
  simp only [chan_settings, ProtMsg.ofAddr_addr, scaledVal_eq hs, Option.bind_eq_bind,
    Option.bind_some, toS32]
  by_cases h : trunc (m.requested (sf c) conv v) < 2 ^ 31
  · rw [if_pos h, if_pos ⟨by omega, h⟩]
    rfl
  · rw [if_neg h, if_neg fun hh => h hh.2]
    rfl

/-! ## The fields -/

/-- The number that `fault_block` makes of a register. -/
def Field.val {w : ℕ} (x : BitVec w) : Field → ℤ
  | .count => x.toNat
  | _ => (sabs x).toInt

theorem reg_inj {m m' : ProtMsg} (h : m.reg = m'.reg) : m = m' := by
  cases m <;> cases m' <;> first | rfl | exact absurd h (by decide)

/-- Every field but the DCCT count limit is the register of its message. -/
theorem limit_eq (hm : m ≠ .DCCT_CNTLIM_MSG) (u : BitVec 16) :
    m.limit (PsIo.faultParams rf u c) = m.field.val (rf.chan c m.reg) := by
  cases m <;> first | rfl | exact absurd rfl hm

/-- A message leaves the limits of all others alone. -/
theorem limit_out32_of_ne (u : BitVec 16) (x : BitVec 32) {c' : Chan} {m' : ProtMsg}
    (h : ¬ (c' = c ∧ m' = m)) :
    m'.limit (PsIo.faultParams (rf.out32 (chanAddr c m.reg) x) u c') =
      m'.limit (PsIo.faultParams rf u c') := by
  by_cases hd : m' = .DCCT_CNTLIM_MSG
  · subst hd
    rfl
  · rw [limit_eq hd, limit_eq hd, RegFile.out32_chan, if_neg]
    exact fun hh => h ⟨hh.1, reg_inj hh.2⟩

theorem toNat_word {z : ℤ} (h0 : 0 ≤ z) (h : z < 2 ^ 31) (w : ℕ) :
    (((BitVec.ofInt 32 z).setWidth w).toNat : ℤ) = z % 2 ^ w := by
  have hz : (BitVec.ofInt 32 z).toNat = z.toNat := by
    rw [BitVec.toNat_ofInt]
    omega
  rw [BitVec.toNat_setWidth, hz]
  push_cast
  rw [Int.toNat_of_nonneg h0]

theorem limit_out32 (hm : m ≠ .DCCT_CNTLIM_MSG) (u : BitVec 16) (x : BitVec 32) :
    m.limit (PsIo.faultParams (rf.out32 (chanAddr c m.reg) x) u c) =
      m.field.val (x.setWidth m.reg.width) := by
  rw [limit_eq hm, RegFile.out32_chan, if_pos ⟨rfl, rfl⟩]

theorem toInt_sabs_word {z : ℤ} (h0 : 0 ≤ z) (h : z < 2 ^ 31) (w : ℕ) :
    (sabs ((BitVec.ofInt 32 z).setWidth w)).toInt =
      if 2 * (z % 2 ^ w) < 2 ^ w then z % 2 ^ w
      else if 2 * (z % 2 ^ w) = 2 ^ w then -(z % 2 ^ w)
      else 2 ^ w - z % 2 ^ w := by
  have hw := toNat_word h0 h w
  have hlt : 2 * ((BitVec.ofInt 32 z).setWidth w).toNat < 2 ^ w ↔ 2 * (z % 2 ^ w) < 2 ^ w := by
    rw [← hw]
    exact_mod_cast Iff.rfl
  have heq : 2 * ((BitVec.ofInt 32 z).setWidth w).toNat = 2 ^ w ↔ 2 * (z % 2 ^ w) = 2 ^ w := by
    rw [← hw]
    exact_mod_cast Iff.rfl
  rw [toInt_sabs, hw]
  simp only [hlt, heq]

def Field.width : Field → ℕ
  | .thresh20 => 20
  | _ => 16

theorem reg_width (m : ProtMsg) : m.reg.width = m.field.width := by
  cases m <;> rfl

theorem clamped_iff (m : ProtMsg) : m.clamped = true ↔ m.field = .thresh16 := by
  cases m <;> decide

/-- A request below `2^31` gives the requested limit exactly when it fits. -/
theorem val_word_eq_iff (hm : m ≠ .DCCT_CNTLIM_MSG) {t : ℤ} (h0 : 0 ≤ t) (h : t < 2 ^ 31) :
    m.field.val ((BitVec.ofInt 32 (clampVal m t)).setWidth m.reg.width) =
      min t m.field.largest ↔ m.Fits t := by
  have hpos : 0 ≤ clampVal m t := by rw [clampVal]; split <;> omega
  have hlt : clampVal m t < 2 ^ 31 := by rw [clampVal]; split <;> omega
  have hwidth := reg_width m
  have hclamp := clamped_iff m
  simp only [ProtMsg.Fits, ne_eq, hm, not_false_eq_true, true_and]
  cases hf : m.field <;> simp only [hf, Field.width] at hwidth hclamp
  case thresh20 =>
    have hval : clampVal m t = t := if_neg fun hc => by simpa using hclamp.mp hc.1
    simp only [Field.val, Field.largest]
    rw [toInt_sabs_word hpos hlt, hwidth, hval]
    split <;> [skip; split] <;> omega
  case thresh16 =>
    have hval : clampVal m t = min t 32767 := by
      simp only [clampVal, hclamp, true_and]
      split <;> omega
    simp only [Field.val, Field.largest]
    rw [toInt_sabs_word hpos hlt, hwidth, hval]
    split <;> [skip; split] <;> omega
  case count =>
    have hval : clampVal m t = t := if_neg fun hc => by simpa using hclamp.mp hc.1
    simp only [Field.val, Field.largest]
    rw [toNat_word hpos hlt, hwidth, hval]
    omega

theorem lt_of_fits {t : ℤ} (h : m.Fits t) : t < 2 ^ 31 := by
  have hfit := h.2
  cases hf : m.field <;> simp only [hf] at hfit <;> omega

/-- The parameter of a message arrives, whatever the undriven fields hold, exactly when the request
fits. -/
theorem arrives_iff_fits (hv : 0 ≤ v) (hs : m.scalefactor (sf c) ≠ 0) :
    (∀ u, Arrives sf conv rf c m v u) ↔ m.Fits (trunc (m.requested (sf c) conv v)) := by
  set t := trunc (m.requested (sf c) conv v) with ht
  have h0 : 0 ≤ t := trunc_nonneg (requested_nonneg m (sf c) conv hv)
  have hset := chan_settings_eq conv rf hv hs
  rw [← ht] at hset
  constructor
  · intro h
    have hlt : t < 2 ^ 31 := by
      obtain ⟨rf', hrf, -⟩ := h 0
      by_contra hno
      rw [hset, if_neg hno] at hrf
      cases hrf
    rw [if_pos hlt] at hset
    have hm : m ≠ .DCCT_CNTLIM_MSG := by
      rintro rfl
      -- two values of the undriven limit, one of which is not the requested one
      obtain ⟨rf1, -, h1, -⟩ := h 0
      obtain ⟨rf2, -, h2, -⟩ := h 1
      have : ((0#16).toNat : ℤ) = (1#16).toNat := h1.trans h2.symm
      exact absurd this (by decide)
    obtain ⟨rf', hrf, hlim, -⟩ := h 0
    rw [hset] at hrf
    obtain rfl := Option.some.inj hrf
    rw [limit_out32 hm] at hlim
    exact (val_word_eq_iff hm h0 hlt).mp hlim
  · intro h u
    have hlt := lt_of_fits h
    rw [if_pos hlt] at hset
    refine ⟨_, hset, ?_, fun c' m' hne => limit_out32_of_ne u _ hne⟩
    rw [limit_out32 h.1]
    exact (val_word_eq_iff h.1 h0 hlt).mpr h

def unitFactors : Chan → ScaleFactorType := fun _ => ⟨1, 1, 1, 1, 1⟩

/-- A threshold of 5 A. -/
theorem fiveAmps_arrives :
    Arrives unitFactors CONVVOLTSTO20BITS .zeros .ps2 .OVC1_THRESH_MSG 5 0 :=
  (arrives_iff_fits (by norm_num) (by decide)).mpr ⟨by decide, Or.inl (by decide +kernel)⟩ 0

/-- A count limit of 10 s: 100000 samples, of which the low 16 bits, 34464, are kept. -/
theorem tenSeconds_not_arrives :
    ¬ Arrives unitFactors CONVVOLTSTO20BITS .zeros .ps1 .OVC1_CNTLIM_MSG 10 0 := by
  rintro ⟨rf', hrf, hlim, -⟩
  rw [chan_settings_eq _ _ (by norm_num) (by decide), if_pos (by decide +kernel)] at hrf
  obtain rfl := Option.some.inj hrf
  rw [limit_out32 (by decide)] at hlim
  revert hlim
  decide +kernel

end Zpsc.Control
