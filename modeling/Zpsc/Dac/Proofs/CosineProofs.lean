import Zpsc.Dac.CosineRun
import Zpsc.Dac.Proofs.SmoothLinearProofs

/-!
# Where a raised-cosine ramp ends

After `n` ticks of a run the registers are functions of `n` (`Follows`). The run ends two ticks
after the phase has become positive, with the sample whose cosine was computed four increments
earlier (`runEnds_last`), and that sample is the target exactly under `Reaches` (`runEnds_iff`).
-/

namespace Zpsc.SmoothCosine

open Bits Clocked SmoothLinear

variable {cordic : Cordic} {inc : BitVec 32} {cur new : BitVec 20}

/-! ## The phase -/

section Phase

variable (hpos : 0 < inc.toNat) (hle : inc.toNat ≤ 2 * POS_PI)

include hpos in
theorem lt_increments_mul : POS_PI < increments inc * inc.toNat := by
  have h := Nat.lt_div_mul_add (a := POS_PI) hpos
  rw [increments, Nat.add_mul, Nat.one_mul]
  exact h

theorem mul_le_of_lt_increments {n : ℕ} (hn : n < increments inc) : n * inc.toNat ≤ POS_PI :=
  (Nat.mul_le_mul_right _ (Nat.lt_succ_iff.mp hn)).trans (Nat.div_mul_le_self _ _)

include hle in
theorem toInt_phaseAfter {n : ℕ} (hn : n ≤ increments inc) :
    (phaseAfter inc n).toInt = n * inc.toNat - POS_PI := by
  have hmul : n * inc.toNat ≤ 3 * POS_PI := by
    rcases Nat.lt_or_ge n (increments inc) with hlt | hge
    · have := mul_le_of_lt_increments hlt
      omega
    · have heq : n = POS_PI / inc.toNat + 1 := Nat.le_antisymm hn hge
      have hdiv := Nat.div_mul_le_self POS_PI inc.toNat
      rw [heq, Nat.add_mul]
      omega
  have hmulInt : (n : ℤ) * inc.toNat ≤ 3 * POS_PI := by exact_mod_cast hmul
  have hnonneg : 0 ≤ (n : ℤ) * inc.toNat := Int.mul_nonneg (by omega) (by omega)
  have heq : phaseAfter inc n = BitVec.ofInt 32 (n * inc.toNat - POS_PI) := by
    have hinc : inc = BitVec.ofInt 32 inc.toNat := by
      rw [BitVec.ofInt_natCast, BitVec.ofNat_toNat, BitVec.setWidth_eq]
    have hneg : NEG_PI = BitVec.ofInt 32 (-POS_PI) := rfl
    rw [phaseAfter, hneg, sub_eq_neg_add, BitVec.ofInt_add, BitVec.ofInt_mul, ← hinc,
      BitVec.ofInt_natCast]
  unfold POS_PI at *
  rw [heq, BitVec.toInt_ofInt, Int.bmod_eq_of_le (by omega) (by omega)]

include hpos hle in
/-- The phase is positive after `increments` increments and not before. -/
theorem phaseAfter_pos_iff {n : ℕ} (hn : n ≤ increments inc) :
    0 < (phaseAfter inc n).toInt ↔ n = increments inc := by
  rw [toInt_phaseAfter hle hn]
  constructor
  · intro h
    by_contra hne
    have hlt : n < increments inc := by omega
    have hmul := mul_le_of_lt_increments hlt
    have : (n : ℤ) * inc.toNat ≤ POS_PI := by exact_mod_cast hmul
    omega
  · rintro rfl
    have : (POS_PI : ℤ) < increments inc * inc.toNat := by
      exact_mod_cast lt_increments_mul hpos
    omega

end Phase

theorem phaseAfter_succ (inc : BitVec 32) (n : ℕ) :
    phaseAfter inc n + inc = phaseAfter inc (n + 1) := by
  rw [phaseAfter, phaseAfter, BitVec.ofNat_add, BitVec.add_mul, ← BitVec.add_assoc]
  simp

@[simp] theorem phaseAfter_zero (inc : BitVec 32) : phaseAfter inc 0 = NEG_PI := by
  simp [phaseAfter]

/-! ## The pipeline -/

/-- The raised cosine. -/
def raise (c : BitVec 24) : BitVec 24 := (c + BitVec.ofNat 24 (2 ^ 20)) >>> 1

/-- The product of the difference of the setpoints with a sample. -/
def product (cur new : BitVec 20) (x : BitVec 24) : BitVec 48 :=
  sresize 48 (sresize 24 new - sresize 24 cur) * sresize 48 x

/-- The point of a product, before it is cut to 20 bits. -/
def pointOf (cur : BitVec 20) (x : BitVec 48) : BitVec 24 := sresize 24 cur + x.extractLsb' 20 24

section Sequences

variable (cosine : BitVec 24 → BitVec 24) (φ₀ : BitVec 24) (inc : BitVec 32) (cur new : BitVec 20)

/-- The cosine that tick `n` of the run sees. -/
def shown : ℕ → BitVec 24
  | 0 => cosine φ₀
  | n + 1 => cosine (phaseOut (phaseAfter inc (n - 1)))

def raisedAt : ℕ → BitVec 24
  | 0 => 0
  | n + 1 => raise (shown cosine φ₀ inc n)

def productAt : ℕ → BitVec 48
  | 0 => 0
  | n + 1 => product cur new (raisedAt cosine φ₀ inc n)

end Sequences

/-! ## One clock -/

section Clock

variable {s : Ramp cordic} {i : In}

theorem stepIn_wait (hs : s.state = .RUN_RAMP) (hr : i.reset = false)
    (ht : i.tenkhz_trig = false) :
    stepIn s i = { s with core := cordic.step s.core i.tenkhz_trig s.phase_out } := by
  simp [stepIn, step, hs, hr, ht]

/-- A tick moves the pipeline on, and ends the run if the last point has been reached. -/
theorem stepIn_tick (hs : s.state = .RUN_RAMP) (hr : i.reset = false)
    (ht : i.tenkhz_trig = true) :
    (stepIn s i).raised_cos = raise (cosOut s) ∧
      (stepIn s i).rampout_wdiff = product s.old_setpt s.new_setpt_lat s.raised_cos ∧
      (stepIn s i).rampout_fp = pointOf s.old_setpt s.rampout_wdiff ∧
      (stepIn s i).rampout = s.rampout_fp.extractLsb' 0 20 ∧
      (stepIn s i).state = (if s.last_point then .IDLE else .RUN_RAMP) ∧
      (stepIn s i).new_setpt_lat = s.new_setpt_lat ∧ (stepIn s i).old_setpt = s.old_setpt ∧
      (stepIn s i).phase = (if 0 < s.phase.toInt then 0 else s.phase + i.phase_inc) ∧
      (stepIn s i).last_point = (s.last_point || decide (0 < s.phase.toInt)) ∧
      (stepIn s i).phase_out =
        if 0 < s.phase.toInt then s.phase_out else phaseOut s.phase := by
  by_cases hp : 0 < s.phase.toInt
  · simp [stepIn, step, hs, hr, ht, hp, raise, product, pointOf, cosOut]
  · simp [stepIn, step, hs, hr, ht, hp, raise, product, pointOf, cosOut, phaseOut]

theorem stepIn_start (hi : i.reset = false) (hmode : i.mode = 0b00#2)
    (hs : Ready i.new_setpt s) :
    (stepIn s i).state = .RUN_RAMP ∧ (stepIn s i).phase = NEG_PI ∧
      (stepIn s i).phase_out = phaseOut NEG_PI ∧ (stepIn s i).last_point = false ∧
      (stepIn s i).raised_cos = 0 ∧ (stepIn s i).rampout_wdiff = 0 ∧
      (stepIn s i).new_setpt_lat = i.new_setpt ∧ (stepIn s i).old_setpt = i.cur_setpt := by
  simp [stepIn, step, hi, hs.1, hs.2, hmode, phaseOut]

end Clock

/-! ## The registers after `n` ticks -/

section Run

variable {s : Ramp cordic} {inp : ℕ → In} {cosine : BitVec 24 → BitVec 24} {φ₀ : BitVec 24}
  {t n : ℕ}

/-- What tick `n` will see of the ticks before. -/
inductive Presented (s : Ramp cordic) (inp : ℕ → In) (inc : BitVec 32) : ℕ → ℕ → Prop where
  | none {t : ℕ} (h : NoTick inp 0 t) : Presented s inp inc t 0
  | tick {t t' n : ℕ} (hpos : 0 < t') (hlt : t' < t) (htick : (inp t').tenkhz_trig = true)
      (hno : NoTick inp t' t)
      (hout : (trace stepIn s inp t').phase_out = phaseOut (phaseAfter inc (n - 1))) :
      Presented s inp inc t (n + 1)

theorem Presented.cosOut_eq (h : Presented s inp inc t n) (hcore : Computes cosine φ₀ s inp)
    (ht : 0 < t) (htick : (inp t).tenkhz_trig = true) :
    cosOut (trace stepIn s inp t) = shown cosine φ₀ inc n := by
  cases h with
  | none hno => exact hcore.first t ht htick hno
  | tick hpos hlt htick' hno hout =>
    rw [hcore.next _ t hpos hlt htick' htick hno, hout]
    rfl

theorem NoTick.succ {t' : ℕ} (h : NoTick inp t' t) (ht : (inp t).tenkhz_trig = false) :
    NoTick inp t' (t + 1) := by
  intro u h1 h2
  rcases Nat.lt_succ_iff_lt_or_eq.mp h2 with hlt | rfl
  · exact h u h1 hlt
  · exact ht

theorem Presented.wait (h : Presented s inp inc t n) (ht : (inp t).tenkhz_trig = false) :
    Presented s inp inc (t + 1) n := by
  cases h with
  | none hno => exact .none (hno.succ ht)
  | tick hpos hlt htick hno hout => exact .tick hpos (by omega) htick (hno.succ ht) hout

/-- The registers at clock `t`, after `n` ticks. The last tick but one finds the phase positive and
leaves `phase_out` alone. -/
structure Follows (cosine : BitVec 24 → BitVec 24) (φ₀ : BitVec 24) (inc : BitVec 32)
    (cur new : BitVec 20) (s : Ramp cordic) (inp : ℕ → In) (t n : ℕ) : Prop where
  state : (trace stepIn s inp t).state = .RUN_RAMP
  le : n ≤ increments inc + 1
  phase : n ≤ increments inc → (trace stepIn s inp t).phase = phaseAfter inc n
  last_point : (trace stepIn s inp t).last_point = decide (increments inc < n)
  phase_out : (trace stepIn s inp t).phase_out =
    phaseOut (phaseAfter inc (min n (increments inc) - 1))
  new_setpt_lat : (trace stepIn s inp t).new_setpt_lat = new
  old_setpt : (trace stepIn s inp t).old_setpt = cur
  raised_cos : (trace stepIn s inp t).raised_cos = raisedAt cosine φ₀ inc n
  rampout_wdiff : (trace stepIn s inp t).rampout_wdiff = productAt cosine φ₀ inc cur new n
  rampout_fp : ∀ k, n = k + 1 →
    (trace stepIn s inp t).rampout_fp = pointOf cur (productAt cosine φ₀ inc cur new k)
  presented : Presented s inp inc t n

theorem follows_one (hs : Ready new s) (h : Undisturbed inc cur new inp) :
    Follows cosine φ₀ inc cur new s inp 1 0 := by
  obtain ⟨h1, h2, h3, h4, h5, h6, h7, h8⟩ :=
    stepIn_start (h.reset 0) h.mode (h.new_setpt.symm ▸ hs)
  have hone : trace stepIn s inp 1 = stepIn s (inp 0) := rfl
  refine ⟨h1, Nat.zero_le _, ?_, ?_, ?_, ?_, ?_, h5, h6, ?_, .none ?_⟩
  · intro _
    rw [hone, h2, phaseAfter_zero]
  · rw [hone, h4]
    exact (decide_eq_false (by omega)).symm
  · rw [hone, h3, Nat.zero_min, phaseAfter_zero]
  · rw [hone, h7, h.new_setpt]
  · rw [hone, h8, h.cur_setpt]
  · intro k hk
    omega
  · intro u h0 h1
    omega

theorem Follows.wait (h : Follows cosine φ₀ inc cur new s inp t n) (hr : (inp t).reset = false)
    (ht : (inp t).tenkhz_trig = false) : Follows cosine φ₀ inc cur new s inp (t + 1) n := by
  have hstep := stepIn_wait h.state hr ht
  rw [← trace_succ stepIn s inp t] at hstep
  refine ⟨?_, h.le, ?_, ?_, ?_, ?_, ?_, ?_, ?_, ?_, h.presented.wait ht⟩ <;> rw [hstep]
  · exact h.state
  · exact h.phase
  · exact h.last_point
  · exact h.phase_out
  · exact h.new_setpt_lat
  · exact h.old_setpt
  · exact h.raised_cos
  · exact h.rampout_wdiff
  · exact h.rampout_fp

theorem Follows.tick (h : Follows cosine φ₀ inc cur new s inp t n)
    (hu : Undisturbed inc cur new inp) (hcore : Computes cosine φ₀ s inp)
    (hpos : 0 < inc.toNat) (hle : inc.toNat ≤ 2 * POS_PI) (ht0 : 0 < t)
    (ht : (inp t).tenkhz_trig = true) (hn : n ≤ increments inc) :
    Follows cosine φ₀ inc cur new s inp (t + 1) (n + 1) := by
  obtain ⟨h1, h2, h3, -, h5, h6, h7, h8, h9, h10⟩ := stepIn_tick h.state (hu.reset t) ht
  rw [← trace_succ stepIn s inp t] at h1 h2 h3 h5 h6 h7 h8 h9 h10
  have hlast : (trace stepIn s inp t).last_point = false := by
    rw [h.last_point]
    exact decide_eq_false (by omega)
  have hphase := phaseAfter_pos_iff hpos hle hn
  rw [h.phase hn, hu.phase_inc] at h8
  rw [h.phase hn] at h9 h10
  refine ⟨?_, by omega, ?_, ?_, ?_, h6.trans h.new_setpt_lat, h7.trans h.old_setpt, ?_, ?_, ?_, ?_⟩
  · rw [h5, hlast]
    rfl
  · intro hn'
    rw [h8, if_neg (by rw [hphase]; omega), phaseAfter_succ]
  · rw [h9, hlast, Bool.false_or]
    exact decide_eq_decide.mpr (hphase.trans (by omega))
  · rw [h10]
    by_cases hend : n = increments inc
    · rw [if_pos (hphase.mpr hend), h.phase_out, hend]
      congr 2
      omega
    · rw [if_neg (mt hphase.mp hend)]
      congr 2
      omega
  · rw [h1, h.presented.cosOut_eq hcore ht0 ht]
    rfl
  · rw [h2, h.old_setpt, h.new_setpt_lat, h.raised_cos]
    rfl
  · intro k hk
    rw [h3, h.old_setpt, h.rampout_wdiff, show n = k by omega]
  · refine .tick ht0 (by omega) ht (fun u h1 h2 => absurd h1 (by omega)) ?_
    rw [h.phase_out]
    congr 2
    omega

/-- The tick after the last point ends the run and puts out the point that is at the end of the
pipeline. -/
theorem Follows.finish (h : Follows cosine φ₀ inc cur new s inp t (increments inc + 1))
    (hr : (inp t).reset = false) (ht : (inp t).tenkhz_trig = true) :
    (trace stepIn s inp (t + 1)).state = .IDLE ∧
      (trace stepIn s inp (t + 1)).rampout =
        (pointOf cur (productAt cosine φ₀ inc cur new (increments inc))).extractLsb' 0 20 := by
  obtain ⟨-, -, -, h4, h5, -⟩ := stepIn_tick h.state hr ht
  rw [← trace_succ stepIn s inp t] at h4 h5
  refine ⟨?_, ?_⟩
  · rw [h5, h.last_point, if_pos (decide_eq_true (by omega))]
  · rw [h4, h.rampout_fp _ rfl]

/-- From any clock of the run, the next tick finds the registers as they are. -/
theorem Follows.next_tick (h : Follows cosine φ₀ inc cur new s inp t n)
    (hu : Undisturbed inc cur new inp) :
    ∃ t', t ≤ t' ∧ (inp t').tenkhz_trig = true ∧ Follows cosine φ₀ inc cur new s inp t' n ∧
      ∀ u, t ≤ u → u ≤ t' → (trace stepIn s inp u).state = .RUN_RAMP := by
  classical
  have hex := hu.ticks t
  have hspec := Nat.find_spec hex
  have hbefore : ∀ u, t ≤ u → u < Nat.find hex → (inp u).tenkhz_trig = false := by
    intro u h1 h2
    by_contra hne
    exact Nat.find_min hex h2 ⟨h1, by simpa using hne⟩
  have hall : ∀ u, t ≤ u → u ≤ Nat.find hex → Follows cosine φ₀ inc cur new s inp u n := by
    intro u h1 h2
    exact hold (P := fun u => Follows cosine φ₀ inc cur new s inp u n) h1
      (fun v hv hvu hf => hf.wait (hu.reset v) (hbefore v hv (by omega))) h
  exact ⟨Nat.find hex, hspec.1, hspec.2, hall _ hspec.1 le_rfl, fun u h1 h2 => (hall u h1 h2).state⟩

theorem follows_all (hs : Ready new s) (hu : Undisturbed inc cur new inp)
    (hcore : Computes cosine φ₀ s inp) (hpos : 0 < inc.toNat) (hle : inc.toNat ≤ 2 * POS_PI)
    (hn : n ≤ increments inc + 1) :
    ∃ t, 0 < t ∧ Follows cosine φ₀ inc cur new s inp t n ∧
      ∀ u, 0 < u → u ≤ t → (trace stepIn s inp u).state = .RUN_RAMP := by
  induction n with
  | zero =>
    have hone : Follows cosine φ₀ inc cur new s inp 1 0 := follows_one hs hu
    refine ⟨1, Nat.one_pos, hone, ?_⟩
    intro u h0 h1
    rw [show u = 1 by omega]
    exact hone.state
  | succ n ih =>
    obtain ⟨t, ht0, hf, hrun⟩ := ih (by omega)
    obtain ⟨t', htt', htick, hf', hrun'⟩ := hf.next_tick hu
    have hnext := hf'.tick hu hcore hpos hle (by omega) htick (by omega)
    refine ⟨t' + 1, by omega, hnext, ?_⟩
    intro u h0 h1
    rcases Nat.lt_or_ge u (t' + 1) with hlt | hge
    · rcases Nat.lt_or_ge u t with hlt' | hge'
      · exact hrun u h0 (by omega)
      · exact hrun' u hge' (by omega)
    · rw [show u = t' + 1 by omega]
      exact hnext.state

/-! ## The end of the run -/

/-- With a phase increment that is not 0 the run ends, at the point of the last sample. -/
theorem runEnds_last (hs : Ready new s) (hu : Undisturbed inc cur new inp)
    (hcore : Computes cosine φ₀ s inp) (hpos : 0 < inc.toNat) (hle : inc.toNat ≤ 2 * POS_PI) :
    RunEnds s inp
      ((pointOf cur (productAt cosine φ₀ inc cur new (increments inc))).extractLsb' 0 20) := by
  obtain ⟨t, ht0, hf, hrun⟩ := follows_all hs hu hcore hpos hle le_rfl
  obtain ⟨t', htt', htick, hf', hrun'⟩ := hf.next_tick hu
  obtain ⟨hidle, hout⟩ := hf'.finish (hu.reset t') htick
  refine ⟨t' + 1, by omega, ?_, hidle, hout⟩
  intro u h0 h1
  have hstate : (trace stepIn s inp u).state = .RUN_RAMP := by
    rcases Nat.lt_or_ge u t with hlt | hge
    · exact hrun u h0 (by omega)
    · exact hrun' u hge (by omega)
  rw [hstate]
  decide

theorem RunEnds.unique {x y : BitVec 20} (hx : RunEnds s inp x) (hy : RunEnds s inp y) : x = y := by
  obtain ⟨t, ht, hbt, hst, rfl⟩ := hx
  obtain ⟨u, hu, hbu, hsu, rfl⟩ := hy
  rw [first_unique (P := fun v => (trace stepIn s inp v).state = .IDLE) ht hbt hst hu hbu hsu]

/-- With a phase increment of 0 the phase stays at its start, and the run does not end. -/
theorem never_ends (hs : Ready new s) (hu : Undisturbed 0 cur new inp) (ht : 0 < t) :
    (trace stepIn s inp t).state = .RUN_RAMP ∧ (trace stepIn s inp t).phase = NEG_PI ∧
      (trace stepIn s inp t).last_point = false := by
  refine hold (P := fun t => (trace stepIn s inp t).state = .RUN_RAMP ∧
      (trace stepIn s inp t).phase = NEG_PI ∧ (trace stepIn s inp t).last_point = false)
    (show 1 ≤ t from ht) (fun v hv hvt hst => ?_) ?_
  · obtain ⟨h1, h2, h3⟩ := hst
    rw [trace_succ]
    cases htick : (inp v).tenkhz_trig with
    | false =>
      rw [stepIn_wait h1 (hu.reset v) htick]
      exact ⟨h1, h2, h3⟩
    | true =>
      obtain ⟨-, -, -, -, h5, -, -, h8, h9, -⟩ := stepIn_tick h1 (hu.reset v) htick
      have hneg : ¬ 0 < NEG_PI.toInt := by decide
      rw [h5, h8, h9, h3, h2, if_neg hneg, hu.phase_inc]
      exact ⟨rfl, BitVec.add_zero _, by simp [hneg]⟩
  · obtain ⟨h1, h2, -, h4, -⟩ := stepIn_start (hu.reset 0) hu.mode (hu.new_setpt.symm ▸ hs)
    exact ⟨h1, h2, h4⟩

end Run

/-! ## The last point -/

theorem extractLsb_ofInt_48 (x : ℤ) :
    (BitVec.ofInt 48 x).extractLsb' 20 24 = BitVec.ofInt 24 (x / 2 ^ 20) := by
  apply BitVec.eq_of_toNat_eq
  rw [BitVec.extractLsb'_toNat, BitVec.toNat_ofInt, BitVec.toNat_ofInt, Nat.shiftRight_eq_div_pow]
  omega

theorem extractLsb_ofInt_24 (x : ℤ) :
    (BitVec.ofInt 24 x).extractLsb' 0 20 = BitVec.ofInt 20 x := by
  apply BitVec.eq_of_toNat_eq
  rw [BitVec.extractLsb'_toNat, BitVec.toNat_ofInt, BitVec.toNat_ofInt, Nat.shiftRight_zero]
  omega

theorem product_eq (cur new : BitVec 20) (x : BitVec 24) :
    product cur new x = BitVec.ofInt 48 ((new.toInt - cur.toInt) * x.toInt) := by
  have h1 := @BitVec.toInt_lt 20 new
  have h2 := @BitVec.le_toInt 20 new
  have h3 := @BitVec.toInt_lt 20 cur
  have h4 := @BitVec.le_toInt 20 cur
  have hdiff : (sresize 24 new - sresize 24 cur).toInt = new.toInt - cur.toInt := by
    rw [sresize_eq_ofInt (by decide), sresize_eq_ofInt (by decide), BitVec.toInt_sub,
      BitVec.toInt_ofInt, BitVec.toInt_ofInt,
      Int.bmod_eq_of_le (n := new.toInt) (by omega) (by omega),
      Int.bmod_eq_of_le (n := cur.toInt) (by omega) (by omega),
      Int.bmod_eq_of_le (by omega) (by omega)]
  rw [product, sresize_eq_ofInt (by decide) (sresize 24 new - sresize 24 cur),
    sresize_eq_ofInt (by decide) x, ← BitVec.ofInt_mul, hdiff]

/-- The point that a sample makes. -/
theorem point_eq (cur new : BitVec 20) (x : BitVec 24) :
    (pointOf cur (product cur new x)).extractLsb' 0 20 =
      BitVec.ofInt 20 (cur.toInt + (new.toInt - cur.toInt) * x.toInt / 2 ^ 20) := by
  rw [product_eq, pointOf, extractLsb_ofInt_48, sresize_eq_ofInt (by decide), ← BitVec.ofInt_add,
    extractLsb_ofInt_24]

theorem toInt_raise {c : BitVec 24} (h1 : -2 ^ 20 ≤ c.toInt) (h2 : c.toInt ≤ 2 ^ 20) :
    (raise c).toInt = 2 ^ 20 - shortfall c := by
  have hc := BitVec.toInt_eq_toNat_cond c
  have hsum : (c + BitVec.ofNat 24 (2 ^ 20)).toNat = (c.toInt + 2 ^ 20).toNat := by
    rw [BitVec.toNat_add, BitVec.toNat_ofNat]
    split at hc <;> omega
  have hnat : (raise c).toNat = (c.toInt + 2 ^ 20).toNat / 2 := by
    rw [raise, BitVec.toNat_ushiftRight, hsum, Nat.shiftRight_eq_div_pow]
  rw [BitVec.toInt_eq_toNat_of_lt (by omega), hnat, shortfall]
  omega

/-- A sample that lacks `d` of 1 leads to the target exactly if it lacks nothing on the way up and
less than a code on the way down. -/
theorem point_eq_iff {x : BitVec 24} {d : ℤ} (hx : x.toInt = 2 ^ 20 - d) (hd1 : 0 ≤ d)
    (hd2 : d ≤ 2 ^ 20) :
    (pointOf cur (product cur new x)).extractLsb' 0 20 = new ↔
      (0 < new.toInt - cur.toInt → d = 0) ∧
        (new.toInt - cur.toInt < 0 → -(new.toInt - cur.toInt) * d < 2 ^ 20) := by
  have hn1 := @BitVec.toInt_lt 20 new
  have hn2 := @BitVec.le_toInt 20 new
  have hc1 := @BitVec.toInt_lt 20 cur
  have hc2 := @BitVec.le_toInt 20 cur
  rw [point_eq, hx, mul_sub, neg_mul]
  set D := new.toInt - cur.toInt with hD
  -- what the point lacks, in units of `2^-20` codes
  set y := D * d with hy
  have hup : 0 < D → 0 ≤ y ∧ y ≤ D * 2 ^ 20 := fun h =>
    ⟨Int.mul_nonneg h.le hd1, Int.mul_le_mul_of_nonneg_left hd2 h.le⟩
  have hdown : D < 0 → D * 2 ^ 20 ≤ y ∧ y ≤ 0 := by
    intro h
    have hneg := Int.mul_le_mul_of_nonneg_left hd2 (show 0 ≤ -D by omega)
    have hneg' := Int.mul_nonneg (show 0 ≤ -D by omega) hd1
    rw [neg_mul, neg_mul, ← hy] at hneg
    rw [neg_mul, ← hy] at hneg'
    omega
  have hzero : D = 0 → y = 0 := fun h => by rw [hy, h, zero_mul]
  have hzero' : 0 < D → (d = 0 ↔ y = 0) := by
    intro h
    rw [hy, mul_eq_zero]
    exact ⟨.inr, fun h' => h'.resolve_left (by omega)⟩
  rw [← BitVec.toInt_inj, BitVec.toInt_ofInt]
  rcases lt_trichotomy D 0 with hlt | heq | hgt
  · have hb := hdown hlt
    rw [Int.bmod_eq_of_le (by omega) (by omega)]
    omega
  · have hb := hzero heq
    rw [Int.bmod_eq_of_le (by omega) (by omega)]
    omega
  · have hb := hup hgt
    have hiff := hzero' hgt
    rw [Int.bmod_eq_of_le (by omega) (by omega)]
    omega

/-- The sample with which the run ends. -/
theorem productAt_increments {cosine : BitVec 24 → BitVec 24}
    (hrange : ∀ φ, -2 ^ 20 ≤ (cosine φ).toInt ∧ (cosine φ).toInt ≤ 2 ^ 20) (φ₀ : BitVec 24)
    (inc : BitVec 32) (cur new : BitVec 20) :
    ∃ x : BitVec 24, productAt cosine φ₀ inc cur new (increments inc) = product cur new x ∧
      x.toInt = 2 ^ 20 - lastShortfall cosine φ₀ inc ∧
      0 ≤ lastShortfall cosine φ₀ inc ∧ lastShortfall cosine φ₀ inc ≤ 2 ^ 20 := by
  obtain ⟨k, hk⟩ : ∃ k, increments inc = k + 1 := ⟨_, rfl⟩
  refine ⟨raisedAt cosine φ₀ inc k, by rw [hk, productAt], ?_⟩
  rw [lastShortfall, lastPhase, hk]
  cases k with
  | zero =>
    rw [if_pos rfl, raisedAt]
    decide
  | succ k =>
    rw [if_neg (by omega), raisedAt]
    have hshown : shown cosine φ₀ inc k =
        cosine (if k + 1 + 1 = 2 then φ₀ else phaseOut (phaseAfter inc (k + 1 + 1 - 4))) := by
      cases k with
      | zero => rfl
      | succ k => rw [if_neg (by omega), shown, show k + 1 + 1 + 1 - 4 = k - 1 by omega]
    rw [← hshown]
    obtain ⟨h1, h2⟩ : -2 ^ 20 ≤ (shown cosine φ₀ inc k).toInt ∧
        (shown cosine φ₀ inc k).toInt ≤ 2 ^ 20 := by
      rw [hshown]
      exact hrange _
    refine ⟨toInt_raise h1 h2, ?_, ?_⟩ <;> unfold shortfall <;> omega

/-- A run ends at its target exactly under `Reaches`. -/
theorem runEnds_iff {s : Ramp cordic} {inp : ℕ → In} {cosine : BitVec 24 → BitVec 24}
    {φ₀ : BitVec 24} (hs : Ready new s) (hu : Undisturbed inc cur new inp)
    (hcore : Computes cosine φ₀ s inp) (hle : inc.toNat ≤ 2 * POS_PI) :
    RunEnds s inp new ↔ Reaches cosine φ₀ inc (new.toInt - cur.toInt) := by
  by_cases h0 : inc = 0
  · subst h0
    refine iff_of_false ?_ fun h => h.moves rfl
    rintro ⟨T, hT, -, hidle, -⟩
    have hrun := (never_ends hs hu hT).1
    rw [hrun] at hidle
    exact absurd hidle (by decide)
  · have hpos : 0 < inc.toNat := Nat.pos_of_ne_zero fun h => h0 (BitVec.eq_of_toNat_eq h)
    have hends := runEnds_last hs hu hcore hpos hle
    obtain ⟨x, hx, hlast, hd1, hd2⟩ := productAt_increments hcore.range φ₀ inc cur new
    have hiff := @point_eq_iff cur new _ _ hlast hd1 hd2
    rw [hx] at hends
    constructor
    · intro h
      obtain ⟨hup, hdown⟩ := hiff.mp (hends.unique h)
      exact ⟨h0, hup, hdown⟩
    · intro h
      rw [hiff.mpr ⟨h.up, h.down⟩] at hends
      exact hends

end Zpsc.SmoothCosine
