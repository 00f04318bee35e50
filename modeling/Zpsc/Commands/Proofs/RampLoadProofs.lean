import Zpsc.Commands.Flavor
import Zpsc.Commands.Nor
import Zpsc.Commands.Proofs.FrameProofs
import Zpsc.Commands.RampLoad

/-!
# Which ramp tables are loaded

The limits of `write_ramptable` are twice those of the converter. A point beyond the converter's
range is stored with the bits above the 20th cut off, or with a limit that is cut off in turn.
-/

namespace Zpsc.Commands

open Bits Effects Cmd CConv PscMsg

/-! ## One point -/

/-- The limits that the code has. -/
def limited (psc_resolution scaled_val : BitVec 32) : BitVec 32 :=
  if psc_resolution = 1 ∧ (2 ^ 20 : ℤ) < scaled_val.abs.toInt then
    if 0 < scaled_val.toInt then 2 ^ 20 - 1 else -2 ^ 20
  else if psc_resolution = 0 ∧ (2 ^ 18 : ℤ) < scaled_val.abs.toInt then
    if 0 < scaled_val.toInt then 2 ^ 18 - 1 else -2 ^ 18
  else scaled_val

theorem toInt_abs_ofInt {x : ℤ} (hlow : -2 ^ 31 ≤ x) (hhigh : x < 2 ^ 31) :
    (BitVec.ofInt 32 x).abs.toInt = if x = -2 ^ 31 then -2 ^ 31 else (x.natAbs : ℤ) := by
  have hx : (BitVec.ofInt 32 x).toInt = x := by
    rw [BitVec.toInt_ofInt, Int.bmod_eq_of_le (by omega) (by omega)]
  have hmin : BitVec.ofInt 32 x = BitVec.intMin 32 ↔ x = -2 ^ 31 := by
    rw [← BitVec.toInt_inj, hx]
    rfl
  rw [BitVec.toInt_abs_eq_natAbs, hx]
  simp only [hmin]
  rfl

/-- The stored word is the limited code exactly for a code that needs no limit. -/
theorem limited_eq_clampCode_iff {res : BitVec 32} (hres : res = 0 ∨ res = 1) {x : ℤ}
    (hlow : -2 ^ 31 ≤ x) (hhigh : x < 2 ^ 31) :
    ((limited res (BitVec.ofInt 32 x)).setWidth 20).toInt = clampCode res x ↔
      IsCode res x := by
  have hx : (BitVec.ofInt 32 x).toInt = x := by
    rw [BitVec.toInt_ofInt, Int.bmod_eq_of_le (by omega) (by omega)]
  have hlow20 : ((BitVec.ofInt 32 x).setWidth 20).toInt = x.bmod (2 ^ 20) := by
    rw [setWidth_ofInt (by decide), BitVec.toInt_ofInt]
  unfold limited clampCode IsCode halfCodes
  rw [toInt_abs_ofInt hlow hhigh, hx]
  have h18 : ((2 ^ 18 - 1 : BitVec 32).setWidth 20).toInt = 2 ^ 18 - 1 := by decide
  have h18' : ((-2 ^ 18 : BitVec 32).setWidth 20).toInt = -2 ^ 18 := by decide
  -- the limits for 20 bits lose the bit that carries their value
  have h20 : ((2 ^ 20 - 1 : BitVec 32).setWidth 20).toInt = -1 := by decide
  have h20' : ((-2 ^ 20 : BitVec 32).setWidth 20).toInt = 0 := by decide
  rcases hres with rfl | rfl
  · simp only [show ¬ (0 : BitVec 32) = 1 by decide, false_and, if_false, true_and]
    split_ifs <;> simp only [h18, h18', hlow20, Int.bmod_def] <;> omega
  · simp only [show ¬ (1 : BitVec 32) = 0 by decide, false_and, if_false, true_and, if_true]
    split_ifs <;> simp only [h20, h20', hlow20, Int.bmod_def] <;> omega

/-! ## The loop -/

section

variable {φ : Type} [FlashChip φ] {F : Type} [Fpu F] {c : Chan}

theorem extends_psc : Extends Eff (Loaded.psc : Loaded φ → Psc φ) := fun _ _ => rfl

/-- The two writes of a pass: the tables of the other channels, and the other addresses, keep what
they have. -/
theorem runOn_rampPoint (res : BitVec 32) (i : ℕ) (data : BitVec 32) (b : Loaded φ) :
    (rampPoint F c.u32 res i data).runOn Loaded.psc b =
      Loaded.apply (.out32 (chanAddr c .dac_rampdata)
          (rampEntry F res (Fpu.single b.psc.CONVVOLTSTODACBITS)
            (Fpu.single (b.psc.scalefactors (c.u32 - 1) .dac_dccts)) (Fpu.single data)))
        (Loaded.apply (.out32 (chanAddr c .dac_rampaddr) (BitVec.ofNat 32 i)) b) := by
  rw [← chanReg_eq_chanAddr, ← chanReg_eq_chanAddr]
  rfl

theorem regFile_apply_out32 (r : ChanReg) (v : BitVec 32) (b : Loaded φ) (r' : ChanReg) :
    (Loaded.apply (.out32 (chanAddr c r) v) b).psc.regs.regFile.chan c r' =
      if r' = r then v.setWidth r'.width else b.psc.regs.regFile.chan c r' := by
  show (b.psc.regs.out32 (chanAddr c r) v).regFile.chan c r' = _
  rw [Bus.regFile_out32, RegFile.out32_chan]
  exact if_congr (and_iff_right rfl) rfl rfl

/-- A write to another register than the data stores nothing. -/
theorem tables_out32 {r : ChanReg} (hr : r ≠ .dac_rampdata) (v : BitVec 32) (b : Loaded φ) :
    (Loaded.apply (.out32 (chanAddr c r) v) b).tables = b.tables := by
  funext c'
  refine if_neg ?_
  intro hwe
  have haddr : chanAddr c r = chanAddr c' .dac_rampdata := of_decide_eq_true hwe
  exact hr (chanAddr_inj haddr).2

theorem tables_rampdata (v : BitVec 32) (b : Loaded φ) :
    (Loaded.apply (.out32 (chanAddr c .dac_rampdata) v) b).tables c =
      Function.update (b.tables c) (b.psc.regs.regFile.chan c .dac_rampaddr) (v.setWidth 20) := by
  have haddr := regFile_apply_out32 .dac_rampdata v b .dac_rampaddr (c := c)
  have hdata := regFile_apply_out32 .dac_rampdata v b .dac_rampdata (c := c)
  rw [if_neg (by decide)] at haddr
  rw [if_pos rfl] at hdata
  refine (if_pos (decide_eq_true rfl)).trans ?_
  exact congrArg₂ (Function.update (b.tables c)) haddr hdata

/-- What holds after `k` passes of the loop that loads `table`. -/
structure Loading (c : Chan) (b₀ : Loaded φ) (table : ℕ → BitVec 20) (k : ℕ) (b : Loaded φ) :
    Prop where
  conv : b.psc.CONVVOLTSTODACBITS = b₀.psc.CONVVOLTSTODACBITS
  scalefactors : b.psc.scalefactors = b₀.psc.scalefactors
  ramplen : b.psc.regs.regFile.chan c .dac_ramplen = b₀.psc.regs.regFile.chan c .dac_ramplen
  point : ∀ i < k, b.tables c (BitVec.ofNat 16 i) = table i

/-- The word that is stored for a value. -/
def storedWord (F : Type) [Fpu F] (c : Chan) (res : BitVec 32) (s : Psc φ) (data : BitVec 32) :
    BitVec 20 :=
  (rampEntry F res (Fpu.single s.CONVVOLTSTODACBITS)
    (Fpu.single (s.scalefactors (c.u32 - 1) .dac_dccts)) (Fpu.single data)).setWidth 20

/-- One pass. -/
theorem Loading.pass {b₀ b : Loaded φ} {res : BitVec 32} {data : ℕ → BitVec 32} {k : ℕ}
    (hk : k < 50000)
    (h : Loading c b₀ (fun i => storedWord F c res b₀.psc (data i)) k b) :
    Loading c b₀ (fun i => storedWord F c res b₀.psc (data i)) (k + 1)
      ((rampPoint F c.u32 res k (data k)).runOn Loaded.psc b) := by
  rw [runOn_rampPoint, h.conv, h.scalefactors]
  refine ⟨h.conv, h.scalefactors, ?_, ?_⟩
  · rw [regFile_apply_out32, if_neg (by decide), regFile_apply_out32, if_neg (by decide), h.ramplen]
  · intro i hi
    have haddr : ((BitVec.ofNat 32 k).setWidth 16) = BitVec.ofNat 16 k := by
      apply BitVec.eq_of_toNat_eq
      simp
    rw [tables_rampdata, regFile_apply_out32, if_pos rfl, tables_out32 (by decide)]
    show Function.update (b.tables c) ((BitVec.ofNat 32 k).setWidth 16) _ _ = _
    rw [haddr]
    rcases Nat.lt_succ_iff_lt_or_eq.mp hi with hlt | rfl
    · have hne : BitVec.ofNat 16 i ≠ BitVec.ofNat 16 k := by
        intro e
        have := congrArg BitVec.toNat e
        simp at this
        omega
      rw [Function.update_of_ne hne, h.point i hlt]
    · exact Function.update_self _ _ _

theorem runOn_write_ramptable {msglen : BitVec 32} (hn : (msglen / 4).toNat ≤ 50000) (msg : Buf)
    (b : Loaded φ) :
    (write_ramptable F c.u32 msg msglen).runOn Loaded.psc b =
      ((List.range (msglen / 4).toNat).forM fun i =>
          rampPoint F c.u32 (b.psc.regs GlobReg.resolution.offset) i (msgWord msg i)).runOn
        Loaded.psc (Loaded.apply (.out32 (chanAddr c .dac_ramplen) (msglen / 4)) b) := by
  have hres : (b.psc.regs.out32 (chanAddr c .dac_ramplen) (msglen / 4)) GlobReg.resolution.offset =
      b.psc.regs GlobReg.resolution.offset :=
    if_neg (GlobReg.offset_ne_chanAddr .resolution c .dac_ramplen)
  unfold write_ramptable
  rw [if_neg (Nat.not_lt.mpr hn), runOn_bind extends_psc, runOn_bind extends_psc,
    chanReg_eq_chanAddr, ← hres]
  rfl

/-- The table after the loop. -/
theorem loading_write_ramptable {msglen : BitVec 32} (hn : (msglen / 4).toNat ≤ 50000) (msg : Buf)
    (b : Loaded φ) :
    let b' := (write_ramptable F c.u32 msg msglen).runOn Loaded.psc b
    (b'.psc.regs.regFile.chan c .dac_ramplen).toNat = (msglen / 4).toNat ∧
      ∀ i < (msglen / 4).toNat, b'.tables c (BitVec.ofNat 16 i) =
        storedWord F c (b.psc.regs GlobReg.resolution.offset) b.psc (msgWord msg i) := by
  intro b'
  set b₁ := Loaded.apply (.out32 (chanAddr c .dac_ramplen) (msglen / 4)) b with hb₁
  have hloop := runOn_range extends_psc
    (f := fun i => rampPoint F c.u32 (b.psc.regs GlobReg.resolution.offset) i (msgWord msg i))
    (I := Loading c b₁ fun i =>
      storedWord F c (b.psc.regs GlobReg.resolution.offset) b₁.psc (msgWord msg i))
    (msglen / 4).toNat ⟨rfl, rfl, rfl, fun i hi => absurd hi (Nat.not_lt_zero i)⟩
    fun k hk b' h => h.pass (by omega)
  rw [← runOn_write_ramptable hn] at hloop
  refine ⟨?_, hloop.point⟩
  rw [hloop.ramplen, hb₁, regFile_apply_out32, if_pos rfl]
  show ((msglen / 4).setWidth 16).toNat = _
  rw [BitVec.toNat_setWidth]
  omega

end

/-! ## Tables -/

theorem storedWord_eq_iff {φ : Type} {dec : BitVec 32 → ℚ} {enc : ℚ → BitVec 32} {c : Chan}
    {res : BitVec 32} (hres : res = 0 ∨ res = 1) {s : Psc φ} {data : BitVec 32}
    (h : Converts dec s c data) :
    (storedWord (Exact dec enc) c res s data).toInt = clampCode res (rampCode dec s c data) ↔
      IsCode res (rampCode dec s c data) :=
  limited_eq_clampCode_iff hres h.2.1 h.2.2

/-- A table is loaded as it should be exactly if it is too long, or none of its points needs a
limit. -/
theorem loadsTable_iff {φ : Type} [FlashChip φ] (dec : BitVec 32 → ℚ) (enc : ℚ → BitVec 32)
    (b : Loaded φ)
    (hres : b.psc.regs GlobReg.resolution.offset = 0 ∨ b.psc.regs GlobReg.resolution.offset = 1)
    (c : Chan) (msg : Buf) (msglen : BitVec 32) :
    LoadsTable dec enc b c msg msglen ↔
      ((msglen / 4).toNat ≤ 50000 → ∀ i < (msglen / 4).toNat,
        Converts dec b.psc c (msgWord msg i) →
          IsCode (b.psc.regs GlobReg.resolution.offset) (rampCode dec b.psc c (msgWord msg i))) := by
  unfold LoadsTable
  by_cases hn : (msglen / 4).toNat ≤ 50000
  · obtain ⟨hlen, hpoint⟩ := loading_write_ramptable (F := Exact dec enc) (c := c) hn msg b
    rw [if_pos hn, forall_prop_of_true hn]
    constructor
    · intro h i hi hconv
      have hi' := h.point i hi hconv
      rw [hpoint i hi] at hi'
      exact (storedWord_eq_iff hres hconv).mp hi'
    · intro h
      refine ⟨hlen, ?_⟩
      intro i hi hconv
      rw [hpoint i hi]
      exact (storedWord_eq_iff hres hconv).mpr (h i hi hconv)
  · rw [if_neg hn]
    refine iff_of_true ?_ fun h => absurd h hn
    unfold write_ramptable
    rw [if_pos (Nat.not_le.mp hn)]
    rfl

/-- 20 bits and a scale factor of 1. -/
def emptyTables : Loaded Nor where
  psc :=
    { regs := fun a => if a = GlobReg.resolution.offset then 1 else 0
      scalefactors := fun _ _ => 0x3F800000
      CONVVOLTSTODACBITS := convVoltsToBits true
      smoothramp_type := 0
      smoothramp_percentcurved := 10
      flash := ⟨fun _ => 0xFF, false⟩ }
  tables := fun _ _ => 0

/-- A table of one point. -/
def onePoint (w : BitVec 32) : Buf := fun i => if i < 4 then w.extractLsb' (24 - 8 * i) 8 else 0

/-- The point 5. -/
theorem loadsTable_five :
    LoadsTable binary32 toBinary32 emptyTables .ps1 (onePoint 0x40A00000) 4 := by
  refine (loadsTable_iff binary32 toBinary32 emptyTables (.inr rfl) .ps1 _ 4).mpr ?_
  intro _ i hi _
  obtain rfl : i = 0 := by
    have : ((4 : BitVec 32) / 4).toNat = 1 := by decide
    omega
  have hcode : rampCode binary32 emptyTables.psc .ps1 (msgWord (onePoint 0x40A00000) 0) = 262144 := by
    decide +kernel
  rw [hcode]
  decide

/-- The point 10, one code above the range, is stored as the lowest code. -/
theorem ten_not_loadsTable :
    ¬ LoadsTable binary32 toBinary32 emptyTables .ps1 (onePoint 0x41200000) 4 := by
  intro h
  have hcode : rampCode binary32 emptyTables.psc .ps1 (msgWord (onePoint 0x41200000) 0) = 524288 := by
    decide +kernel
  have hpoint := (loading_write_ramptable (F := Exact binary32 toBinary32) (c := .ps1)
    (show ((4 : BitVec 32) / 4).toNat ≤ 50000 by decide) (onePoint 0x41200000) emptyTables).2 0
    (by decide)
  have hloaded := HoldsTable.point h 0 (by decide) ⟨by decide +kernel, by rw [hcode]; decide⟩
  rw [hpoint, hcode] at hloaded
  exact absurd hloaded (by decide +kernel)

end Zpsc.Commands
