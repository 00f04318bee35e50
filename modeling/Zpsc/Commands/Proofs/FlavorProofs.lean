import Zpsc.Commands.Flavor
import Zpsc.Commands.Proofs.BoardProofs

/-!
# When software and FPGA agree on the resolution

The register follows the last byte, and an invalid one leaves its low bit clear; the constants
follow the last valid byte. One call is `resolution_flavor` and `conv_flavor`, a sequence of calls
the same with the last byte and the last valid byte.
-/

namespace Zpsc.Commands

open Bits

namespace Firmware

variable {φ : Type}

/-! ## One call -/

theorem glob_out32_ne (s : Firmware φ) {g : GlobReg} {a : ℕ} (h : g.offset ≠ a) (v : BitVec 32) :
    (s.out32 a v).regs.regFile.glob g = s.regs.regFile.glob g := by
  rw [out32, Bus.regFile_out32]
  exact if_neg h

theorem glob_out32 (s : Firmware φ) (g : GlobReg) (v : BitVec 32) :
    (s.out32 g.offset v).regs.regFile.glob g = v.setWidth g.width := by
  rw [out32, Bus.regFile_out32]
  exact if_pos rfl

/-- Only one part of the function writes the register. -/
theorem resolution_eq (rdBuf : Fin 8 → Byte) (s : Firmware φ) :
    (s.ReadHardwareFlavor rdBuf).regs.regFile.glob .resolution =
      (flavorResolution (rdBuf 1) (flavorBit NUMCHANS_REG (rdBuf 0) s)).regs.regFile.glob
        .resolution := by
  have hramp : ∀ val percent (s : Firmware φ), (flavorSmoothRamp val percent s).regs.regFile.glob
      .resolution = s.regs.regFile.glob .resolution := by
    intro val percent s
    unfold flavorSmoothRamp
    split <;> exact glob_out32_ne s (by decide) _
  rw [ReadHardwareFlavor, hramp]
  simp only [flavorMode, flavorPolarity]
  rw [glob_out32_ne _ (by decide), glob_out32_ne _ (by decide), glob_out32_ne _ (by decide)]
  exact glob_out32_ne _ (by decide) _

theorem resolution_flavor (rdBuf : Fin 8 → Byte) (s : Firmware φ) :
    (s.ReadHardwareFlavor rdBuf).regs.regFile.glob .resolution =
      if rdBuf 1 = 0 then 0 else if rdBuf 1 = 1 then 1 else 2 := by
  rw [resolution_eq, flavorResolution]
  by_cases h0 : rdBuf 1 = 0
  · simp only [h0, if_true]
    exact glob_out32 _ _ _
  · by_cases h1 : rdBuf 1 = 1
    · simp only [h1]
      exact glob_out32 _ _ _
    · simp only [h0, h1, if_false]
      exact glob_out32 _ _ _

/-- No register of a channel is written. -/
theorem regs_flavor (rdBuf : Fin 8 → Byte) (s : Firmware φ) (c : Chan) (r : ChanReg) :
    (s.ReadHardwareFlavor rdBuf).regs (chanAddr c r) = s.regs (chanAddr c r) := by
  have hlow : ∀ a < 0x200, ∀ v (s : Firmware φ),
      (s.out32 a v).regs (chanAddr c r) = s.regs (chanAddr c r) := by
    intro a ha v s
    have h1 := c.num_pos
    refine if_neg ?_
    simp only [chanAddr, CHBASEADDR]
    omega
  have hglob : ∀ (g : GlobReg) v (s : Firmware φ),
      (s.out32 g.offset v).regs (chanAddr c r) = s.regs (chanAddr c r) :=
    fun g v s => if_neg (g.offset_ne_chanAddr c r).symm
  have hramp : ∀ val percent (s : Firmware φ),
      (flavorSmoothRamp val percent s).regs (chanAddr c r) = s.regs (chanAddr c r) := by
    intro val percent s
    unfold flavorSmoothRamp
    split <;> exact hglob _ _ s
  have hres : ∀ val (s : Firmware φ),
      (flavorResolution val s).regs (chanAddr c r) = s.regs (chanAddr c r) := by
    intro val s
    unfold flavorResolution
    split
    · exact hglob _ _ s
    · split
      · exact hglob _ _ s
      · rw [hglob, hglob]
  rw [ReadHardwareFlavor, hramp]
  simp only [flavorMode, flavorPolarity, flavorBit]
  rw [hglob, hglob, hglob, hlow _ (by decide), hres, hlow _ (by decide)]

theorem scalefactors_flavor (rdBuf : Fin 8 → Byte) (s : Firmware φ) :
    (s.ReadHardwareFlavor rdBuf).scalefactors = s.scalefactors := by
  have hres : ∀ val (s : Firmware φ), (flavorResolution val s).scalefactors = s.scalefactors := by
    intro val s
    unfold flavorResolution
    split
    · rfl
    · split <;> rfl
  unfold ReadHardwareFlavor flavorSmoothRamp
  split <;> exact hres _ _

theorem conv_flavor (rdBuf : Fin 8 → Byte) (s : Firmware φ) :
    (s.ReadHardwareFlavor rdBuf).CONVVOLTSTODACBITS =
        (if rdBuf 1 = 0 ∨ rdBuf 1 = 1 then convVoltsToBits (rdBuf 1 = 1)
          else s.CONVVOLTSTODACBITS) ∧
      (s.ReadHardwareFlavor rdBuf).CONVDACBITSTOVOLTS =
        if rdBuf 1 = 0 ∨ rdBuf 1 = 1 then convBitsToVolts (rdBuf 1 = 1)
        else s.CONVDACBITSTOVOLTS := by
  -- only the byte of the resolution sets them
  have hconv : (s.ReadHardwareFlavor rdBuf).CONVVOLTSTODACBITS =
        (flavorResolution (rdBuf 1) (flavorBit NUMCHANS_REG (rdBuf 0) s)).CONVVOLTSTODACBITS ∧
      (s.ReadHardwareFlavor rdBuf).CONVDACBITSTOVOLTS =
        (flavorResolution (rdBuf 1) (flavorBit NUMCHANS_REG (rdBuf 0) s)).CONVDACBITSTOVOLTS := by
    unfold ReadHardwareFlavor flavorSmoothRamp
    split <;> exact ⟨rfl, rfl⟩
  rw [hconv.1, hconv.2, flavorResolution]
  by_cases h0 : rdBuf 1 = 0
  · simp [h0]
  · by_cases h1 : rdBuf 1 = 1
    · simp [h1]
    · simp only [h0, h1, or_self, if_false]
      exact ⟨rfl, rfl⟩

end Firmware

/-! ## The bytes -/

theorem lastValid_append (bs : List Byte) (b : Byte) :
    lastValid (bs ++ [b]) = if b = 0 ∨ b = 1 then some b else lastValid bs := by
  unfold lastValid
  by_cases h : b = 0 ∨ b = 1
  · rw [List.filter_append, List.filter_cons_of_pos (by simpa using h), if_pos h]
    exact List.getLast?_concat ..
  · rw [List.filter_append, List.filter_cons_of_neg (by simpa using h), if_neg h, List.filter_nil,
      List.append_nil]

theorem lastValid_valid {bs : List Byte} {b : Byte} (h : lastValid bs = some b) :
    b = 0 ∨ b = 1 := by
  have hmem := List.mem_of_getLast? h
  simpa using (List.mem_filter.mp hmem).2

theorem lastValid_of_getLast {bs : List Byte} (h : bs.getLast? = some 1) :
    lastValid bs = some 1 := by
  obtain ⟨bs', rfl⟩ := List.getLast?_eq_some_iff.mp h
  rw [lastValid_append, if_pos (.inr rfl)]

/-! ## Sequences of calls -/

namespace Firmware

variable {φ : Type} (calls : List (Fin 8 → Byte)) (flash : φ)

theorem flavors_append (rdBuf : Fin 8 → Byte) (s : Firmware φ) :
    flavors (calls ++ [rdBuf]) s = (flavors calls s).ReadHardwareFlavor rdBuf := by
  rw [flavors, flavors, List.foldl_append]
  rfl

theorem conv_flavors :
    (flavors calls (powerUp flash)).CONVVOLTSTODACBITS =
        ((lastValid (calls.map fun rdBuf => rdBuf 1)).elim 0 fun b => convVoltsToBits (b = 1)) ∧
      (flavors calls (powerUp flash)).CONVDACBITSTOVOLTS =
        (lastValid (calls.map fun rdBuf => rdBuf 1)).elim 0 fun b => convBitsToVolts (b = 1) := by
  induction calls using List.reverseRecOn with
  | nil => exact ⟨rfl, rfl⟩
  | append_singleton calls rdBuf ih =>
    obtain ⟨hvolts, hbits⟩ := conv_flavor rdBuf (flavors calls (powerUp flash))
    rw [flavors_append, hvolts, hbits, ih.1, ih.2, List.map_append, List.map_singleton,
      lastValid_append]
    split <;> exact ⟨rfl, rfl⟩

/-- An invalid byte selects 18 bits. -/
theorem numbits_sel_flavors :
    (flavors calls (powerUp flash)).numbits_sel =
      decide ((calls.map fun rdBuf => rdBuf 1).getLast? = some 1) := by
  induction calls using List.reverseRecOn with
  | nil => simp [numbits_sel, flavors, powerUp, Bus.regFile]
  | append_singleton calls rdBuf ih =>
    rw [flavors_append, numbits_sel, resolution_flavor, List.map_append, List.map_singleton,
      List.getLast?_concat]
    by_cases h1 : rdBuf 1 = 1
    · rw [h1]
      rfl
    · by_cases h0 : rdBuf 1 = 0
      · rw [h0]
        rfl
      · simp only [h0, h1, if_false, Option.some.injEq, decide_false]
        rfl

/-- For all sequences of calls and all that they read. -/
theorem resolution_agrees_iff (φ : Type) (flash : φ) (calls : List (Fin 8 → Byte)) :
    (flavors calls (powerUp flash)).ResolutionAgrees ↔ ValidHistory calls := by
  obtain ⟨hvolts, hbits⟩ := conv_flavors calls flash
  have hsel := numbits_sel_flavors calls flash
  have hne : ∀ b, convVoltsToBits b ≠ 0 ∧ convBitsToVolts b ≠ 0 := by decide
  have hinj : ∀ b b', convVoltsToBits b = convVoltsToBits b' → b = b' := by decide
  constructor
  · intro h
    cases hlast : lastValid (calls.map fun rdBuf => rdBuf 1) with
    | none =>
      rw [hlast] at hvolts
      exact absurd hvolts h.volts_ne_zero
    | some b =>
      have hb : decide (b = 1) =
          decide ((calls.map fun rdBuf => rdBuf 1).getLast? = some 1) := by
        refine hinj _ _ ?_
        rw [← hsel, ← h.volts, hvolts, hlast]
        rfl
      rcases lastValid_valid hlast with rfl | rfl
      · exact .inl hlast
      · exact .inr ⟨hlast, of_decide_eq_true hb.symm⟩
  · have hmk : ∀ b, lastValid (calls.map fun rdBuf => rdBuf 1) = some b →
        decide (b = 1) = (flavors calls (powerUp flash)).numbits_sel →
        (flavors calls (powerUp flash)).ResolutionAgrees := by
      intro b hlast hb
      rw [hlast] at hvolts hbits
      have hv : (flavors calls (powerUp flash)).CONVVOLTSTODACBITS = convVoltsToBits (b = 1) :=
        hvolts
      have hw : (flavors calls (powerUp flash)).CONVDACBITSTOVOLTS = convBitsToVolts (b = 1) :=
        hbits
      exact ⟨hv.trans (congrArg _ hb), hw.trans (congrArg _ hb), hv ▸ (hne _).1, hw ▸ (hne _).2⟩
    rintro (hlast | ⟨hlast, hend⟩)
    · refine hmk 0 hlast ?_
      rw [hsel]
      refine (decide_eq_false fun hend => ?_).symm
      rw [lastValid_of_getLast hend] at hlast
      exact absurd (Option.some.inj hlast) (by decide)
    · refine hmk 1 hlast ?_
      rw [hsel]
      exact (decide_eq_true hend).symm

/-- 20 bits, then a byte that is not programmed: the FPGA goes to 18 bits alone. -/
theorem erased_disagrees :
    let s := flavors [fun _ => 1, fun _ => 0xFF] (powerUp ())
    s.CONVVOLTSTODACBITS = convVoltsToBits true ∧ s.numbits_sel = false ∧
      ¬ s.ResolutionAgrees := by
  intro s
  have hvolts : s.CONVVOLTSTODACBITS = convVoltsToBits true := by decide
  have hsel : s.numbits_sel = false := by decide
  refine ⟨hvolts, hsel, ?_⟩
  intro h
  have heq := h.volts
  rw [hvolts, hsel] at heq
  exact absurd heq (by decide)

end Firmware

end Zpsc.Commands
