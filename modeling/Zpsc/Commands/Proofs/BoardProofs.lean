import Zpsc.Commands.Board

/-!
# Registers and scale factors after a list of effects

A register keeps the low bits of the word last written to it, a scale factor the word last assigned.
-/

namespace Zpsc.Commands

open Effects Cmd

/-! ## The bus and the register file -/

theorem fieldWidth_glob (g : GlobReg) : fieldWidth g.offset = some g.width := by
  cases g <;> rfl

theorem fieldWidth_chan (c : Chan) (r : ChanReg) : fieldWidth (chanAddr c r) = some r.width := by
  have h1 := c.num_pos
  have h2 := c.num_le
  have h3 := r.offset_lt
  have hmod : chanAddr c r % CHBASEADDR = r.offset := by
    simp only [chanAddr, CHBASEADDR]
    omega
  have hin : ¬ (chanAddr c r < CHBASEADDR ∨ 5 * CHBASEADDR ≤ chanAddr c r) := by
    simp only [chanAddr, CHBASEADDR]
    omega
  rw [fieldWidth, if_neg hin, hmod, ChanReg.ofOffset_offset, Option.map_some]

theorem setWidth_field {w : ℕ} (h : w ≤ 32) (v : BitVec 32) :
    ((v.setWidth w).setWidth 32).setWidth w = v.setWidth w := by
  apply BitVec.eq_of_getLsbD_eq
  intro j hj
  simp [hj, show j < 32 by omega]

theorem Bus.chan_congr {b b' : Bus} {c : Chan} {r : ChanReg}
    (h : b (chanAddr c r) = b' (chanAddr c r)) : b.regFile.chan c r = b'.regFile.chan c r :=
  congrArg (BitVec.setWidth r.width) h

/-- A write on the bus is the write to the register file. -/
theorem Bus.regFile_out32 (b : Bus) (a : ℕ) (v : BitVec 32) :
    (b.out32 a v).regFile = b.regFile.out32 a v := by
  have hglob : ∀ g : GlobReg, g.width ≤ 32 := fun g => by cases g <;> decide
  unfold Bus.regFile RegFile.out32 Bus.out32
  congr 1
  · funext g
    split
    · rename_i h
      rw [← h, fieldWidth_glob]
      exact setWidth_field (hglob g) v
    · rfl
  · funext c r
    split
    · rename_i h
      rw [← h, fieldWidth_chan]
      exact setWidth_field (r.width_le) v
    · rfl

/-! ## Lists of effects -/

variable {φ : Type} [FlashChip φ] {es : List Eff}

theorem reg_of_not_mem {a : ℕ} (h : ∀ v, .out32 a v ∉ es) (s : Psc φ) :
    (applyAll es s).regs a = s.regs a := by
  refine applyAll_keeps (fun s => s.regs a) es s ?_
  intro e he s'
  cases e with
  | out32 a' v =>
    have hne : a ≠ a' := by
      rintro rfl
      exact h v he
    exact if_neg hne
  | setSf | transfer => rfl

/-- A register that a list writes with one word only. -/
theorem reg_of_mem {c : Chan} {r : ChanReg} {v : BitVec 32} (hv : .out32 (chanAddr c r) v ∈ es)
    (h : ∀ v', .out32 (chanAddr c r) v' ∈ es → v' = v) (s : Psc φ) :
    (applyAll es s).regs (chanAddr c r) = (v.setWidth r.width).setWidth 32 := by
  have hsets := applyAll_sets (fun s => s.regs (chanAddr c r)) (· = .out32 (chanAddr c r) v)
    ((v.setWidth r.width).setWidth 32) es s fun e he s' => ?_
  · rw [if_pos ⟨_, hv, rfl⟩] at hsets
    exact hsets
  · cases e with
    | out32 a v' =>
      by_cases ha : chanAddr c r = a
      · subst ha
        rw [h v' he, if_pos rfl]
        show (if chanAddr c r = chanAddr c r then _ else _) = _
        rw [if_pos rfl, fieldWidth_chan]
      · rw [if_neg fun e => ha (Eff.out32.inj e).1.symm]
        exact if_neg ha
    | setSf => exact (if_neg nofun).symm
    | transfer => exact (if_neg nofun).symm

theorem sf_of_not_mem {i : BitVec 32} {f : Sf} (h : ∀ w, .setSf i f w ∉ es) (s : Psc φ) :
    (applyAll es s).scalefactors i f = s.scalefactors i f := by
  refine applyAll_keeps (fun s => s.scalefactors i f) es s ?_
  intro e he s'
  cases e with
  | setSf i' f' w =>
    have hne : ¬ (i = i' ∧ f = f') := by
      rintro ⟨rfl, rfl⟩
      exact h w he
    exact if_neg hne
  | out32 | transfer => rfl

theorem sf_of_mem {i : BitVec 32} {f : Sf} {w : BitVec 32} (hw : .setSf i f w ∈ es)
    (h : ∀ w', .setSf i f w' ∈ es → w' = w) (s : Psc φ) :
    (applyAll es s).scalefactors i f = w := by
  have hsets := applyAll_sets (fun s => s.scalefactors i f) (· = .setSf i f w) w es s
    fun e he s' => ?_
  · rw [if_pos ⟨_, hw, rfl⟩] at hsets
    exact hsets
  · cases e with
    | setSf i' f' w' =>
      by_cases hif : i = i' ∧ f = f'
      · obtain ⟨rfl, rfl⟩ := hif
        rw [h w' he, if_pos rfl]
        exact if_pos ⟨rfl, rfl⟩
      · rw [if_neg fun e => hif ⟨(Eff.setSf.inj e).1.symm, (Eff.setSf.inj e).2.1.symm⟩]
        exact if_neg hif
    | out32 => exact (if_neg nofun).symm
    | transfer => exact (if_neg nofun).symm

theorem flash_of_not_mem (h : ∀ send, .transfer send ∉ es) (s : Psc φ) :
    (applyAll es s).flash = s.flash := by
  refine applyAll_keeps (fun s => s.flash) es s ?_
  intro e he s'
  cases e with
  | transfer send => exact absurd he (h send)
  | out32 | setSf => rfl

end Zpsc.Commands
