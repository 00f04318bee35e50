import Zpsc.Commands.Confined
import Zpsc.Commands.Proofs.BoardProofs
import Zpsc.Commands.Proofs.FootprintProofs

/-!
# Channel commands stay in their channel

For the numbers of the channels the footprint of a message lies in the channel (`Eff.Reach.own`).
-/

namespace Zpsc.Commands

open Bits Effects Cmd

/-! ## Addresses -/

/-- For the numbers of the channels the address does not wrap. -/
theorem chanReg_u32 (c : Chan) {off : ℕ} (h : off < CHBASEADDR) :
    chanReg c.u32 off = c.num * CHBASEADDR + off := by
  have h1 := c.num_le
  simp only [CHBASEADDR] at h
  simp only [chanReg, Chan.u32, CHBASEADDR, BitVec.toNat_add, BitVec.toNat_mul, BitVec.toNat_ofNat]
  omega

theorem inWindow_chanReg (c : Chan) {off : ℕ} (h : off < CHBASEADDR) :
    InWindow c (chanReg c.u32 off) := by
  rw [chanReg_u32 c h, InWindow, Nat.add_mul]
  omega

theorem chanReg_eq_chanAddr (c : Chan) (r : ChanReg) : chanReg c.u32 r.offset = chanAddr c r :=
  chanReg_u32 c r.offset_lt

theorem flashAddr_sectorAddr (c : Chan) :
    addrBytes (sectorAddr c.u32) = [BitVec.ofNat 8 c.num, 0, 0] := by
  cases c <;> decide

theorem inSector_sectorAddr (c : Chan) : InSector c (flashAddr (BitVec.ofNat 8 c.num) 0 0) := by
  cases c <;> rfl

/-! ## The effects of the handlers -/

variable {φ F : Type} {c : Chan}

theorem out32_of_mem_exceptions {addr data : BitVec 32} {s : Psc φ} {e : Eff}
    (h : e ∈ exceptions c addr data s) : ∃ a v, e = .out32 a v := by
  unfold exceptions at h
  split at h
  · split at h
    · obtain ⟨c', -, rfl⟩ := List.mem_map.mp h
      exact ⟨_, _, rfl⟩
    · exact absurd h List.not_mem_nil
  · split at h
    · rcases List.mem_cons.mp h with rfl | h
      · exact ⟨_, _, rfl⟩
      · exact ⟨_, _, List.mem_singleton.mp h⟩
    · exact absurd h List.not_mem_nil
  · exact absurd h List.not_mem_nil

variable [FlashChip φ] [Fpu F]

/-- The footprint of a message to a channel lies in the channel. -/
theorem Eff.Reach.own {m : ChanMsg} {e : Eff} (h : e.Reach c.u32 m) : e.Own c := by
  cases e with
  | out32 a v =>
    obtain ⟨r, -, rfl⟩ := h
    exact inWindow_chanReg c r.offset_lt
  | setSf i f w => exact h.1
  | transfer send =>
    cases h with
    | quiet m cmd bs hm h => exact .quiet cmd bs h
    | erase =>
      rw [flashAddr_sectorAddr]
      exact .erase _ _ _ (inSector_sectorAddr c)
    | write bs =>
      rw [flashAddr_sectorAddr]
      exact .write _ _ _ _ (inSector_sectorAddr c)

theorem effects_faultClear_chan (c : Chan) (data : BitVec 32) (s : Psc φ) :
    (faultClear c.u32 data : Sw φ Unit).effects s =
      if s.regs GlobReg.main_dipole.offset = 1 then
        [Chan.ps1, .ps2, .ps3, .ps4].map fun c' => .out32 (chanAddr c' .fault_clear) data
      else [.out32 (chanAddr c .fault_clear) data] := by
  rw [effects_faultClear, chanReg_eq_chanAddr]
  rfl

/-! ## The frame -/

/-- A transfer of a channel leaves the other sectors alone. -/
theorem OwnTransfer.cell {send : List Byte} (h : OwnTransfer c send) (d : φ) {i : ℕ}
    (hi : ¬ InSector c i) : FlashChip.cell (FlashChip.transfer send d) i = FlashChip.cell d i := by
  cases h with
  | erase a2 a1 a0 h =>
    refine FlashChip.erase_cell _ _ _ _ _ ?_
    rw [show flashAddr a2 a1 a0 / FLASH_SECTOR_SIZE = c.num from h]
    exact hi
  | write a2 a1 a0 bs h =>
    -- A page lies in one sector.
    refine FlashChip.write_cell _ _ _ _ _ _ fun e => hi ?_
    simp only [InSector, FLASH_SECTOR_SIZE, FLASH_PAGE_SIZE] at h e ⊢
    omega
  | quiet cmd bs h => exact FlashChip.quiet_cell _ _ _ _ h

section Frame

variable {addr data : BitVec 32} {s : Psc φ} {es : List Eff}
  (h : ∀ e ∈ es, e.Own c ∨ e ∈ exceptions c addr data s)

include h

theorem regs_of_own {a : ℕ} (ha : ¬ InWindow c a)
    (hx : ∀ v, .out32 a v ∉ exceptions c addr data s) :
    (applyAll es s).regs a = s.regs a := by
  refine reg_of_not_mem (fun v he => ?_) s
  rcases h _ he with ho | hm
  · exact ha ho
  · exact hx v hm

theorem scalefactors_of_own {i : BitVec 32} (f : Sf) (hi : i ≠ c.u32 - 1) :
    (applyAll es s).scalefactors i f = s.scalefactors i f := by
  refine sf_of_not_mem (fun w he => ?_) s
  rcases h _ he with ho | hm
  · exact hi ho
  · obtain ⟨a, v, e⟩ := out32_of_mem_exceptions hm
    exact absurd e (by simp)

theorem flash_of_own {i : ℕ} (hi : ¬ InSector c i) :
    FlashChip.cell (applyAll es s).flash i = FlashChip.cell s.flash i := by
  refine applyAll_keeps (fun s => FlashChip.cell s.flash i) es s ?_
  intro e he s'
  cases e with
  | transfer send =>
    rcases h _ he with ho | hm
    · exact OwnTransfer.cell ho s'.flash hi
    · obtain ⟨a, v, e⟩ := out32_of_mem_exceptions hm
      exact absurd e (by simp)
  | out32 | setSf => rfl

end Frame

theorem chan_settings_effects (c : Chan) (stack : Stack) (addr data : BitVec 32) (s : Psc φ) :
    let es := (chanCommand F stack c.u32 data (ChanMsg.ofAddr addr.toNat) : Sw φ Unit).effects s
    (∀ e ∈ es, e.Own c ∨ e ∈ exceptions c addr data s) ∧
      (exceptions c addr data s ≠ [] → es = exceptions c addr data s) := by
  intro es
  by_cases h1 : ChanMsg.ofAddr addr.toNat = .FAULT_CLEAR_MSG
  · have hes : es = (faultClear c.u32 data : Sw φ Unit).effects s := by
      simp only [es, h1]
      rfl
    rw [hes, effects_faultClear_chan]
    simp only [exceptions, h1]
    split
    · exact ⟨fun e he => .inr he, fun _ => rfl⟩
    · refine ⟨fun e he => .inl ?_, fun hne => absurd rfl hne⟩
      rw [List.mem_singleton.mp he, ← chanReg_eq_chanAddr]
      exact inWindow_chanReg c ChanReg.fault_clear.offset_lt
  · by_cases h2 : ChanMsg.ofAddr addr.toNat = .USR_TRIG_MSG
    · have hes : es = exceptions c addr data s := by
        simp only [es, exceptions, h2, effects_usrTrig]
      rw [hes]
      exact ⟨fun e he => .inr he, fun _ => rfl⟩
    · have hx : exceptions c addr data s = [] := by
        unfold exceptions
        split
        · exact absurd ‹_› h1
        · exact absurd ‹_› h2
        · rfl
      rw [hx]
      exact ⟨fun e he => .inl (reach_chanCommand stack c.u32 data h1 h2 s e he).own,
        fun hne => absurd rfl hne⟩

/-- Whatever the message, the state before and the arithmetic of the processor. -/
theorem chan_settings_confined (F : Type) [Fpu F] (stack : Stack) (c : Chan) (msg : PscMsg.Buf)
    (msglen : BitVec 32) (s : Psc φ) :
    Confined c (msgWord msg 0) (msgWord msg 1) s
      ((chan_settings F stack c.u32 msg msglen : Sw φ Unit).effects s) := by
  obtain ⟨hown, honly⟩ :=
    chan_settings_effects (F := F) c stack (msgWord msg 0) (msgWord msg 1) s
  exact {
    own := hown
    only := honly
    regs := fun a ha hx => regs_of_own hown ha hx
    scalefactors := fun i f hi => scalefactors_of_own hown f hi
    flash := fun i hi => flash_of_own hown hi }

end Zpsc.Commands
