import Zpsc.Commands.Proofs.CommandProofs

/-!
# What a command leaves alone

A channel message leaves alone the registers and scale factors outside its footprint, those of the
other channels included. The exception is a fault clear, which in main dipole mode is for all
channels.
-/

namespace Zpsc.Commands

open Bits Effects Cmd

theorem u32_sub_one_inj {c c' : Chan} (h : c.u32 - 1 = c'.u32 - 1) : c = c' := by
  cases c <;> cases c' <;> first | rfl | exact absurd h (by decide)

@[simp] theorem u32_inj {c c' : Chan} : c.u32 = c'.u32 ↔ c = c' :=
  ⟨fun h => u32_sub_one_inj (congrArg (· - 1) h), congrArg Chan.u32⟩

variable {φ F : Type} [FlashChip φ] [Fpu F] {c c' : Chan} {m : ChanMsg} {r : ChanReg}

/-! ## One write -/

theorem chan_out32 (c : Chan) (r : ChanReg) (v : BitVec 32) (s : Psc φ) (c' : Chan)
    (r' : ChanReg) :
    ((Xil_Out32 (chanReg c.u32 r.offset) v : Sw φ Unit).final s).regs.regFile.chan c' r' =
      if c' = c ∧ r' = r then v.setWidth r'.width else s.regs.regFile.chan c' r' := by
  rw [chanReg_eq_chanAddr, ← RegFile.out32_chan, ← Bus.regFile_out32]
  rfl

/-! ## Channel messages -/

/-- Where a message writes. -/
theorem out_chanCommand {stack : Stack} {data : BitVec 32} {s : Psc φ} {a : ℕ} {v : BitVec 32}
    (he : .out32 a v ∈ (chanCommand F stack c.u32 data m : Sw φ Unit).effects s) :
    (∃ r ∈ m.writes, a = chanAddr c r) ∨
      (m = .FAULT_CLEAR_MSG ∧ ∃ c', a = chanAddr c' .fault_clear) ∨ a = GlobReg.softtrig.offset := by
  by_cases h1 : m = .FAULT_CLEAR_MSG
  · subst h1
    replace he : .out32 a v ∈ (faultClear c.u32 data : Sw φ Unit).effects s := he
    rw [effects_faultClear_chan] at he
    refine .inr (.inl ⟨rfl, ?_⟩)
    split at he
    · obtain ⟨c', -, he⟩ := List.mem_map.mp he
      exact ⟨c', (Eff.out32.inj he).1.symm⟩
    · exact ⟨c, (Eff.out32.inj (List.mem_singleton.mp he)).1⟩
  · by_cases h2 : m = .USR_TRIG_MSG
    · subst h2
      obtain ⟨_, he⟩ := mem_usrTrig he
      exact .inr (.inr (Eff.out32.inj he).1)
    · obtain ⟨r, hr, ha⟩ := reach_chanCommand stack c.u32 data h1 h2 s _ he
      exact .inl ⟨r, hr, ha.trans (chanReg_eq_chanAddr c r)⟩

/-- The registers that a message leaves alone. -/
theorem reg_chanCommand (stack : Stack) (data : BitVec 32) (s : Psc φ)
    (h : ¬ (c' = c ∧ r ∈ m.writes)) (hclear : m = .FAULT_CLEAR_MSG → r ≠ .fault_clear) :
    ((chanCommand F stack c.u32 data m : Sw φ Unit).final s).regs (chanAddr c' r) =
      s.regs (chanAddr c' r) := by
  rw [final]
  refine reg_of_not_mem (fun v he => ?_) s
  rcases out_chanCommand he with ⟨r', hr', ha⟩ | ⟨hm, c'', ha⟩ | ha
  · obtain ⟨rfl, rfl⟩ := chanAddr_inj ha
    exact h ⟨rfl, hr'⟩
  · exact hclear hm (chanAddr_inj ha).2
  · exact GlobReg.softtrig.offset_ne_chanAddr c' r ha.symm

theorem glob_chanCommand {g : GlobReg} (hg : g ≠ .softtrig) (stack : Stack) (data : BitVec 32)
    (s : Psc φ) :
    ((chanCommand F stack c.u32 data m : Sw φ Unit).final s).regs g.offset = s.regs g.offset := by
  rw [final]
  refine reg_of_not_mem (fun v he => ?_) s
  rcases out_chanCommand he with ⟨r, -, ha⟩ | ⟨-, c', ha⟩ | ha
  · exact g.offset_ne_chanAddr c r ha
  · exact g.offset_ne_chanAddr c' .fault_clear ha
  · exact hg (GlobReg.offset_inj ha)

/-- The scale factors that a message leaves alone. -/
theorem sf_chanCommand (stack : Stack) (data : BitVec 32) (s : Psc φ) {f : Sf}
    (h : ¬ (c' = c ∧ f ∈ m.sets)) :
    ((chanCommand F stack c.u32 data m : Sw φ Unit).final s).scalefactors (c'.u32 - 1) f =
      s.scalefactors (c'.u32 - 1) f := by
  rw [final]
  refine sf_of_not_mem (fun w he => ?_) s
  by_cases h1 : m = .FAULT_CLEAR_MSG
  · subst h1
    obtain ⟨_, he⟩ := mem_faultClear he
    cases he
  · by_cases h2 : m = .USR_TRIG_MSG
    · subst h2
      obtain ⟨_, he⟩ := mem_usrTrig he
      cases he
    · obtain ⟨hi, hf⟩ := reach_chanCommand stack c.u32 data h1 h2 s _ he
      exact h ⟨u32_sub_one_inj hi, hf⟩

/-! ## General writes -/

section General

variable {es : List Eff} (hes : ∀ e ∈ es, e.General)

include hes

theorem reg_general (hr : r ∉ rampRegs) (s : Psc φ) :
    (applyAll es s).regs (chanAddr c r) = s.regs (chanAddr c r) := by
  refine reg_of_not_mem (fun v he => ?_) s
  rcases hes _ he with ⟨g, -, hg⟩ | ⟨r', hr', ha⟩
  · exact g.offset_ne_chanAddr c r hg.symm
  · obtain ⟨-, rfl⟩ := chanAddr_inj (ha.trans (chanReg_eq_chanAddr .ps1 r'))
    exact hr hr'

theorem glob_general {g : GlobReg} (hg : g.flavor = true) (s : Psc φ) :
    (applyAll es s).regs g.offset = s.regs g.offset := by
  refine reg_of_not_mem (fun v he => ?_) s
  rcases hes _ he with ⟨g', hg', ha⟩ | ⟨r, -, ha⟩
  · rw [GlobReg.offset_inj ha, hg'] at hg
    exact Bool.false_ne_true hg
  · exact g.offset_ne_chanAddr .ps1 r (ha.trans (chanReg_eq_chanAddr .ps1 r))

theorem sf_general (i : BitVec 32) (f : Sf) (s : Psc φ) :
    (applyAll es s).scalefactors i f = s.scalefactors i f :=
  sf_of_not_mem (fun _ he => hes _ he) s

end General

end Zpsc.Commands
