import Zpsc.Commands.Console
import Zpsc.Commands.Nor
import Zpsc.Commands.Proofs.ConfinedProofs

/-!
# When console commands stay in bounds

A message that uses scale factors stays in bounds exactly for the four channels; one that only
writes a register exactly when its address, which wraps at 32 bits, comes out in the window of a
channel (`inWindow_chanReg_iff`). That the other messages use no scale factors, and the first only
those of `sfIndices`, is `respects_chanCommand`.
-/

namespace Zpsc.Commands

open Bits Effects Cmd Control

variable {φ F : Type}

/-! ## The scale factors that a message uses -/

/-- Two states agree on everything but the scale factors outside the indices `is`. -/
structure Agree (is : List (BitVec 32)) (s s' : Psc φ) : Prop where
  regs : s.regs = s'.regs
  conv : s.CONVVOLTSTODACBITS = s'.CONVVOLTSTODACBITS
  ramp_type : s.smoothramp_type = s'.smoothramp_type
  percent : s.smoothramp_percentcurved = s'.smoothramp_percentcurved
  flash : s.flash = s'.flash
  scalefactors : ∀ i ∈ is, ∀ f, s.scalefactors i f = s'.scalefactors i f

variable [Fpu F] {is : List (BitVec 32)} {chan : BitVec 32}

theorem respects_in32 (a : ℕ) : Respects (Agree is) (Xil_In32 a : Sw φ (BitVec 32)) :=
  respects_get fun _ _ h => congrFun h.regs a

theorem respects_conv : Respects (Agree is) (convvoltstodacbits F : Sw φ F) :=
  respects_get fun _ _ h => congrArg Fpu.single h.conv

theorem respects_scalefactorF (hc : chan - 1 ∈ is) (f : Sf) :
    Respects (Agree is) (scalefactorF F chan f : Sw φ F) :=
  respects_get fun _ _ h => congrArg Fpu.single (h.scalefactors _ hc f)

theorem respects_scalefactor (hc : chan - 1 ∈ is) (f : Sf) :
    Respects (Agree is) (scalefactor chan f : Sw φ (BitVec 32)) :=
  respects_get fun _ _ h => h.scalefactors _ hc f

variable [FlashChip φ]

theorem agree_kept : Kept Eff (Agree (φ := φ) is) := by
  intro e s s' h
  obtain ⟨h1, h2, h3, h4, h5, h6⟩ := h
  cases e with
  | out32 a v => exact ⟨congrArg (fun b => Bus.out32 b a v) h1, h2, h3, h4, h5, h6⟩
  | setSf i f w =>
    refine ⟨h1, h2, h3, h4, h5, ?_⟩
    intro i' hi' f'
    show (if i' = i ∧ f' = f then w else s.scalefactors i' f') =
      if i' = i ∧ f' = f then w else s'.scalefactors i' f'
    rw [h6 i' hi' f']
  | transfer send =>
    exact ⟨h1, h2, h3, h4, congrArg (FlashChip.transfer send) h5, h6⟩

theorem respects_transfer (send : List Byte) :
    Respects (Agree is) (XQspiPs_PolledTransfer send : Sw φ (List Byte)) := by
  refine (respects_get fun _ _ h => by rw [h.flash]).bind agree_kept fun _ => ?_
  exact (respects_emit _).bind agree_kept fun _ => respects_pure _

theorem respects_waitReady : Respects (Agree is) (waitReady : Sw φ Unit) := by
  refine (respects_get fun s s' h => ?_).bind agree_kept fun n => ?_
  · simp only [h.flash]
  · refine respects_forM agree_kept _ ?_
    intro _
    exact (respects_transfer _).bind agree_kept fun _ => respects_pure _

theorem respects_readQspi (stack : Stack) :
    Respects (Agree is) (readQspi stack chan : Sw φ Unit) := by
  refine (respects_transfer _).bind agree_kept ?_
  intro buf
  refine (respects_forM agree_kept _ fun _ => respects_emit _).bind agree_kept fun _ => ?_
  exact respects_forM agree_kept _ fun _ => respects_emit _

theorem respects_writeQspi (hc : chan - 1 ∈ is) (stack : Stack) :
    Respects (Agree is) (writeQspi stack chan : Sw φ Unit) := by
  have hcmd : ∀ send, Respects (Agree is) (do
      let _ ← XQspiPs_PolledTransfer [FLASH_WRITE_ENABLE_CMD]
      let _ ← XQspiPs_PolledTransfer send
      waitReady : Sw φ Unit) := fun send =>
    (respects_transfer _).bind agree_kept fun _ =>
      (respects_transfer send).bind agree_kept fun _ => respects_waitReady
  refine (hcmd _).bind agree_kept ?_
  intro _
  have hgather : Respects (Agree is) (QspiGatherData stack chan stack.qspibuf : Sw φ _) := by
    refine (respects_get fun s s' h => ?_).bind agree_kept fun _ => ?_
    · simp only [h.regs]
    · refine (respects_get fun s s' h => ?_).bind agree_kept fun _ => respects_pure _
      exact List.map_congr_left fun f _ => h.scalefactors _ hc f
  refine hgather.bind agree_kept ?_
  intro buf
  exact (hcmd _).bind agree_kept fun _ => respects_readQspi stack

theorem respects_rampDuration (hc : chan - 1 ∈ is) (new cur : BitVec 32) :
    Respects (Agree is) (rampDuration F chan new cur : Sw φ F) := by
  refine (respects_scalefactorF hc _).bind agree_kept ?_
  intro _
  refine (respects_scalefactorF hc _).bind agree_kept ?_
  intro _
  refine respects_conv.bind agree_kept ?_
  intro _
  exact (respects_in32 _).bind agree_kept fun _ => respects_pure _

theorem respects_cosine (hc : chan - 1 ∈ is) (new : BitVec 32) :
    Respects (Agree is) (Calc_WriteRaisedCosineSmooth F chan new : Sw φ Unit) := by
  refine (respects_in32 _).bind agree_kept ?_
  intro cur
  refine (respects_rampDuration hc _ _).bind agree_kept ?_
  intro _
  exact (respects_emit _).bind agree_kept fun _ => respects_emit _

theorem respects_linear (hc : chan - 1 ∈ is) (new : BitVec 32) :
    Respects (Agree is) (Calc_WriteLinearSmooth F chan new : Sw φ Unit) := by
  refine (respects_get fun _ _ h => h.percent).bind agree_kept fun _ => ?_
  refine (respects_in32 _).bind agree_kept ?_
  intro cur
  refine (respects_rampDuration hc _ _).bind agree_kept ?_
  intro _
  refine (respects_emit _).bind agree_kept fun _ => (respects_emit _).bind agree_kept fun _ => ?_
  refine (respects_emit _).bind agree_kept fun _ => (respects_emit _).bind agree_kept fun _ => ?_
  refine (respects_emit _).bind agree_kept fun _ => (respects_emit _).bind agree_kept fun _ => ?_
  exact respects_emit _

theorem respects_fofbScalefactor (w : BitVec 32) :
    Respects (Agree is) (fofbScalefactor F w : Sw φ (BitVec 32)) :=
  respects_conv.bind agree_kept fun _ => respects_pure _

theorem respects_opmode (mode : BitVec 32) (hc : mode = FOFB → chan - 1 ∈ is) :
    Respects (Agree is) (Set_dacOpmode F chan mode : Sw φ Unit) := by
  unfold Set_dacOpmode
  split
  · exact respects_emit _
  · split
    · rename_i hm
      refine (respects_scalefactor (hc hm) _).bind agree_kept ?_
      intro _
      refine (respects_fofbScalefactor _).bind agree_kept ?_
      intro _
      exact (respects_emit _).bind agree_kept fun _ => respects_emit _
    · exact (respects_emit _).ite (respects_pure _)

theorem respects_setDac (hc : chan - 1 ∈ is) (amps : F) :
    Respects (Agree is) (Set_dac F chan amps : Sw φ Unit) := by
  refine (respects_in32 _).bind agree_kept ?_
  intro _
  refine (respects_in32 _).bind agree_kept ?_
  intro _
  refine (respects_scalefactorF hc _).bind agree_kept ?_
  intro _
  refine respects_conv.bind agree_kept ?_
  intro _
  refine (respects_get fun _ _ h => h.ramp_type).bind agree_kept fun _ => ?_
  refine .ite ((respects_cosine hc _).ite (respects_linear hc _)) ?_
  exact (respects_emit _).ite (respects_pure _)

theorem respects_thresh (hc : chan - 1 ∈ is) (dac : Bool) (data : BitVec 32) (f : Sf) :
    Respects (Agree is) (thresh F dac chan data f : Sw φ (BitVec 32)) := by
  refine respects_conv.bind agree_kept ?_
  intro _
  exact (respects_scalefactorF hc _).bind agree_kept fun _ => respects_pure _

theorem respects_protVal (data : BitVec 32) (p : ProtMsg)
    (hc : usesSf data (.prot p) = true → chan - 1 ∈ is) :
    Respects (Agree is) (protVal F chan data p : Sw φ (BitVec 32)) := by
  cases p <;> first | exact respects_thresh (hc rfl) _ _ _ | exact respects_pure _

theorem respects_offsetVal (hc : chan - 1 ∈ is) (data : BitVec 32) (o : OffsetMsg) :
    Respects (Agree is) (offsetVal F chan data o : Sw φ (BitVec 32)) := by
  refine respects_conv.bind agree_kept ?_
  intro _
  exact (respects_scalefactorF hc _).bind agree_kept fun _ => respects_pure _

theorem respects_faultClear (data : BitVec 32) :
    Respects (Agree is) (faultClear chan data : Sw φ Unit) := by
  refine (respects_in32 _).bind agree_kept fun _ => .ite ?_ (respects_emit _)
  refine (respects_emit _).bind agree_kept fun _ => (respects_emit _).bind agree_kept fun _ => ?_
  exact (respects_emit _).bind agree_kept fun _ => respects_emit _

theorem sub_mem_sfIndices {data : BitVec 32} {m : ChanMsg} (h : usesSf data m = true) :
    chan - 1 ∈ sfIndices chan data m := by
  rw [sfIndices, if_pos h]
  exact List.mem_singleton_self _

/-- Of the scale factors, what a message does depends on those in `sfIndices` only. -/
theorem respects_chanCommand (stack : Stack) (chan data : BitVec 32) (m : ChanMsg) :
    Respects (Agree (sfIndices chan data m)) (chanCommand F stack chan data m : Sw φ Unit) := by
  have hc : usesSf data m = true → chan - 1 ∈ sfIndices chan data m := sub_mem_sfIndices
  cases m with
  | DAC_OPMODE_MSG => exact respects_opmode data fun h => hc (decide_eq_true h)
  | DAC_SETPT_MSG => exact respects_setDac (hc rfl) _
  | word m => exact respects_emit _
  | gain m => exact respects_emit _
  | offset m => exact (respects_offsetVal (hc rfl) _ _).bind agree_kept fun _ => respects_emit _
  | prot m => exact (respects_protVal _ _ hc).bind agree_kept fun _ => respects_emit _
  | HEART_CNTLIM_MSG => exact respects_emit _
  | FAULT_CLEAR_MSG => exact respects_faultClear data
  | sf m => exact respects_emit _
  | SF_DAC_DCCTS_MSG =>
    refine (respects_emit _).bind agree_kept ?_
    intro _
    exact (respects_fofbScalefactor _).bind agree_kept fun _ => respects_emit _
  | USR_TRIG_MSG =>
    exact .ite ((respects_emit _).bind agree_kept fun _ => respects_emit _) (respects_pure _)
  | WRITE_QSPI_MSG =>
    by_cases h : data = 1
    · exact .ite (respects_writeQspi (hc (decide_eq_true h)) stack) (respects_pure _)
    · simp only [chanCommand, if_neg h]
      exact respects_pure _
  | READ_QSPI_MSG => exact (respects_readQspi stack).ite (respects_pure _)
  | DUMP_ADCS_MSG => exact respects_pure _
  | unsupported => exact respects_pure _

/-! ## Addresses -/

theorem chanReg_eq (chan : BitVec 32) (r : ChanReg) :
    chanReg chan r.offset = chan.toNat % 2 ^ 23 * CHBASEADDR + r.offset := by
  have h1 := chan.isLt
  have h2 := r.offset_lt
  simp only [chanReg, CHBASEADDR, BitVec.toNat_add, BitVec.toNat_mul, BitVec.toNat_ofNat]
  omega

/-- The address wraps at 32 bits, so nine bits of the channel number are lost. -/
theorem inWindow_chanReg_iff (chan : BitVec 32) (r : ChanReg) :
    ((∃ c, InWindow c (chanReg chan r.offset)) ∨
        chanReg chan r.offset = GlobReg.softtrig.offset) ↔
      1 ≤ chan.toNat % 2 ^ 23 ∧ chan.toNat % 2 ^ 23 ≤ 4 := by
  have h1 := r.offset_lt
  have h2 := r.le_offset
  rw [chanReg_eq]
  constructor
  · rintro (⟨c, hc⟩ | h)
    · have h3 := c.num_pos
      have h4 := c.num_le
      simp only [InWindow, CHBASEADDR] at hc
      omega
    · simp only [CHBASEADDR, GlobReg.offset] at h
      omega
  · rintro ⟨h3, h4⟩
    obtain ⟨c, hc⟩ := Chan.exists_num h3 h4
    refine .inl ⟨c, ?_⟩
    rw [← hc, InWindow, Nat.add_mul, CHBASEADDR]
    omega

theorem sub_one_toNat_le_iff (chan : BitVec 32) :
    (chan - 1).toNat ≤ 3 ↔ 1 ≤ chan.toNat ∧ chan.toNat ≤ 4 := by
  have h := chan.isLt
  rw [BitVec.toNat_sub, show (1 : BitVec 32).toNat = 1 from rfl]
  omega

/-! ## The message -/

theorem msgWord_msgBuf (addr data : BitVec 32) :
    msgWord (msgBuf addr data) 0 = addr ∧ msgWord (msgBuf addr data) 1 = data :=
  ⟨be32_extract addr, be32_extract data⟩

theorem chan_settings_msgBuf (stack : Stack) (chan addr data : BitVec 32) :
    (chan_settings F stack chan (msgBuf addr data) 8 : Sw φ Unit) =
      chanCommand F stack chan data (ChanMsg.ofAddr addr.toNat) := by
  obtain ⟨h0, h1⟩ := msgWord_msgBuf addr data
  unfold chan_settings
  rw [h0, h1]

/-! ## Register writes -/

/-- A message that only writes a register does write one. -/
theorem exists_out_of_registerOnly (F : Type) [Fpu F] (stack : Stack) (chan : BitVec 32)
    {data : BitVec 32} {m : ChanMsg} {s : Psc φ}
    (h : registerOnly (s.regs GlobReg.main_dipole.offset) data m = true) :
    ∃ (r : ChanReg) (v : BitVec 32), Eff.out32 (chanReg chan r.offset) v ∈
      (chanCommand F stack chan data m : Sw φ Unit).effects s := by
  cases m with
  | DAC_OPMODE_MSG =>
    refine ⟨.dac_opmode, data, ?_⟩
    have h' : data = JUMP ∨ data = SMOOTH ∨ data = RAMP := of_decide_eq_true h
    rcases h' with rfl | rfl | rfl <;> exact List.mem_cons_self
  | word m => exact ⟨m.reg, data, List.mem_cons_self⟩
  | gain m => exact ⟨m.reg, _, List.mem_cons_self⟩
  | prot m => exact ⟨m.reg, _, List.mem_append_right _ List.mem_cons_self⟩
  | HEART_CNTLIM_MSG => exact ⟨.heartbeat_cntlim, _, List.mem_cons_self⟩
  | FAULT_CLEAR_MSG =>
    have h' : s.regs GlobReg.main_dipole.offset ≠ 1 := of_decide_eq_true h
    refine ⟨.fault_clear, data, ?_⟩
    show _ ∈ (faultClear chan data : Sw φ Unit).effects s
    rw [effects_faultClear, if_neg h']
    exact List.mem_singleton_self _
  | DAC_SETPT_MSG | offset m | sf m | SF_DAC_DCCTS_MSG | USR_TRIG_MSG | WRITE_QSPI_MSG
  | READ_QSPI_MSG | DUMP_ADCS_MSG | unsupported => exact absurd h Bool.false_ne_true

/-- A message with effects uses a scale factor or only writes a register, the two that reach further
apart. -/
theorem uses_or_registerOnly {stack : Stack} {chan data : BitVec 32} {m : ChanMsg} {s : Psc φ}
    (h1 : m ≠ .FAULT_CLEAR_MSG) (h2 : m ≠ .USR_TRIG_MSG) {e : Eff}
    (he : e ∈ (chanCommand F stack chan data m : Sw φ Unit).effects s) :
    usesSf data m = true ∨ registerOnly (s.regs GlobReg.main_dipole.offset) data m = true := by
  cases m with
  | DAC_OPMODE_MSG =>
    by_cases hF : data = FOFB
    · exact .inl (decide_eq_true hF)
    · refine .inr (decide_eq_true ?_)
      by_contra hne
      push Not at hne
      have hes : (chanCommand F stack chan data .DAC_OPMODE_MSG : Sw φ Unit) = pure () := by
        simp only [chanCommand, Set_dacOpmode, if_neg hne.1, if_neg hF, hne.2.1, hne.2.2, or_self,
          if_false]
      rw [hes] at he
      exact List.not_mem_nil he
  | word m => exact .inr rfl
  | gain m => exact .inr rfl
  | HEART_CNTLIM_MSG => exact .inr rfl
  | prot m =>
    cases hm : usesSf data (.prot m) with
    | true => exact .inl rfl
    | false => exact .inr (by simp only [registerOnly, hm, Bool.not_false])
  | FAULT_CLEAR_MSG => exact absurd rfl h1
  | USR_TRIG_MSG => exact absurd rfl h2
  | DAC_SETPT_MSG | offset m | sf m | SF_DAC_DCCTS_MSG => exact .inl rfl
  | WRITE_QSPI_MSG | READ_QSPI_MSG =>
    refine .inl (decide_eq_true ?_)
    by_contra hne
    simp only [chanCommand, if_neg hne] at he
    exact List.not_mem_nil he
  | DUMP_ADCS_MSG | unsupported => exact absurd he List.not_mem_nil

/-! ## The condition -/

section Bounds

variable {stack : Stack} {data : BitVec 32} {m : ChanMsg} {s : Psc φ}

theorem channelFits_of_inBounds
    (h : InBounds chan data m ((chanCommand F stack chan data m : Sw φ Unit).effects s)) :
    ChannelFits (s.regs GlobReg.main_dipole.offset) chan data m := by
  refine ⟨fun hu => ?_, fun hr => ?_⟩
  · exact (sub_one_toNat_le_iff chan).mp (h.scalefactors _ (sub_mem_sfIndices hu))
  · obtain ⟨r, v, hv⟩ := exists_out_of_registerOnly F stack chan hr
    exact (inWindow_chanReg_iff chan r).mp (h.regs _ v hv)

theorem scalefactors_of_fits {main_dipole : BitVec 32} (h : ChannelFits main_dipole chan data m) :
    ∀ i ∈ sfIndices chan data m, i.toNat ≤ 3 := by
  intro i hi
  unfold sfIndices at hi
  split at hi
  · rw [List.mem_singleton.mp hi]
    exact (sub_one_toNat_le_iff chan).mpr (h.1 ‹_›)
  · exact absurd hi List.not_mem_nil

/-- A channel that suits a message with effects gives addresses in a window. -/
theorem chanReg_of_fits {main_dipole : BitVec 32} (h : ChannelFits main_dipole chan data m)
    (hm : usesSf data m = true ∨ registerOnly main_dipole data m = true) (r : ChanReg) :
    (∃ c, InWindow c (chanReg chan r.offset)) ∨
      chanReg chan r.offset = GlobReg.softtrig.offset := by
  refine (inWindow_chanReg_iff chan r).mpr ?_
  rcases hm with hu | hr
  · have := h.1 hu
    omega
  · exact h.2 hr

theorem regs_of_fits (h : ChannelFits (s.regs GlobReg.main_dipole.offset) chan data m) :
    ∀ a v, .out32 a v ∈ (chanCommand F stack chan data m : Sw φ Unit).effects s →
      (∃ c, InWindow c a) ∨ a = GlobReg.softtrig.offset := by
  intro a v he
  by_cases h1 : m = .FAULT_CLEAR_MSG
  · subst h1
    replace he : .out32 a v ∈ (faultClear chan data : Sw φ Unit).effects s := he
    rw [effects_faultClear] at he
    split at he
    · have hc : ∃ c : Chan, a = chanReg c.u32 ChanReg.fault_clear.offset := by
        simp only [List.mem_cons, Eff.out32.injEq, List.not_mem_nil, or_false] at he
        rcases he with he | he | he | he
        exacts [⟨.ps1, he.1⟩, ⟨.ps2, he.1⟩, ⟨.ps3, he.1⟩, ⟨.ps4, he.1⟩]
      obtain ⟨c, rfl⟩ := hc
      exact .inl ⟨c, inWindow_chanReg c ChanReg.fault_clear.offset_lt⟩
    · rename_i hd
      obtain ⟨rfl, -⟩ := Eff.out32.inj (List.mem_singleton.mp he)
      exact chanReg_of_fits h (.inr (decide_eq_true hd)) _
  · by_cases h2 : m = .USR_TRIG_MSG
    · subst h2
      obtain ⟨_, he⟩ := mem_usrTrig he
      exact .inr (Eff.out32.inj he).1
    · obtain ⟨r, -, rfl⟩ := reach_chanCommand stack chan data h1 h2 s _ he
      exact chanReg_of_fits h (uses_or_registerOnly h1 h2 he) r

theorem transfer_reach (stack : Stack) {send : List Byte}
    (he : .transfer send ∈ (chanCommand F stack chan data m : Sw φ Unit).effects s) :
    m.Transfers chan send ∧ (m = .WRITE_QSPI_MSG ∨ m = .READ_QSPI_MSG) := by
  have h1 : m ≠ .FAULT_CLEAR_MSG := by
    rintro rfl
    obtain ⟨_, he⟩ := mem_faultClear he
    cases he
  have h2 : m ≠ .USR_TRIG_MSG := by
    rintro rfl
    obtain ⟨_, he⟩ := mem_usrTrig he
    cases he
  have hT : m.Transfers chan send := reach_chanCommand stack chan data h1 h2 s _ he
  refine ⟨hT, ?_⟩
  cases hT with
  | quiet _ _ _ hm _ => exact hm
  | erase | write => exact .inl rfl

theorem flash_of_fits (h : ChannelFits (s.regs GlobReg.main_dipole.offset) chan data m) :
    ∀ cmd a2 a1 a0 bs,
      .transfer (cmd :: a2 :: a1 :: a0 :: bs) ∈
        (chanCommand F stack chan data m : Sw φ Unit).effects s →
      cmd = FLASH_SECTOR_ERASE_CMD ∨ cmd = FLASH_WRITE_CMD →
      ∃ c, InSector c (flashAddr a2 a1 a0) := by
  intro cmd a2 a1 a0 bs he hcmd
  obtain ⟨hT, hm⟩ := transfer_reach stack he
  have hu : usesSf data m = true := by
    have h1 : m ≠ .FAULT_CLEAR_MSG := by rcases hm with rfl | rfl <;> simp
    have h2 : m ≠ .USR_TRIG_MSG := by rcases hm with rfl | rfl <;> simp
    refine (uses_or_registerOnly h1 h2 he).resolve_right ?_
    intro hr
    rcases hm with rfl | rfl <;> exact absurd hr Bool.false_ne_true
  obtain ⟨hlo, hhi⟩ := h.1 hu
  obtain ⟨c, hc⟩ := Chan.exists_num hlo hhi
  have hcu : chan = c.u32 := by
    rw [Chan.u32, hc, BitVec.ofNat_toNat, BitVec.setWidth_eq]
  rw [hcu] at hT
  have hown : OwnTransfer c (cmd :: a2 :: a1 :: a0 :: bs) := Eff.Reach.own (e := .transfer _) hT
  refine ⟨c, ?_⟩
  cases hown with
  | erase _ _ _ hs => exact hs
  | write _ _ _ _ hs => exact hs
  | quiet _ _ hq =>
    rcases hcmd with rfl | rfl <;> exact absurd hq (by decide)

theorem inBounds_iff :
    InBounds chan data m ((chanCommand F stack chan data m : Sw φ Unit).effects s) ↔
      ChannelFits (s.regs GlobReg.main_dipole.offset) chan data m :=
  ⟨channelFits_of_inBounds, fun h => ⟨scalefactors_of_fits h, regs_of_fits h, flash_of_fits h⟩⟩

end Bounds

/-- For every line, state, flash chip and arithmetic. -/
theorem console_confined_iff (F : Type) [Fpu F] (strtof : List Char → BitVec 32) (stack : Stack)
    (input : List Char) (s : Psc φ) :
    ConsoleConfined F strtof stack input s ↔
      ∀ chan addr val_str, scanLine input = some (chan, addr, val_str) →
        ChannelFits (s.regs GlobReg.main_dipole.offset) chan (dataOf strtof val_str)
          (ChanMsg.ofAddr addr.toNat) := by
  have hcmd : ∀ chan addr val_str, scanLine input = some (chan, addr, val_str) →
      (receive_console_cmd F strtof stack input : Sw φ Unit) =
        chanCommand F stack chan (dataOf strtof val_str) (ChanMsg.ofAddr addr.toNat) := by
    intro chan addr val_str h
    simp only [receive_console_cmd, h, chan_settings_msgBuf]
  constructor
  · intro h chan addr val_str hs
    have hb := h chan addr val_str hs
    rw [hcmd chan addr val_str hs] at hb
    exact inBounds_iff.mp hb
  · intro h chan addr val_str hs
    rw [hcmd chan addr val_str hs]
    exact inBounds_iff.mpr (h chan addr val_str hs)

/-- The line `0 300 1`. -/
def zeroLine : List Char := ['0', ' ', '3', '0', '0', ' ', '1']

/-- Channel 0 is not refused: the scale factor before the array is set. -/
theorem zeroLine_not_confined :
    scanLine zeroLine = some (0, 300, ['1']) ∧
      (receive_console_cmd Float (fun _ => 0) ⟨[], 0, []⟩ zeroLine : Sw Nor Unit).effects blank =
        [.setSf 0xFFFFFFFF .ampspersec 1] ∧
      ¬ ConsoleConfined Float (fun _ => 0) ⟨[], 0, []⟩ zeroLine blank := by
  have hscan : scanLine zeroLine = some (0, 300, ['1']) := by decide
  refine ⟨hscan, rfl, ?_⟩
  intro h
  have hi := (h 0 300 ['1'] hscan).scalefactors 0xFFFFFFFF (by decide)
  exact absurd hi (by decide)

end Zpsc.Commands
