import Zpsc.Commands.Footprint

/-!
# Channel messages stay in their footprint

One lemma for each handler, following the way it is written, for any channel number.
-/

namespace Zpsc.Commands

open Bits Effects Cmd

variable {φ F : Type} {m : ChanMsg} {chan : BitVec 32}

theorem reach_out (chan : BitVec 32) {r : ChanReg} (hr : r ∈ m.writes) (v : BitVec 32) :
    Emits (Eff.Reach chan m) (Xil_Out32 (chanReg chan r.offset) v : Sw φ Unit) :=
  emits_emit ⟨r, hr, rfl⟩

theorem reach_setSf (chan : BitVec 32) {f : Sf} (hf : f ∈ m.sets) (w : BitVec 32) :
    Emits (Eff.Reach chan m) (setScalefactor chan f w : Sw φ Unit) :=
  emits_emit ⟨rfl, hf⟩

variable [FlashChip φ] [Fpu F]

/-! ## Flash -/

theorem reach_transfer {send : List Byte} (h : m.Transfers chan send) :
    Emits (Eff.Reach chan m) (XQspiPs_PolledTransfer send : Sw φ (List Byte)) := by
  refine (emits_get _).bind ?_
  intro _
  exact (emits_emit (P := Eff.Reach chan m) (e := .transfer send) h).bind fun _ => emits_pure _

theorem reach_quiet (chan : BitVec 32) (hm : m = .WRITE_QSPI_MSG ∨ m = .READ_QSPI_MSG) {cmd : Byte}
    (h : cmd = FLASH_READ_CMD ∨ cmd = FLASH_WRITE_ENABLE_CMD ∨ cmd = FLASH_READ_STATUS_CMD)
    (bs : List Byte) :
    Emits (Eff.Reach chan m) (XQspiPs_PolledTransfer (cmd :: bs) : Sw φ (List Byte)) :=
  reach_transfer (.quiet m cmd bs hm h)

theorem reach_waitReady (chan : BitVec 32) :
    Emits (Eff.Reach chan .WRITE_QSPI_MSG) (waitReady : Sw φ Unit) := by
  refine (emits_get _).bind fun n => emits_forM _ fun _ _ => ?_
  exact (reach_quiet chan (.inl rfl) (.inr (.inr rfl)) _).bind fun _ => emits_pure _

theorem reach_erase (chan : BitVec 32) :
    Emits (Eff.Reach chan .WRITE_QSPI_MSG) (QspiFlashEraseSect chan : Sw φ Unit) := by
  refine (reach_quiet chan (.inl rfl) (.inr (.inl rfl)) _).bind ?_
  intro _
  exact (reach_transfer .erase).bind fun _ => reach_waitReady chan

theorem reach_write (chan : BitVec 32) (buf : List Byte) :
    Emits (Eff.Reach chan .WRITE_QSPI_MSG)
      (QspiFlashWrite (sectorAddr chan) FLASH_PAGE_SIZE buf : Sw φ Unit) := by
  refine (reach_quiet chan (.inl rfl) (.inr (.inl rfl)) _).bind ?_
  intro _
  exact (reach_transfer (.write _)).bind fun _ => reach_waitReady chan

theorem reach_gather (chan : BitVec 32) (stack : Stack) (buf : List Byte) :
    Emits (Eff.Reach chan m) (QspiGatherData stack chan buf : Sw φ (List Byte)) :=
  (emits_get _).bind fun _ => (emits_get _).bind fun _ => emits_pure _

theorem reach_readQspi (chan : BitVec 32) (hm : m = .WRITE_QSPI_MSG ∨ m = .READ_QSPI_MSG)
    (stack : Stack) : Emits (Eff.Reach chan m) (readQspi stack chan : Sw φ Unit) := by
  have hregs : m.writes = qspiRegs := by rcases hm with rfl | rfl <;> rfl
  have hsfs : m.sets = qspiSfs := by rcases hm with rfl | rfl <;> rfl
  refine (reach_quiet chan hm (.inl rfl) _).bind ?_
  intro buf
  refine (emits_forM _ fun x hx => reach_out chan ?_ _).bind fun _ => ?_
  · rw [hregs]
    exact List.fst_mem_of_mem_zipIdx hx
  · refine emits_forM _ fun x hx => reach_setSf chan ?_ _
    rw [hsfs]
    exact List.fst_mem_of_mem_zipIdx hx

theorem reach_writeQspi (chan : BitVec 32) (stack : Stack) :
    Emits (Eff.Reach chan .WRITE_QSPI_MSG) (writeQspi stack chan : Sw φ Unit) := by
  refine (reach_erase chan).bind ?_
  intro _
  refine (reach_gather chan stack _).bind ?_
  intro buf
  exact (reach_write chan buf).bind fun _ => reach_readQspi chan (.inl rfl) stack

/-! ## Setpoints and modes -/

theorem reach_rampDuration (chan' new cur : BitVec 32) :
    Emits (Eff.Reach chan m) (rampDuration F chan' new cur : Sw φ F) := by
  refine (emits_get _).bind fun _ => (emits_get _).bind fun _ => (emits_get _).bind fun _ => ?_
  exact (emits_get _).bind fun _ => emits_pure _

theorem reach_cosine (chan new : BitVec 32) :
    Emits (Eff.Reach chan .DAC_SETPT_MSG)
      (Calc_WriteRaisedCosineSmooth F chan new : Sw φ Unit) := by
  refine (emits_get _).bind fun cur => (reach_rampDuration _ _ _).bind fun _ => ?_
  exact (reach_out chan (by decide) _).bind fun _ => reach_out chan (by decide) _

theorem reach_linear (chan new : BitVec 32) :
    Emits (Eff.Reach chan .DAC_SETPT_MSG) (Calc_WriteLinearSmooth F chan new : Sw φ Unit) := by
  have hout : ∀ r ∈ ChanMsg.DAC_SETPT_MSG.writes, ∀ v,
      Emits (Eff.Reach chan .DAC_SETPT_MSG) (Xil_Out32 (chanReg chan r.offset) v : Sw φ Unit) :=
    fun r hr v => reach_out chan hr v
  refine (emits_get _).bind fun _ => (emits_get _).bind fun cur => ?_
  refine (reach_rampDuration _ _ _).bind ?_
  intro _
  refine (hout _ (by decide) _).bind fun _ => (hout _ (by decide) _).bind fun _ => ?_
  refine (hout _ (by decide) _).bind fun _ => (hout _ (by decide) _).bind fun _ => ?_
  refine (hout _ (by decide) _).bind fun _ => (hout _ (by decide) _).bind fun _ => ?_
  exact hout _ (by decide) _

theorem reach_fofbScalefactor (w : BitVec 32) :
    Emits (Eff.Reach chan m) (fofbScalefactor F w : Sw φ (BitVec 32)) :=
  (emits_get _).bind fun _ => emits_pure _

theorem reach_opmode (chan mode : BitVec 32) :
    Emits (Eff.Reach chan .DAC_OPMODE_MSG) (Set_dacOpmode F chan mode : Sw φ Unit) := by
  have hmode := reach_out (φ := φ) (m := .DAC_OPMODE_MSG) chan (r := .dac_opmode) (by decide)
  refine (hmode _).ite (.ite ?_ ((hmode _).ite (emits_pure _)))
  refine (emits_get _).bind fun _ => (reach_fofbScalefactor _).bind fun _ => ?_
  exact (reach_out chan (by decide) _).bind fun _ => hmode _

theorem reach_setDac (chan : BitVec 32) (amps : F) :
    Emits (Eff.Reach chan .DAC_SETPT_MSG) (Set_dac F chan amps : Sw φ Unit) := by
  refine (emits_get _).bind fun _ => (emits_get _).bind fun _ => ?_
  refine (emits_get _).bind fun _ => (emits_get _).bind fun _ => (emits_get _).bind fun _ => ?_
  refine .ite ((reach_cosine chan _).ite (reach_linear chan _)) ?_
  exact (reach_out chan (by decide) _).ite (emits_pure _)

/-! ## Parameters -/

theorem reach_thresh (dac : Bool) (chan' data : BitVec 32) (f : Sf) :
    Emits (Eff.Reach chan m) (thresh F dac chan' data f : Sw φ (BitVec 32)) :=
  (emits_get _).bind fun _ => (emits_get _).bind fun _ => emits_pure _

theorem reach_protVal (chan' data : BitVec 32) (p : Control.ProtMsg) :
    Emits (Eff.Reach chan m) (protVal F chan' data p : Sw φ (BitVec 32)) := by
  cases p <;> first | exact reach_thresh _ _ _ _ | exact emits_pure _

theorem reach_offsetVal (chan' data : BitVec 32) (o : OffsetMsg) :
    Emits (Eff.Reach chan m) (offsetVal F chan' data o : Sw φ (BitVec 32)) :=
  (emits_get _).bind fun _ => (emits_get _).bind fun _ => emits_pure _

/-- All messages but the two that reach further. -/
theorem reach_chanCommand (stack : Stack) (chan data : BitVec 32) (h1 : m ≠ .FAULT_CLEAR_MSG)
    (h2 : m ≠ .USR_TRIG_MSG) :
    Emits (Eff.Reach chan m) (chanCommand F stack chan data m : Sw φ Unit) := by
  cases m with
  | DAC_OPMODE_MSG => exact reach_opmode chan data
  | DAC_SETPT_MSG => exact reach_setDac chan _
  | word m => exact reach_out chan List.mem_cons_self _
  | gain m => exact reach_out chan List.mem_cons_self _
  | offset m =>
    exact (reach_offsetVal _ _ _).bind fun _ => reach_out chan List.mem_cons_self _
  | prot m => exact (reach_protVal _ _ _).bind fun _ => reach_out chan List.mem_cons_self _
  | HEART_CNTLIM_MSG => exact reach_out chan List.mem_cons_self _
  | FAULT_CLEAR_MSG => exact absurd rfl h1
  | sf m => exact reach_setSf chan List.mem_cons_self _
  | SF_DAC_DCCTS_MSG =>
    refine (reach_setSf chan List.mem_cons_self _).bind ?_
    intro _
    exact (reach_fofbScalefactor _).bind fun _ => reach_out chan List.mem_cons_self _
  | USR_TRIG_MSG => exact absurd rfl h2
  | WRITE_QSPI_MSG => exact (reach_writeQspi chan stack).ite (emits_pure _)
  | READ_QSPI_MSG => exact (reach_readQspi chan (.inr rfl) stack).ite (emits_pure _)
  | DUMP_ADCS_MSG => exact emits_pure _
  | unsupported => exact emits_pure _

/-! ## The two messages that reach further -/

theorem effects_faultClear (chan data : BitVec 32) (s : Psc φ) :
    (faultClear chan data : Sw φ Unit).effects s =
      if s.regs GlobReg.main_dipole.offset = 1 then
        [.out32 (chanReg 1 ChanReg.fault_clear.offset) data,
          .out32 (chanReg 2 ChanReg.fault_clear.offset) data,
          .out32 (chanReg 3 ChanReg.fault_clear.offset) data,
          .out32 (chanReg 4 ChanReg.fault_clear.offset) data]
      else [.out32 (chanReg chan ChanReg.fault_clear.offset) data] := by
  have h : (faultClear chan data : Sw φ Unit).effects s =
      (if s.regs GlobReg.main_dipole.offset = 1 then do
        Xil_Out32 (chanReg 1 ChanReg.fault_clear.offset) data
        Xil_Out32 (chanReg 2 ChanReg.fault_clear.offset) data
        Xil_Out32 (chanReg 3 ChanReg.fault_clear.offset) data
        Xil_Out32 (chanReg 4 ChanReg.fault_clear.offset) data
      else Xil_Out32 (chanReg chan ChanReg.fault_clear.offset) data : Sw φ Unit).effects s := rfl
  rw [h]
  split <;> rfl

theorem mem_faultClear {chan data : BitVec 32} {stack : Stack} {s : Psc φ} {e : Eff}
    (he : e ∈ (chanCommand F stack chan data .FAULT_CLEAR_MSG : Sw φ Unit).effects s) :
    ∃ c, e = .out32 (chanReg c ChanReg.fault_clear.offset) data := by
  replace he : e ∈ (faultClear chan data : Sw φ Unit).effects s := he
  rw [effects_faultClear] at he
  split at he
  · simp only [List.mem_cons, List.not_mem_nil, or_false] at he
    rcases he with rfl | rfl | rfl | rfl <;> exact ⟨_, rfl⟩
  · exact ⟨chan, List.mem_singleton.mp he⟩

theorem effects_usrTrig (chan data : BitVec 32) (stack : Stack) (s : Psc φ) :
    (chanCommand F stack chan data .USR_TRIG_MSG : Sw φ Unit).effects s =
      if data = 1 then
        [.out32 GlobReg.softtrig.offset (1#32 <<< (chan - 1)), .out32 GlobReg.softtrig.offset 0]
      else [] := by
  simp only [chanCommand]
  split <;> rfl

theorem mem_usrTrig {chan data : BitVec 32} {stack : Stack} {s : Psc φ} {e : Eff}
    (he : e ∈ (chanCommand F stack chan data .USR_TRIG_MSG : Sw φ Unit).effects s) :
    ∃ v, e = .out32 GlobReg.softtrig.offset v := by
  rw [effects_usrTrig] at he
  split at he
  · simp only [List.mem_cons, List.not_mem_nil, or_false] at he
    rcases he with rfl | rfl <;> exact ⟨_, rfl⟩
  · exact absurd he List.not_mem_nil

end Zpsc.Commands
