import Mathlib.Data.List.GetD
import Zpsc.Commands.Proofs.FofbScaleProofs
import Zpsc.Commands.Proofs.SadataProofs
import Zpsc.Commands.Readback

/-!
# When the status frame tells the truth

A setting keeps the value of the last message that set it (`holds_runAll`), and the frame shows it
in the units of the message, up to one step of its register. The exceptions are three digital
outputs, which are read from the register of another one.
-/

namespace Zpsc.Commands

open Bits Effects Cmd Control CConv

/-! ## The words of the frame -/

theorem be32_flatMap_toBe32 (ws : List (BitVec 32)) (rest : List Byte) {i : ℕ}
    (h : i < ws.length) :
    let msg := ws.flatMap toBe32 ++ rest
    be32 (msg.getD (4 * i) 0) (msg.getD (4 * i + 1) 0) (msg.getD (4 * i + 2) 0)
      (msg.getD (4 * i + 3) 0) = ws.getD i 0 := by
  induction ws generalizing i with
  | nil => exact absurd h (Nat.not_lt_zero i)
  | cons w ws ih =>
    cases i with
    | zero => exact be32_extract w
    | succ i => exact ih (Nat.lt_of_succ_lt_succ h)

theorem getD_map_idxOf (g : SaChanField → BitVec 32) (f : SaChanField) :
    (SaChanField.all.map g).getD (SaChanField.all.idxOf f) 0 = g f := by
  have hlt := List.idxOf_lt_length_of_mem (mem_saChanField_all f)
  rw [List.getD_eq_getElem _ _ (by rwa [List.length_map]), List.getElem_map, List.getElem_idxOf]

/-- The words of the `k`-th of several channels. -/
theorem getD_flatMap (m : SAdataMsg) (cs : List Chan) {k i : ℕ} {c : Chan} (hk : cs[k]? = some c)
    (hi : i < SaChanField.all.length) :
    (cs.flatMap fun c => SaChanField.all.map (m.ps c)).getD (SaChanField.all.length * k + i) 0 =
      (SaChanField.all.map (m.ps c)).getD i 0 := by
  induction cs generalizing k with
  | nil => simp at hk
  | cons c' cs ih =>
    rw [List.flatMap_cons]
    cases k with
    | zero =>
      obtain rfl : c' = c := by simpa using hk
      rw [Nat.mul_zero, Nat.zero_add, List.getD_append _ _ _ _ (by rwa [List.length_map])]
    | succ k =>
      rw [List.getD_append_right _ _ _ _ (by rw [List.length_map, Nat.mul_succ]; omega),
        ← ih (by simpa using hk), List.length_map]
      congr 1
      rw [Nat.mul_succ]
      omega

theorem getD_words (m : SAdataMsg) (c : Chan) (f : SaChanField) :
    m.words.getD (SaField.all.length + SaChanField.all.length * (c.num - 1) +
      SaChanField.all.idxOf f) 0 = m.ps c f := by
  have hlt := List.idxOf_lt_length_of_mem (mem_saChanField_all f)
  have hk : [Chan.ps1, .ps2, .ps3, .ps4][c.num - 1]? = some c := by cases c <;> rfl
  rw [← getD_map_idxOf (m.ps c) f, ← getD_flatMap m _ hk hlt, SAdataMsg.words,
    List.getD_append_right _ _ _ _ (by rw [List.length_map]; omega), List.length_map]
  congr 1
  omega

theorem frameWord_sadata_send {F : Type} [Fpu F] (conv : BitVec 32) (old : SAdataMsg) (s : Psc Nor)
    (c : Chan) (f : SaChanField) :
    frameWord ((sadata_send F conv old : Sw Nor (List Byte)).value s) c f =
      (sadata F conv (blinked s) old).ps c f := by
  have hlt := List.idxOf_lt_length_of_mem (mem_saChanField_all f)
  have hnum := c.num_le
  have hchan : SaChanField.all.length = 75 := rfl
  have hglob : SaField.all.length = 25 := rfl
  rw [value_sadata_send, frameWord, be32_flatMap_toBe32, getD_words]
  rw [length_words, hglob, hchan]
  omega

/-! ## Which message sets a setting -/

/-- The message that sets a setting. -/
def Setting.owner : Setting → Option ChanMsg
  | .reg .dac_ramplen => some (.word .DAC_RAMPLEN_MSG)
  | .reg .dac_runramp => some (.word .DAC_RUNRAMP_MSG)
  | .reg .fault_mask => some (.word .FAULT_MASK_MSG)
  | .reg .digout_on1 => some (.word .DIGOUT_ON1_MSG)
  | .reg .digout_on2 => some (.word .DIGOUT_ON2_MSG)
  | .reg .digout_reset => some (.word .DIGOUT_RESET_MSG)
  | .reg .digout_spare => some (.word .DIGOUT_SPARE_MSG)
  | .reg .digout_park => some (.word .DIGOUT_PARK_MSG)
  | .reg .fofb_addr => some (.word .FOFB_FASTADDR_MSG)
  | .reg .avemode => some (.word .AVE_MODE_MSG)
  | .reg .fault_clear => some .FAULT_CLEAR_MSG
  | .reg .dac_setpt_gain => some (.gain .DAC_SETPT_GAIN_MSG)
  | .reg .dcct0_gain => some (.gain .DCCT1_GAIN_MSG)
  | .reg .dcct1_gain => some (.gain .DCCT2_GAIN_MSG)
  | .reg .dacmon_gain => some (.gain .DACMON_GAIN_MSG)
  | .reg .volt_gain => some (.gain .VOLT_GAIN_MSG)
  | .reg .gnd_gain => some (.gain .GND_GAIN_MSG)
  | .reg .spare_gain => some (.gain .SPARE_GAIN_MSG)
  | .reg .reg_gain => some (.gain .REG_GAIN_MSG)
  | .reg .err_gain => some (.gain .ERR_GAIN_MSG)
  | .reg .dac_setpt_offset => some (.offset .DAC_SETPT_OFFSET_MSG)
  | .reg .dcct0_offset => some (.offset .DCCT1_OFFSET_MSG)
  | .reg .dcct1_offset => some (.offset .DCCT2_OFFSET_MSG)
  | .reg .dacmon_offset => some (.offset .DACMON_OFFSET_MSG)
  | .reg .volt_offset => some (.offset .VOLT_OFFSET_MSG)
  | .reg .gnd_offset => some (.offset .GND_OFFSET_MSG)
  | .reg .spare_offset => some (.offset .SPARE_OFFSET_MSG)
  | .reg .reg_offset => some (.offset .REG_OFFSET_MSG)
  | .reg .err_offset => some (.offset .ERR_OFFSET_MSG)
  | .reg .ovc1_thresh => some (.prot .OVC1_THRESH_MSG)
  | .reg .ovc2_thresh => some (.prot .OVC2_THRESH_MSG)
  | .reg .ovv_thresh => some (.prot .OVV_THRESH_MSG)
  | .reg .err1_thresh => some (.prot .ERR1_THRESH_MSG)
  | .reg .err2_thresh => some (.prot .ERR2_THRESH_MSG)
  | .reg .ignd_thresh => some (.prot .IGND_THRESH_MSG)
  | .reg .ovc1_cntlim => some (.prot .OVC1_CNTLIM_MSG)
  | .reg .ovc2_cntlim => some (.prot .OVC2_CNTLIM_MSG)
  | .reg .ovv_cntlim => some (.prot .OVV_CNTLIM_MSG)
  | .reg .err1_cntlim => some (.prot .ERR1_CNTLIM_MSG)
  | .reg .err2_cntlim => some (.prot .ERR2_CNTLIM_MSG)
  | .reg .ignd_cntlim => some (.prot .IGND_CNTLIM_MSG)
  | .reg .dcct_cntlim => some (.prot .DCCT_CNTLIM_MSG)
  | .reg .flt1_cntlim => some (.prot .FLT1_CNTLIM_MSG)
  | .reg .flt2_cntlim => some (.prot .FLT2_CNTLIM_MSG)
  | .reg .flt3_cntlim => some (.prot .FLT3_CNTLIM_MSG)
  | .reg .on_cntlim => some (.prot .ON_CNTLIM_MSG)
  | .reg .heartbeat_cntlim => some .HEART_CNTLIM_MSG
  | .reg _ => none
  | .sf .ampspersec => some (.sf .SF_AMPS_PER_SEC_MSG)
  | .sf .dac_dccts => some .SF_DAC_DCCTS_MSG
  | .sf .vout => some (.sf .SF_VOUT_MSG)
  | .sf .ignd => some (.sf .SF_IGND_MSG)
  | .sf .spare => some (.sf .SF_SPARE_MSG)
  | .sf .regulator => some (.sf .SF_REGULATOR_MSG)
  | .sf .error => some (.sf .SF_ERROR_MSG)

theorem owner_setting {m : ChanMsg} {t : Setting} (h : m.setting = some t) : t.owner = some m := by
  cases m with
  | word m | gain m | offset m | prot m | sf m =>
    obtain rfl := Option.some.inj h
    cases m <;> rfl
  | FAULT_CLEAR_MSG | HEART_CNTLIM_MSG | SF_DAC_DCCTS_MSG =>
    obtain rfl := Option.some.inj h
    rfl
  | DAC_OPMODE_MSG | DAC_SETPT_MSG | USR_TRIG_MSG | WRITE_QSPI_MSG | READ_QSPI_MSG | DUMP_ADCS_MSG
  | unsupported => exact absurd h nofun

/-- Apart from the flash messages, a register that has an owner is written by it only. -/
theorem eq_of_mem_writes {m m' : ChanMsg} {r : ChanReg} (h : m.setting = some (.reg r))
    (h1 : m' ≠ .WRITE_QSPI_MSG) (h2 : m' ≠ .READ_QSPI_MSG) (hr : r ∈ m'.writes) : m' = m := by
  have howner := owner_setting h
  cases m' with
  | word n | gain n | offset n | prot n =>
    obtain rfl : r = _ := List.mem_singleton.mp hr
    exact Option.some.inj ((owner_setting rfl).symm.trans howner)
  | FAULT_CLEAR_MSG | HEART_CNTLIM_MSG =>
    obtain rfl : r = _ := List.mem_singleton.mp hr
    exact Option.some.inj howner
  | WRITE_QSPI_MSG => exact absurd rfl h1
  | READ_QSPI_MSG => exact absurd rfl h2
  | DAC_OPMODE_MSG | DAC_SETPT_MSG | SF_DAC_DCCTS_MSG =>
    -- these write registers that have no owner
    simp only [ChanMsg.writes, List.mem_cons, List.not_mem_nil, or_false] at hr
    rcases hr with rfl | rfl | rfl | rfl | rfl | rfl | rfl | rfl <;> exact absurd howner nofun
  | sf _ | USR_TRIG_MSG | DUMP_ADCS_MSG | unsupported => exact absurd hr List.not_mem_nil

theorem eq_of_mem_sets {m m' : ChanMsg} {f : Sf} (h : m.setting = some (.sf f))
    (h1 : m' ≠ .WRITE_QSPI_MSG) (h2 : m' ≠ .READ_QSPI_MSG) (hf : f ∈ m'.sets) : m' = m := by
  have howner := owner_setting h
  cases m' with
  | sf n =>
    obtain rfl : f = _ := List.mem_singleton.mp hf
    exact Option.some.inj ((owner_setting rfl).symm.trans howner)
  | SF_DAC_DCCTS_MSG =>
    obtain rfl : f = _ := List.mem_singleton.mp hf
    exact Option.some.inj howner
  | WRITE_QSPI_MSG => exact absurd rfl h1
  | READ_QSPI_MSG => exact absurd rfl h2
  | word _ | gain _ | offset _ | prot _ | FAULT_CLEAR_MSG | HEART_CNTLIM_MSG | DAC_OPMODE_MSG
  | DAC_SETPT_MSG | USR_TRIG_MSG | DUMP_ADCS_MSG | unsupported => exact absurd hf List.not_mem_nil

/-! ## The value of a setting -/

/-- The setting of channel `c` has the value `v`, of which a register keeps its width. -/
def Setting.Has {φ : Type} (s : Psc φ) (c : Chan) (v : BitVec 32) : Setting → Prop
  | .reg r => s.regs (chanAddr c r) = (v.setWidth r.width).setWidth 32
  | .sf f => s.scalefactors (c.u32 - 1) f = v

theorem has_writeQspi (k : Locals) {c : Chan} {s : Psc Nor} {t : Setting} {v : BitVec 32}
    (h : t.Has s c v) : t.Has ((writeQspi k.toStack c.u32 : Sw Nor Unit).final s) c v := by
  obtain ⟨hregs, -, hsf, -⟩ := unchanged_writeQspi k c s
  cases t with
  | sf f => exact (congrFun (congrFun hsf _) f).trans h
  | reg r =>
    by_cases hr : r ∈ qspiRegs
    · obtain ⟨i, hi⟩ := exists_mem_qspiRegs hr
      have hread := regs_readQspi k.toStack c (programmed k.toStack c s) hi
      rw [← final_writeQspi] at hread
      -- the register is a word of its width, and the FPGA sees no change
      have hsee : (((writeQspi k.toStack c.u32 : Sw Nor Unit).final s).regs
          (chanAddr c r)).setWidth r.width = (s.regs (chanAddr c r)).setWidth r.width :=
        congrFun (congrFun (congrArg RegFile.chan hregs) c) r
      rw [hread, setWidth_field r.width_le, h, setWidth_field r.width_le] at hsee
      exact hread.trans (congrArg (BitVec.setWidth 32) hsee)
    · have hkeep := reg_readQspi_of_not_mem k.toStack c c (programmed k.toStack c s) hr
      rw [← final_writeQspi] at hkeep
      exact hkeep.trans h

section Frame

variable {F : Type} [Fpu F] {c c' : Chan} {m m' : ChanMsg} {t : Setting} {s : Psc Nor}
  {v data : BitVec 32}

/-- Clearing the faults of another channel, outside main dipole mode. -/
theorem reg_faultClear_ne (hc : c' ≠ c) (hmain : s.regs GlobReg.main_dipole.offset ≠ 1) (r : ChanReg) :
    ((faultClear c'.u32 data : Sw Nor Unit).final s).regs (chanAddr c r) =
      s.regs (chanAddr c r) := by
  rw [final, effects_faultClear_chan, if_neg hmain]
  refine reg_of_not_mem (fun v he => ?_) s
  have ha := (Eff.out32.inj (List.mem_singleton.mp he)).1
  exact hc (chanAddr_inj ha).1.symm

/-- A write to flash, or a read that does not reach the setting. -/
theorem Setting.Has.qspi (h : t.Has s c v) (k : Locals)
    (hm : m' = .WRITE_QSPI_MSG ∨ m' = .READ_QSPI_MSG)
    (hread : ¬ (m' = .READ_QSPI_MSG ∧ data = 1 ∧ t.Saved)) :
    t.Has ((chanCommand F k.toStack c.u32 data m' : Sw Nor Unit).final s) c v := by
  by_cases hd : data = 1
  · subst hd
    rcases hm with rfl | rfl
    · rw [Commands.chanCommand, if_pos rfl]
      exact has_writeQspi k h
    · rw [Commands.chanCommand, if_pos rfl]
      cases t with
      | reg r =>
        have hr : r ∉ qspiRegs := fun hr => hread ⟨rfl, rfl, hr⟩
        exact (reg_readQspi_of_not_mem k.toStack c c s hr).trans h
      | sf f => exact absurd ⟨rfl, rfl, trivial⟩ hread
  · rcases hm with rfl | rfl
    · rw [Commands.chanCommand, if_neg hd]
      exact h
    · rw [Commands.chanCommand, if_neg hd]
      exact h

/-- Another message to the channel. -/
theorem Setting.Has.other (h : t.Has s c v) (ht : m.setting = some t) (stack : Stack) (hm : m' ≠ m)
    (h1 : m' ≠ .WRITE_QSPI_MSG) (h2 : m' ≠ .READ_QSPI_MSG) :
    t.Has ((chanCommand F stack c.u32 data m' : Sw Nor Unit).final s) c v := by
  cases t with
  | reg r =>
    refine (reg_chanCommand stack data s (fun hx => ?_) fun hclear hr => ?_).trans h
    · exact hm (eq_of_mem_writes ht h1 h2 hx.2)
    · subst hclear hr
      exact hm (Option.some.inj (owner_setting ht))
  | sf f =>
    refine (sf_chanCommand stack data s fun hx => ?_).trans h
    exact hm (eq_of_mem_sets ht h1 h2 hx.2)

/-- A message to another channel. -/
theorem Setting.Has.elsewhere (h : t.Has s c v) (ht : m.setting = some t) (stack : Stack)
    (hc : c' ≠ c)
    (hclear : m' = .FAULT_CLEAR_MSG → m = .FAULT_CLEAR_MSG →
      s.regs GlobReg.main_dipole.offset ≠ 1) :
    t.Has ((chanCommand F stack c'.u32 data m' : Sw Nor Unit).final s) c v := by
  cases t with
  | reg r =>
    by_cases hfc : m' = .FAULT_CLEAR_MSG ∧ r = .fault_clear
    · obtain ⟨rfl, rfl⟩ := hfc
      have hm : ChanMsg.FAULT_CLEAR_MSG = m := Option.some.inj (owner_setting ht)
      exact (reg_faultClear_ne hc (hclear rfl hm.symm) _).trans h
    · exact (reg_chanCommand stack data s (fun hx => hc hx.1.symm)
        fun hm hr => hfc ⟨hm, hr⟩).trans h
  | sf f => exact (sf_chanCommand stack data s fun hx => hc hx.1.symm).trans h

theorem Setting.Has.general {es : List Eff} (h : t.Has s c v) (hes : ∀ e ∈ es, e.General)
    (hramp : ∀ r, t = .reg r → r ∉ rampRegs) : t.Has (applyAll es s) c v := by
  cases t with
  | reg r => exact (reg_general hes (hramp r rfl) s).trans h
  | sf f => exact (sf_general hes _ f s).trans h

theorem main_dipole_command {cmd : Command} (hnum : cmd.Numbered) (s : Psc Nor) :
    ((cmd.run F : Sw Nor Unit).final s).regs GlobReg.main_dipole.offset =
      s.regs GlobReg.main_dipole.offset := by
  rcases Command.final_cases (F := F) hnum s with
    ⟨c, m, data, pre, -, hpre, hf⟩ | ⟨es, -, hes, hf⟩
  · rw [hf, glob_chanCommand (by decide), glob_general hpre rfl]
  · rw [hf, glob_general hes rfl]

theorem main_dipole_runAll {cmds : List Command} (hnum : ∀ cmd ∈ cmds, cmd.Numbered)
    (s : Psc Nor) :
    (Command.runAll F cmds s).regs GlobReg.main_dipole.offset =
      s.regs GlobReg.main_dipole.offset := by
  induction cmds generalizing s with
  | nil => rfl
  | cons cmd cmds ih =>
    exact (ih (fun x hx => hnum x (List.mem_cons_of_mem _ hx)) _).trans
      (main_dipole_command (hnum cmd List.mem_cons_self) s)

theorem conv_runAll (cmds : List Command) (s : Psc Nor) :
    (Command.runAll F cmds s).CONVVOLTSTODACBITS = s.CONVVOLTSTODACBITS := by
  induction cmds generalizing s with
  | nil => rfl
  | cons cmd cmds ih => exact (ih _).trans (conv_final _ s)

/-- A command that neither sets the setting nor restores it. -/
theorem Setting.Has.command {cmd : Command} (h : t.Has s c v) (ht : m.setting = some t)
    (hramp : ∀ r, t = .reg r → r ∉ rampRegs) (hcmd : cmd.Proper)
    (hset : ∀ data, ¬ cmd.Sets (s.regs GlobReg.main_dipole.offset) c m data)
    (hrest : ¬ cmd.Restores c t) : t.Has ((cmd.run F : Sw Nor Unit).final s) c v := by
  obtain ⟨hnum, k, hk⟩ := hcmd
  rcases Command.final_cases (F := F) hnum s with
    ⟨c', m', data, pre, hmsg, hpre, hf⟩ | ⟨es, -, hes, hf⟩
  · rw [hf, ← hk]
    have hpre' := h.general hpre hramp
    by_cases hc : c' = c
    · subst hc
      by_cases hq : m' = .WRITE_QSPI_MSG ∨ m' = .READ_QSPI_MSG
      · refine hpre'.qspi k hq ?_
        rintro ⟨rfl, rfl, hsaved⟩
        exact hrest ⟨hmsg, hsaved⟩
      · rw [not_or] at hq
        refine hpre'.other ht k.toStack ?_ hq.1 hq.2
        rintro rfl
        exact hset data (.inl hmsg)
    · refine hpre'.elsewhere ht k.toStack hc ?_
      rintro rfl rfl hmain
      rw [glob_general hpre rfl] at hmain
      exact hset data (.inr ⟨rfl, hmain, c', hmsg⟩)
  · rw [hf]
    exact h.general hes hramp

/-- A sequence of such commands. -/
theorem Setting.Has.runAll {cmds : List Command} (h : t.Has s c v) (ht : m.setting = some t)
    (hramp : ∀ r, t = .reg r → r ∉ rampRegs)
    (hk : ∀ cmd ∈ cmds, cmd.Proper)
    (hset : ∀ cmd ∈ cmds, ∀ data, ¬ cmd.Sets (s.regs GlobReg.main_dipole.offset) c m data)
    (hrest : ∀ cmd ∈ cmds, ¬ cmd.Restores c t) : t.Has (Command.runAll F cmds s) c v := by
  induction cmds generalizing s with
  | nil => exact h
  | cons cmd cmds ih =>
    have hcmd := hk cmd List.mem_cons_self
    have hstep := h.command (F := F) ht hramp hcmd (hset cmd List.mem_cons_self)
      (hrest cmd List.mem_cons_self)
    refine ih hstep (fun cmd' hcmd' => hk cmd' (List.mem_cons_of_mem _ hcmd')) ?_
      fun cmd' hcmd' => hrest cmd' (List.mem_cons_of_mem _ hcmd')
    intro cmd' hcmd'
    rw [main_dipole_command hcmd.numbered]
    exact hset cmd' (List.mem_cons_of_mem _ hcmd')

end Frame

/-! ## What a message sets -/

section Sets

open Fpu

variable {F : Type} [Fpu F] {c c' : Chan} {m m' : ChanMsg} {t : Setting} {s : Psc Nor}
  {v data : BitVec 32}

/-- The value that a message gives to its setting. -/
def ChanMsg.value (F : Type) [Fpu F] (s : Psc Nor) (c : Chan) (data : BitVec 32) :
    ChanMsg → BitVec 32
  | .gain _ => toU32 (single data * lit GAIN20BITFRACT : F)
  | .offset m => (offsetVal F c.u32 data m : Sw Nor (BitVec 32)).value s
  | .prot m =>
    let scaled_val := (protVal F c.u32 data m : Sw Nor (BitVec 32)).value s
    if m.clamped ∧ 32767 ≤ scaled_val.toInt then 32767 else scaled_val
  | .HEART_CNTLIM_MSG => cntlim F data
  | _ => data

theorem has_out32 (r : ChanReg) (v : BitVec 32) (s : Psc Nor) :
    (Setting.reg r).Has ((Xil_Out32 (chanReg c.u32 r.offset) v : Sw Nor Unit).final s) c v := by
  rw [chanReg_eq_chanAddr]
  show (if chanAddr c r = chanAddr c r then _ else _) = _
  rw [if_pos rfl, fieldWidth_chan]

theorem has_faultClear (h : c' = c ∨ s.regs GlobReg.main_dipole.offset = 1) (data : BitVec 32) :
    (Setting.reg .fault_clear).Has ((faultClear c'.u32 data : Sw Nor Unit).final s) c data := by
  rw [final]
  refine reg_of_mem ?_ (fun v' he => ?_) s
  · rw [effects_faultClear_chan]
    split
    · exact List.mem_map_of_mem (by cases c <;> decide)
    · next hmain =>
      obtain rfl : c' = c := h.resolve_right hmain
      exact List.mem_singleton_self _
  · rw [effects_faultClear_chan] at he
    split at he
    · obtain ⟨c'', -, he⟩ := List.mem_map.mp he
      exact (Eff.out32.inj he).2.symm
    · exact (Eff.out32.inj (List.mem_singleton.mp he)).2

/-- A message to the channel sets its setting. -/
theorem has_chanCommand (ht : m.setting = some t) (stack : Stack) (data : BitVec 32) (s : Psc Nor) :
    t.Has ((chanCommand F stack c.u32 data m : Sw Nor Unit).final s) c (m.value F s c data) := by
  cases m with
  | word n | gain n =>
    obtain rfl := Option.some.inj ht
    exact has_out32 _ _ s
  | offset n =>
    obtain rfl := Option.some.inj ht
    rw [chanCommand, final_bind]
    exact has_out32 _ _ s
  | prot n =>
    obtain rfl := Option.some.inj ht
    have hval : ((protVal F c.u32 data n : Sw Nor (BitVec 32)).final s) = s := by cases n <;> rfl
    rw [chanCommand, final_bind, hval]
    exact has_out32 _ _ s
  | sf n =>
    obtain rfl := Option.some.inj ht
    exact if_pos ⟨rfl, rfl⟩
  | HEART_CNTLIM_MSG =>
    obtain rfl := Option.some.inj ht
    exact has_out32 _ _ s
  | SF_DAC_DCCTS_MSG =>
    obtain rfl := Option.some.inj ht
    exact if_pos ⟨rfl, rfl⟩
  | FAULT_CLEAR_MSG =>
    obtain rfl := Option.some.inj ht
    exact has_faultClear (.inl rfl) data
  | DAC_OPMODE_MSG | DAC_SETPT_MSG | USR_TRIG_MSG | WRITE_QSPI_MSG | READ_QSPI_MSG | DUMP_ADCS_MSG
  | unsupported => cases ht

theorem value_congr {s s' : Psc Nor} (hconv : s.CONVVOLTSTODACBITS = s'.CONVVOLTSTODACBITS)
    (hsf : s.scalefactors = s'.scalefactors) (c : Chan) (data : BitVec 32) (m : ChanMsg) :
    m.value F s c data = m.value F s' c data := by
  have hthresh : ∀ dac f, (thresh F dac c.u32 data f : Sw Nor (BitVec 32)).value s =
      (thresh F dac c.u32 data f : Sw Nor (BitVec 32)).value s' := by
    intro dac f
    simp only [thresh, convvoltstodacbits, scalefactorF, value_bind, value_get, final_get, value_pure,
      hconv, hsf]
  cases m with
  | offset n =>
    simp only [ChanMsg.value, offsetVal, convvoltstodacbits, scalefactorF, value_bind, value_get,
      final_get, value_pure, hconv, hsf]
  | prot n =>
    have hval : (protVal F c.u32 data n : Sw Nor (BitVec 32)).value s =
        (protVal F c.u32 data n : Sw Nor (BitVec 32)).value s' := by
      cases n <;> first | exact hthresh _ _ | rfl
    simp only [ChanMsg.value, hval]
  | _ => rfl

/-- A command that sets the setting of the channel. -/
theorem has_command {cmd : Command} (hnum : cmd.Numbered) (ht : m.setting = some t)
    (h : cmd.Sets (s.regs GlobReg.main_dipole.offset) c m data) :
    t.Has ((cmd.run F : Sw Nor Unit).final s) c (m.value F s c data) := by
  rcases Command.final_cases (F := F) hnum s with
    ⟨c', m', data', pre, hmsg, hpre, hf⟩ | ⟨es, hmsg, -, -⟩
  · have hvalue : m.value F (applyAll pre s) c data = m.value F s c data := by
      refine value_congr ?_ ?_ c data m
      · exact applyAll_keeps (fun s : Psc Nor => s.CONVVOLTSTODACBITS) pre s fun e _ _ => by
          cases e <;> rfl
      · exact funext fun i => funext fun f => sf_general hpre i f s
    rw [hf]
    rcases h with h | ⟨rfl, hmain, c'', h⟩
    · obtain ⟨rfl, rfl, rfl⟩ : c = c' ∧ m = m' ∧ data = data' := by simpa using h.symm.trans hmsg
      rw [← hvalue]
      exact has_chanCommand ht cmd.stack data (applyAll pre s)
    · obtain ⟨-, rfl, rfl⟩ : c'' = c' ∧ ChanMsg.FAULT_CLEAR_MSG = m' ∧ data = data' := by
        simpa using h.symm.trans hmsg
      obtain rfl := Option.some.inj ht
      exact has_faultClear (.inr ((glob_general hpre rfl s).trans hmain)) data
  · rcases h with h | ⟨-, -, c'', h⟩
    · exact absurd (h.symm.trans hmsg) nofun
    · exact absurd (h.symm.trans hmsg) nofun

/-- The value of a setting at the end of a history. -/
theorem has_lastSets {cmds pre : List Command} (ht : m.setting = some t)
    (hramp : ∀ r, t = .reg r → r ∉ rampRegs) (hk : ∀ cmd ∈ cmds, cmd.Proper)
    (h : LastSets (s.regs GlobReg.main_dipole.offset) cmds c m data pre) :
    t.Has (Command.runAll F cmds s) c (m.value F (Command.runAll F pre s) c data) := by
  obtain ⟨cmd, post, rfl, hsets, hpost⟩ := h
  have hnum : ∀ x ∈ pre ++ cmd :: post, x.Numbered := fun x hx => (hk x hx).numbered
  have hcmd : cmd.Numbered := hnum cmd (List.mem_append_right _ List.mem_cons_self)
  have hmain := main_dipole_runAll (F := F) (fun x hx => hnum x (List.mem_append_left _ hx)) s
  have hset := has_command (F := F) (s := Command.runAll F pre s) hcmd ht (by rwa [hmain])
  rw [Command.runAll, List.foldl_append, List.foldl_cons]
  refine hset.runAll ht hramp (fun cmd' h' => hk cmd' ?_) (fun cmd' h' => ?_)
    fun cmd' h' => (hpost cmd' h').2 t ht
  · exact List.mem_append_right _ (List.mem_cons_of_mem _ h')
  · rw [main_dipole_command hcmd, hmain]
    exact (hpost cmd' h').1

end Sets

/-! ## What the frame shows -/

/-- The LED of the frame is none of the registers of a channel. -/
theorem regs_blinked (s : Psc Nor) (c : Chan) (r : ChanReg) :
    (blinked s).regs (chanAddr c r) = s.regs (chanAddr c r) := by
  refine reg_of_not_mem (fun v he => ?_) s
  simp only [List.mem_cons, Eff.out32.injEq, List.not_mem_nil, or_false] at he
  have hnum := c.num_pos
  rcases he with he | he <;> simp only [chanAddr, CHBASEADDR, TENHZ_DATASEND_REG] at he <;> omega

theorem Setting.Has.blinked {s : Psc Nor} {c : Chan} {v : BitVec 32} {t : Setting} (h : t.Has s c v) :
    t.Has (blinked s) c v := by
  cases t with
  | sf f => exact h
  | reg r => exact (regs_blinked s c r).trans h

section Truth

variable {dec : BitVec 32 → ℚ} {enc : ℚ → BitVec 32} {conv data : BitVec 32} {old : SAdataMsg}
  {s₁ s : Psc Nor} {c : Chan}

/-- The number in a register that holds it. -/
theorem toNat_register {r : ChanReg} {x : ℤ} (h : (Setting.reg r).Has s c (BitVec.ofInt 32 x))
    (h0 : 0 ≤ x) (hlt : x < 2 ^ r.width) : ((s.regs (chanAddr c r)).toNat : ℤ) = x := by
  have hle := r.width_le
  have hpow : (2 : ℤ) ^ r.width ≤ 2 ^ 32 := pow_le_pow_right₀ (by norm_num) hle
  rw [h, setWidth_ofInt hle, BitVec.toNat_setWidth, BitVec.toNat_ofInt]
  push_cast
  rw [Int.emod_eq_of_lt h0 hlt, Int.toNat_of_nonneg h0, Int.emod_eq_of_lt h0 (by omega)]

theorem toInt_register {r : ChanReg} {x : ℤ} (h : (Setting.reg r).Has s c (BitVec.ofInt 32 x))
    (hr : r.width = 32) (hlow : -2 ^ 31 ≤ x) (hhigh : x < 2 ^ 31) :
    (s.regs (chanAddr c r)).toInt = x := by
  have hreg : s.regs (chanAddr c r) = BitVec.ofInt 32 x := by
    rw [h, hr, BitVec.setWidth_eq, BitVec.setWidth_eq]
  rw [hreg, BitVec.toInt_ofInt, Int.bmod_eq_of_le (by omega) (by omega)]

/-- Volts for a bit of the DAC or of the 16-bit ADC, and bits for a volt. -/
theorem volts_mul_bits (hconv : dec conv * dec s.CONVVOLTSTODACBITS = 1) (dac : Bool) :
    (if dac then dec conv else 1 / CONVVOLTSTO16BITS) *
      (if dac then dec s.CONVVOLTSTODACBITS else CONVVOLTSTO16BITS) = 1 := by
  cases dac with
  | true => exact hconv
  | false => exact one_div_mul_cancel (by norm_num [CONVVOLTSTO16BITS])

theorem bitStep_eq (dac : Bool) (f : Sf) :
    bitStep dec conv s c dac f = |if dac then dec conv else 1 / CONVVOLTSTO16BITS| *
      |dec (s.scalefactors (c.u32 - 1) f)| := by
  cases dac with
  | true => rfl
  | false =>
    have hpos : 0 < 1 / CONVVOLTSTO16BITS := by norm_num [CONVVOLTSTO16BITS]
    exact congrArg (· * |dec (s.scalefactors (c.u32 - 1) f)|) (abs_of_pos hpos).symm

/-- The number that is shown for an offset. -/
def offsetShown (dec : BitVec 32 → ℚ) (conv : BitVec 32) (s : Psc Nor) (c : Chan) (n : OffsetMsg) :
    ℚ :=
  (s.regs (chanAddr c n.reg)).toInt * (if n.dacBits then dec conv else 1 / CONVVOLTSTO16BITS) *
    dec (s.scalefactors (c.u32 - 1) n.scalefactor)

theorem offset_shown {n : OffsetMsg} {f : SaChanField} (hf : (ChanMsg.offset n).field = some f) :
    (sadata (Exact dec enc) conv s old).ps c f = enc (offsetShown dec conv s c n) := by
  cases n <;> obtain rfl := Option.some.inj hf <;> rfl

theorem value_offset (n : OffsetMsg) :
    (ChanMsg.offset n).value (Exact dec enc) s₁ c data =
      BitVec.ofInt 32 (trunc (bitsOf dec s₁ c n.dacBits n.scalefactor (dec data))) := by
  cases n <;> rfl

theorem truth_offset {n : OffsetMsg} {f : SaChanField} (hf : (ChanMsg.offset n).field = some f)
    (hconv : dec conv * dec s.CONVVOLTSTODACBITS = 1)
    (hsame : s₁.CONVVOLTSTODACBITS = s.CONVVOLTSTODACBITS)
    (h : (Setting.reg n.reg).Has s c ((ChanMsg.offset n).value (Exact dec enc) s₁ c data)) :
    OffsetTruth dec enc conv s₁ s c data ((sadata (Exact dec enc) conv s old).ps c f) n.dacBits
      n.scalefactor := by
  intro hkept hlow hhigh
  have hbits : bitsOf dec s₁ c n.dacBits n.scalefactor (dec data) =
      bitsOf dec s c n.dacBits n.scalefactor (dec data) := by
    rw [bitsOf, bitsOf, hsame, hkept.1]
  rw [value_offset, hbits] at h
  have hreg := toInt_register h (by cases n <;> rfl) hlow hhigh
  refine ⟨_, offset_shown hf, ?_⟩
  rw [offsetShown, hreg, bitStep_eq, bitsOf]
  exact abs_trunc_mul_sub_le (volts_mul_bits hconv n.dacBits) hkept.2 (dec data)

/-- The number that is shown for a gain. -/
def gainShown (s : Psc Nor) (c : Chan) (n : GainMsg) : ℚ :=
  (s.regs (chanAddr c n.reg)).toInt / GAIN20BITFRACT

theorem gain_shown {n : GainMsg} {f : SaChanField} (hf : (ChanMsg.gain n).field = some f) :
    (sadata (Exact dec enc) conv s old).ps c f = enc (gainShown s c n) := by
  cases n <;> obtain rfl := Option.some.inj hf <;> rfl

theorem truth_gain {n : GainMsg} {f : SaChanField} (hf : (ChanMsg.gain n).field = some f)
    (h : (Setting.reg n.reg).Has s c ((ChanMsg.gain n).value (Exact dec enc) s₁ c data)) :
    GainTruth dec enc data ((sadata (Exact dec enc) conv s old).ps c f) := by
  intro hnonneg hlt
  have hpos : 0 < GAIN20BITFRACT := by norm_num [GAIN20BITFRACT]
  have htrunc := trunc_nonneg (mul_nonneg hnonneg hpos.le)
  have hreg := toInt_register (x := trunc (dec data * GAIN20BITFRACT)) h (by cases n <;> rfl)
    (by omega) hlt
  refine ⟨_, gain_shown hf, ?_⟩
  rw [gainShown, hreg]
  exact abs_trunc_mul_div_sub_le hpos (dec data)

/-- A count limit. -/
theorem truth_cntlim {r : ChanReg} (hr : r.width = 16) {w : BitVec 32}
    (hw : w = enc ((s.regs (chanAddr c r)).toNat / SAMPLERATE))
    (h : (Setting.reg r).Has s c (BitVec.ofInt 32 (trunc (dec data * SAMPLERATE)))) :
    CntlimTruth dec enc data w := by
  intro hnonneg hlt
  have hpos : 0 < SAMPLERATE := by norm_num [SAMPLERATE]
  have hreg := toNat_register h (trunc_nonneg (mul_nonneg hnonneg hpos.le)) (by rw [hr]; exact hlt)
  have hq : ((s.regs (chanAddr c r)).toNat : ℚ) = trunc (dec data * SAMPLERATE) := by
    exact_mod_cast congrArg (Int.cast : ℤ → ℚ) hreg
  refine ⟨_, hw, ?_⟩
  rw [hq]
  exact abs_trunc_mul_div_sub_le hpos (dec data)

/-- A threshold in units of the DAC or of the 16-bit ADC. -/
theorem truth_thresh {r : ChanReg} {dac : Bool} {f : Sf} {bound : ℤ} (hr : bound ≤ 2 ^ r.width)
    {w : BitVec 32}
    (hw : w = enc ((s.regs (chanAddr c r)).toNat *
      (if dac then dec conv else 1 / CONVVOLTSTO16BITS) * |dec (s.scalefactors (c.u32 - 1) f)|))
    (hconv : dec conv * dec s.CONVVOLTSTODACBITS = 1) (hpos : 0 < dec s.CONVVOLTSTODACBITS)
    (hsame : s₁.CONVVOLTSTODACBITS = s.CONVVOLTSTODACBITS)
    (h : |trunc (bitsOf dec s₁ c dac f (dec data))| < bound →
      (Setting.reg r).Has s c (BitVec.ofInt 32 |trunc (bitsOf dec s₁ c dac f (dec data))|)) :
    ThreshTruth dec enc conv s₁ s c data w dac f bound := by
  intro hkept hlt
  have hbits : bitsOf dec s₁ c dac f (dec data) = bitsOf dec s c dac f (dec data) := by
    rw [bitsOf, bitsOf, hsame, hkept.1]
  rw [hbits] at h
  have hreg := toNat_register (h hlt) (abs_nonneg _) (lt_of_lt_of_le hlt hr)
  have hq : ((s.regs (chanAddr c r)).toNat : ℚ) =
      (|trunc (bitsOf dec s c dac f (dec data))| : ℤ) := by
    exact_mod_cast congrArg (Int.cast : ℤ → ℚ) hreg
  refine ⟨_, hw, ?_⟩
  have habs : |bitsOf dec s c dac f (dec data)| = |dec data| *
      (if dac then dec s.CONVVOLTSTODACBITS else CONVVOLTSTO16BITS) /
        |dec (s.scalefactors (c.u32 - 1) f)| := by
    have hbit : 0 < if dac then dec s.CONVVOLTSTODACBITS else CONVVOLTSTO16BITS := by
      split
      · exact hpos
      · norm_num [CONVVOLTSTO16BITS]
    rw [bitsOf, abs_div, abs_mul, abs_of_pos hbit]
  have hle := abs_trunc_mul_sub_le (volts_mul_bits hconv dac) (abs_ne_zero.mpr hkept.2) |dec data|
  rw [hq, ← trunc_abs, bitStep_eq, habs]
  rwa [abs_abs] at hle

theorem value_thresh (dac : Bool) (f : Sf) :
    (thresh (Exact dec enc) dac c.u32 data f : Sw Nor (BitVec 32)).value s₁ =
      BitVec.ofInt 32 |trunc (bitsOf dec s₁ c dac f (dec data))| := by
  rw [← trunc_abs, bitsOf, abs_div]
  cases dac <;> rfl

/-- A threshold of the DAC: its register has no sign bit. -/
theorem truth_dacThresh {r : ChanReg} (hr : r.width = 20) {w : BitVec 32}
    (hw : w = enc ((s.regs (chanAddr c r)).toInt * dec conv *
      |dec (s.scalefactors (c.u32 - 1) .dac_dccts)|))
    (hconv : dec conv * dec s.CONVVOLTSTODACBITS = 1) (hpos : 0 < dec s.CONVVOLTSTODACBITS)
    (hsame : s₁.CONVVOLTSTODACBITS = s.CONVVOLTSTODACBITS)
    (h : (Setting.reg r).Has s c
      ((thresh (Exact dec enc) true c.u32 data .dac_dccts : Sw Nor (BitVec 32)).value s₁)) :
    ThreshTruth dec enc conv s₁ s c data w true .dac_dccts (2 ^ 20) := by
  rw [value_thresh] at h
  have hint : (s.regs (chanAddr c r)).toInt = (s.regs (chanAddr c r)).toNat := by
    rw [h, BitVec.toInt_eq_toNat_of_lt]
    have hlt := (BitVec.setWidth r.width
      (BitVec.ofInt 32 |trunc (bitsOf dec s₁ c true .dac_dccts (dec data))|)).isLt
    rw [hr] at hlt ⊢
    rw [BitVec.toNat_setWidth]
    omega
  rw [hint, Int.cast_natCast] at hw
  exact truth_thresh (by rw [hr]) hw hconv hpos hsame fun _ => h

/-- A threshold of the ADC: the limit of 32767 is in range. -/
theorem truth_adcThresh {n : ProtMsg} (hn : n.clamped = true) (hr : n.reg.width = 16) {f : Sf}
    (hval : (protVal (Exact dec enc) c.u32 data n : Sw Nor (BitVec 32)) =
      thresh (Exact dec enc) false c.u32 data f) {w : BitVec 32}
    (hw : w = enc ((s.regs (chanAddr c n.reg)).toNat * (1 / CONVVOLTSTO16BITS) *
      |dec (s.scalefactors (c.u32 - 1) f)|))
    (hconv : dec conv * dec s.CONVVOLTSTODACBITS = 1) (hpos : 0 < dec s.CONVVOLTSTODACBITS)
    (hsame : s₁.CONVVOLTSTODACBITS = s.CONVVOLTSTODACBITS)
    (h : (Setting.reg n.reg).Has s c ((ChanMsg.prot n).value (Exact dec enc) s₁ c data)) :
    ThreshTruth dec enc conv s₁ s c data w false f (2 ^ 15) := by
  refine truth_thresh (by rw [hr]; norm_num) hw hconv hpos hsame ?_
  intro hlt
  have hint : (BitVec.ofInt 32 |trunc (bitsOf dec s₁ c false f (dec data))|).toInt =
      |trunc (bitsOf dec s₁ c false f (dec data))| := by
    have := abs_nonneg (trunc (bitsOf dec s₁ c false f (dec data)))
    rw [BitVec.toInt_ofInt, Int.bmod_eq_of_le (by omega) (by omega)]
  simp only [ChanMsg.value, hval, value_thresh, hint, hn, true_and] at h
  split at h
  · next hge =>
    rw [show |trunc (bitsOf dec s₁ c false f (dec data))| = 32767 by omega]
    exact h
  · exact h

/-- The number that is shown for a threshold of the ADC. -/
theorem word_saAdcThresh (s : Psc Nor) (c : Chan) (r : ChanReg) (f : Sf) :
    (saAdcThresh (Exact dec enc) s c r f).word =
      enc ((s.regs (chanAddr c r)).toNat * (1 / CONVVOLTSTO16BITS) *
        |dec (s.scalefactors (c.u32 - 1) f)|) := rfl

theorem word_saDacThresh (s : Psc Nor) (c : Chan) (r : ChanReg) :
    (saDacThresh (Exact dec enc) conv s c r).word =
      enc ((s.regs (chanAddr c r)).toInt * dec conv *
        |dec (s.scalefactors (c.u32 - 1) .dac_dccts)|) := rfl

theorem word_saCntlim (s : Psc Nor) (c : Chan) (r : ChanReg) :
    (saCntlim (Exact dec enc) s c r).word =
      enc ((s.regs (chanAddr c r)).toNat / SAMPLERATE) := rfl

/-- What is assigned to the field of a protection parameter. -/
def protShown (F : Type) [Fpu F] (conv : BitVec 32) (s : Psc Nor) (c : Chan) (n : ProtMsg) : SaVal F :=
  match n with
  | .OVC1_THRESH_MSG | .OVC2_THRESH_MSG => saDacThresh F conv s c n.reg
  | .OVV_THRESH_MSG => saAdcThresh F s c n.reg .vout
  | .ERR1_THRESH_MSG | .ERR2_THRESH_MSG => saAdcThresh F s c n.reg .error
  | .IGND_THRESH_MSG => saAdcThresh F s c n.reg .ignd
  | _ => saCntlim F s c n.reg

theorem prot_shown {F : Type} [Fpu F] {n : ProtMsg} {f : SaChanField}
    (hf : (ChanMsg.prot n).field = some f) :
    (sadata F conv s old).ps c f = (protShown F conv s c n).word := by
  cases n <;> obtain rfl := Option.some.inj hf <;> rfl

theorem truth_prot {n : ProtMsg} {f : SaChanField} (hf : (ChanMsg.prot n).field = some f)
    (hconv : dec conv * dec s.CONVVOLTSTODACBITS = 1) (hpos : 0 < dec s.CONVVOLTSTODACBITS)
    (hsame : s₁.CONVVOLTSTODACBITS = s.CONVVOLTSTODACBITS)
    (h : (Setting.reg n.reg).Has s c ((ChanMsg.prot n).value (Exact dec enc) s₁ c data)) :
    (ChanMsg.prot n).Truth dec enc conv s₁ s c data
      ((sadata (Exact dec enc) conv s old).ps c f) := by
  rw [prot_shown hf]
  cases n with
  | OVC1_THRESH_MSG | OVC2_THRESH_MSG =>
    exact truth_dacThresh rfl (word_saDacThresh s c _) hconv hpos hsame h
  | OVV_THRESH_MSG =>
    exact truth_adcThresh (n := .OVV_THRESH_MSG) rfl rfl rfl (word_saAdcThresh s c _ .vout) hconv hpos
      hsame h
  | ERR1_THRESH_MSG =>
    exact truth_adcThresh (n := .ERR1_THRESH_MSG) rfl rfl rfl (word_saAdcThresh s c _ .error) hconv
      hpos hsame h
  | ERR2_THRESH_MSG =>
    exact truth_adcThresh (n := .ERR2_THRESH_MSG) rfl rfl rfl (word_saAdcThresh s c _ .error) hconv
      hpos hsame h
  | IGND_THRESH_MSG =>
    exact truth_adcThresh (n := .IGND_THRESH_MSG) rfl rfl rfl (word_saAdcThresh s c _ .ignd) hconv
      hpos hsame h
  | _ => exact truth_cntlim rfl (word_saCntlim s c _) h

/-- The fields that are read from the setting of their message. -/
theorem truth_of_has {m : ChanMsg} {f : SaChanField} {t : Setting} (hf : m.field = some f)
    (h2 : m ≠ .word .DIGOUT_ON2_MSG) (h3 : m ≠ .word .DIGOUT_RESET_MSG)
    (h4 : m ≠ .word .DIGOUT_SPARE_MSG)
    (ht : m.setting = some t) (hconv : dec conv * dec s.CONVVOLTSTODACBITS = 1)
    (hpos : 0 < dec s.CONVVOLTSTODACBITS) (hsame : s₁.CONVVOLTSTODACBITS = s.CONVVOLTSTODACBITS)
    (h : t.Has s c (m.value (Exact dec enc) s₁ c data)) :
    m.Truth dec enc conv s₁ s c data ((sadata (Exact dec enc) conv s old).ps c f) := by
  cases m with
  | gain n =>
    obtain rfl := Option.some.inj ht
    exact truth_gain hf h
  | offset n =>
    obtain rfl := Option.some.inj ht
    exact truth_offset hf hconv hsame h
  | HEART_CNTLIM_MSG =>
    obtain rfl := Option.some.inj ht
    obtain rfl := Option.some.inj hf
    exact truth_cntlim rfl (word_saCntlim s c _) h
  | FAULT_CLEAR_MSG =>
    obtain rfl := Option.some.inj ht
    obtain rfl := Option.some.inj hf
    exact h
  | SF_DAC_DCCTS_MSG =>
    obtain rfl := Option.some.inj ht
    obtain rfl := Option.some.inj hf
    exact congrArg (fun w => enc (dec w)) h
  | sf n =>
    obtain rfl := Option.some.inj ht
    cases n <;> obtain rfl := Option.some.inj hf <;> exact congrArg (fun w => enc (dec w)) h
  | word n =>
    obtain rfl := Option.some.inj ht
    cases n with
    | FAULT_MASK_MSG | DIGOUT_ON1_MSG | DIGOUT_PARK_MSG =>
      obtain rfl := Option.some.inj hf
      exact h
    | DIGOUT_ON2_MSG => exact absurd rfl h2
    | DIGOUT_RESET_MSG => exact absurd rfl h3
    | DIGOUT_SPARE_MSG => exact absurd rfl h4
    | DAC_RAMPLEN_MSG | DAC_RUNRAMP_MSG | FOFB_FASTADDR_MSG | AVE_MODE_MSG => exact absurd hf nofun
  | prot n =>
    obtain rfl := Option.some.inj ht
    exact truth_prot hf hconv hpos hsame h
  | DAC_OPMODE_MSG | DAC_SETPT_MSG | USR_TRIG_MSG | WRITE_QSPI_MSG | READ_QSPI_MSG | DUMP_ADCS_MSG
  | unsupported => exact absurd hf nofun

/-- The LED is not looked at. -/
theorem truth_blinked {m : ChanMsg} {w : BitVec 32}
    (h : m.Truth dec enc conv s₁ (blinked s) c data w) : m.Truth dec enc conv s₁ s c data w := by
  cases m with
  | prot n => cases n <;> exact h
  | _ => exact h

end Truth

/-! ## Histories -/

/-- A message with a field has a setting, which is not of the ramp table. -/
theorem setting_of_field {m : ChanMsg} {f : SaChanField} (hf : m.field = some f) :
    ∃ t, m.setting = some t ∧ ∀ r, t = .reg r → r ∉ rampRegs := by
  cases m with
  | word n =>
    refine ⟨_, rfl, ?_⟩
    rintro r ⟨⟩
    cases n <;> first | decide | exact absurd hf nofun
  | gain n | offset n | prot n =>
    refine ⟨_, rfl, ?_⟩
    rintro r ⟨⟩
    cases n <;> decide
  | FAULT_CLEAR_MSG | HEART_CNTLIM_MSG =>
    refine ⟨_, rfl, ?_⟩
    rintro r ⟨⟩
    decide
  | sf n => exact ⟨_, rfl, nofun⟩
  | SF_DAC_DCCTS_MSG => exact ⟨_, rfl, nofun⟩
  | DAC_OPMODE_MSG | DAC_SETPT_MSG | USR_TRIG_MSG | WRITE_QSPI_MSG | READ_QSPI_MSG | DUMP_ADCS_MSG
  | unsupported => exact absurd hf nofun

section Word

variable {main : BitVec 32} {cmds pre : List Command} {c : Chan} {n : WordMsg} {data : BitVec 32}

theorem sets_word {cmd : Command} :
    cmd.Sets main c (.word n) data ↔ cmd.chanMsg = some (c.u32, .word n, data) := by
  refine ⟨fun h => ?_, .inl⟩
  rcases h with h | ⟨h, -⟩
  · exact h
  · exact absurd h nofun

/-- A word that is not in flash and has been commanded was commanded last by some command. -/
theorem exists_lastSets (hn : n.reg ∉ qspiRegs) (h : Commanded cmds c (.word n)) :
    ∃ data pre, LastSets main cmds c (.word n) data pre := by
  induction cmds with
  | nil =>
    obtain ⟨cmd, hmem, -⟩ := h
    exact absurd hmem List.not_mem_nil
  | cons cmd cmds ih =>
    by_cases hlater : Commanded cmds c (.word n)
    · obtain ⟨data, pre, cmd', post, rfl, hrest⟩ := ih hlater
      exact ⟨data, cmd :: pre, cmd', post, rfl, hrest⟩
    · obtain ⟨cmd', hmem, data, hmsg⟩ := h
      rcases List.mem_cons.mp hmem with rfl | hmem
      · refine ⟨data, [], cmd', cmds, rfl, .inl hmsg, fun x hx => ⟨fun data' hsets => ?_, ?_⟩⟩
        · exact hlater ⟨x, hx, data', sets_word.mp hsets⟩
        · rintro t ht ⟨-, hsaved⟩
          obtain rfl := Option.some.inj ht
          exact hn hsaved
      · exact absurd ⟨cmd', hmem, data, hmsg⟩ hlater

theorem commanded_of_lastSets (h : LastSets main cmds c (.word n) data pre) :
    Commanded cmds c (.word n) := by
  obtain ⟨cmd, post, rfl, hsets, -⟩ := h
  exact ⟨cmd, List.mem_append_right _ List.mem_cons_self, data, sets_word.mp hsets⟩

end Word

section Main

variable {dec : BitVec 32 → ℚ} {enc : ℚ → BitVec 32} {conv data : BitVec 32} {old : SAdataMsg}
  {s₀ : Psc Nor} {cmds pre : List Command} {c : Chan} {n : WordMsg} {f : SaChanField} {r : ChanReg}

/-- A digital output that is read from the register `r` is shown as it was commanded exactly if its
own register agrees with `r`. -/
theorem truth_word_iff (hf : (ChanMsg.word n).field = some f)
    (hshown : ∀ s : Psc Nor, (sadata (Exact dec enc) conv s old).ps c f = s.regs (chanAddr c r))
    (hk : ∀ cmd ∈ cmds, cmd.Proper)
    (h : LastSets (s₀.regs GlobReg.main_dipole.offset) cmds c (.word n) data pre) :
    let s := Command.runAll (Exact dec enc) cmds s₀
    (ChanMsg.word n).Truth dec enc conv (Command.runAll (Exact dec enc) pre s₀) s c data
        (frameWord ((sadata_send (Exact dec enc) conv old : Sw Nor (List Byte)).value s) c f) ↔
      s.regs (chanAddr c r) = s.regs (chanAddr c n.reg) := by
  intro s
  obtain ⟨t, ht, hramp⟩ := setting_of_field hf
  obtain rfl := Option.some.inj ht
  have hhas : s.regs (chanAddr c n.reg) = (data.setWidth n.reg.width).setWidth 32 :=
    has_lastSets (F := Exact dec enc) ht hramp hk h
  rw [frameWord_sadata_send, hshown, regs_blinked, hhas]
  rfl

theorem agrees_of_truthful (hf : (ChanMsg.word n).field = some f) (hn : n.reg ∉ qspiRegs)
    (hshown : ∀ s : Psc Nor, (sadata (Exact dec enc) conv s old).ps c f = s.regs (chanAddr c r))
    (hk : ∀ cmd ∈ cmds, cmd.Proper)
    (h : Truthful dec enc conv old s₀ cmds c) (hcmd : Commanded cmds c (.word n)) :
    let s := Command.runAll (Exact dec enc) cmds s₀
    s.regs (chanAddr c r) = s.regs (chanAddr c n.reg) := by
  obtain ⟨data, pre, hlast⟩ := exists_lastSets hn hcmd
  exact (truth_word_iff hf hshown hk hlast).mp (h _ _ hf data pre hlast)

end Main

/-- The frame tells the truth about a channel exactly if the outputs that are read from the register
of another one agree with it. -/
theorem truthful_iff (dec : BitVec 32 → ℚ) (enc : ℚ → BitVec 32) (conv : BitVec 32)
    (old : SAdataMsg) (s₀ : Psc Nor) (hconv : dec conv * dec s₀.CONVVOLTSTODACBITS = 1)
    (hpos : 0 < dec s₀.CONVVOLTSTODACBITS) (cmds : List Command)
    (hk : ∀ cmd ∈ cmds, cmd.Proper) (c : Chan) :
    Truthful dec enc conv old s₀ cmds c ↔
      DigoutsAgree (Command.runAll (Exact dec enc) cmds s₀) cmds c := by
  constructor
  · intro h
    exact {
      on2 := agrees_of_truthful rfl (by decide) (fun _ => rfl) hk h
      reset := agrees_of_truthful rfl (by decide) (fun _ => rfl) hk h
      spare := agrees_of_truthful rfl (by decide) (fun _ => rfl) hk h }
  · intro h m f hf data pre hlast
    by_cases h2 : m = .word .DIGOUT_ON2_MSG
    · subst h2
      obtain rfl := Option.some.inj hf
      exact (truth_word_iff rfl (fun _ => rfl) hk hlast).mpr (h.on2 (commanded_of_lastSets hlast))
    by_cases h3 : m = .word .DIGOUT_RESET_MSG
    · subst h3
      obtain rfl := Option.some.inj hf
      exact (truth_word_iff rfl (fun _ => rfl) hk hlast).mpr (h.reset (commanded_of_lastSets hlast))
    by_cases h4 : m = .word .DIGOUT_SPARE_MSG
    · subst h4
      obtain rfl := Option.some.inj hf
      exact (truth_word_iff rfl (fun _ => rfl) hk hlast).mpr (h.spare (commanded_of_lastSets hlast))
    obtain ⟨t, ht, hramp⟩ := setting_of_field hf
    have hhas := (has_lastSets (F := Exact dec enc) ht hramp hk hlast).blinked
    have hend : (blinked (Command.runAll (Exact dec enc) cmds s₀)).CONVVOLTSTODACBITS =
        s₀.CONVVOLTSTODACBITS := conv_runAll cmds s₀
    rw [frameWord_sadata_send]
    refine truth_blinked (truth_of_has hf h2 h3 h4 ht ?_ ?_ ?_ hhas)
    · rw [hend]
      exact hconv
    · rw [hend]
      exact hpos
    · rw [hend]
      exact conv_runAll pre s₀

/-- The numbers of the words, with the bits per volt as they are written in the source. -/
def sourceNumber (w : BitVec 32) : ℚ :=
  if w = convVoltsToBits true then CONVVOLTSTO20BITS
  else if w = convVoltsToBits false then CONVVOLTSTO18BITS
  else binary32 w

/-- 20 bits and scale factors of 1. -/
def unitPsc : Psc Nor where
  regs := fun _ => 0
  scalefactors := fun _ _ => 0x3F800000
  CONVVOLTSTODACBITS := convVoltsToBits true
  smoothramp_type := 0
  smoothramp_percentcurved := 10
  flash := ⟨fun _ => 0xFF, false⟩

/-- A message to channel 1. -/
def messageTo1 (addr data : BitVec 32) : Command :=
  .message zeroLocals.toStack 1 8 (msgBuf addr data)

theorem proper_messageTo1 (addr data : BitVec 32) : (messageTo1 addr data).Proper :=
  ⟨numbered_message _ _ _ _, zeroLocals, rfl⟩

/-- All four outputs on, and an over-voltage threshold of 2.5. -/
def allOn : List Command :=
  [messageTo1 268 1, messageTo1 272 1, messageTo1 276 1, messageTo1 280 1, messageTo1 196 0x40200000]

theorem truthful_allOn :
    Truthful sourceNumber toBinary32 (convBitsToVolts true) (filled 0) unitPsc allOn .ps1 := by
  refine (truthful_iff sourceNumber toBinary32 (convBitsToVolts true) (filled 0) unitPsc
    (by decide +kernel) (by decide +kernel) allOn (fun cmd hcmd => ?_) .ps1).mpr
    ⟨fun _ => by decide +kernel, fun _ => by decide +kernel, fun _ => by decide +kernel⟩
  simp only [allOn, List.mem_cons, List.not_mem_nil, or_false] at hcmd
  rcases hcmd with rfl | rfl | rfl | rfl | rfl <;> exact proper_messageTo1 _ _

/-- After `DIGOUT_ON2_MSG` alone the frame shows the output off. -/
theorem on2_not_truthful :
    ¬ Truthful sourceNumber toBinary32 (convBitsToVolts true) (filled 0) unitPsc
      [messageTo1 272 1] .ps1 := by
  intro h
  have hlast : LastSets (unitPsc.regs GlobReg.main_dipole.offset) [messageTo1 272 1] .ps1
      (.word .DIGOUT_ON2_MSG) 1 [] :=
    ⟨messageTo1 272 1, [], rfl, .inl (by decide +kernel), fun _ hx => absurd hx List.not_mem_nil⟩
  have hproper : ∀ cmd ∈ [messageTo1 272 1], cmd.Proper := by
    intro cmd hcmd
    rw [List.mem_singleton.mp hcmd]
    exact proper_messageTo1 272 1
  have hagree := (truth_word_iff rfl (fun _ => rfl) hproper hlast).mp (h _ _ rfl _ _ hlast)
  exact absurd hagree (by decide +kernel)

end Zpsc.Commands
