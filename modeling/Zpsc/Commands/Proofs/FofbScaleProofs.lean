import Zpsc.Commands.FofbScale
import Zpsc.Commands.Proofs.FlavorProofs
import Zpsc.Commands.Proofs.FrameProofs
import Zpsc.Commands.Proofs.SavedProofs

/-!
# When the scale factor of the fast feedback is right

The register, the mode and the two values that the register is derived from are what counts
(`FofbConsistent.congr`). Two messages write the register; every other step leaves the four alone,
but for a read from flash and a change of the resolution.
-/

namespace Zpsc.Commands

open Bits Effects Cmd Control

/-! ## What a read from flash does to a channel -/

section Read

variable {φ : Type} [FlashChip φ]

theorem conv_final {α : Type} (m : Sw φ α) (s : Psc φ) :
    (m.final s).CONVVOLTSTODACBITS = s.CONVVOLTSTODACBITS := by
  rw [final]
  refine applyAll_keeps (fun s : Psc φ => s.CONVVOLTSTODACBITS) _ s fun (e : Eff) _ _ => ?_
  cases e <;> rfl

theorem reg_readQspi_of_not_mem (stack : Stack) (c c' : Chan) (s : Psc φ) {r : ChanReg}
    (hr : r ∉ qspiRegs) :
    ((readQspi stack c.u32 : Sw φ Unit).final s).regs (chanAddr c' r) = s.regs (chanAddr c' r) :=
  bus_readQspi stack c s fun _ hr' e => hr ((chanAddr_inj e).2 ▸ hr')

end Read

theorem dac_dccts_readQspi (k : Locals) (c : Chan) (s : Psc Nor) :
    ((readQspi k.toStack c.u32 : Sw Nor Unit).final s).scalefactors (c.u32 - 1) .dac_dccts =
      savedDccts s.flash c := by
  have hi : (Sf.dac_dccts, 39) ∈ qspiSfs.zipIdx (qspiRegs.length + 1) := by decide
  rw [scalefactors_readQspi k.toStack c s hi, le32At_reply k c s.flash (by decide) (by decide)]
  rfl

namespace Firmware

variable {dec : BitVec 32 → ℚ} {enc : ℚ → BitVec 32} {c c' : Chan}

@[simp] theorem after_toPsc (s : Firmware Nor) (m : Sw Nor Unit) :
    (s.after m).toPsc = m.final s.toPsc := rfl

/-! ## The four values -/

/-- Only the mode, the register and the two values count. -/
theorem FofbConsistent.congr {s s' : Firmware Nor} (h : s.FofbConsistent dec enc c)
    (hop : s'.regs (chanAddr c .dac_opmode) = s.regs (chanAddr c .dac_opmode))
    (hreg : s'.regs (chanAddr c .fofb_scalefactor) = s.regs (chanAddr c .fofb_scalefactor))
    (hconv : s.InFofb c → dec s'.CONVVOLTSTODACBITS = dec s.CONVVOLTSTODACBITS)
    (hdccts : s.InFofb c → dec (s'.dac_dccts c) = dec (s.dac_dccts c)) :
    s'.FofbConsistent dec enc c := by
  intro hmode hne
  have hmode' : s.InFofb c := (Bus.chan_congr hop).symm.trans hmode
  rw [hdccts hmode'] at hne
  rw [hconv hmode', hdccts hmode', ← h hmode' hne]
  exact Bus.chan_congr hreg

/-! ## Channel messages -/

/-- The messages that touch none of the four values. -/
theorem not_touched {m : ChanMsg} (h1 : m ≠ .DAC_OPMODE_MSG) (h2 : m ≠ .SF_DAC_DCCTS_MSG)
    (h3 : m ≠ .WRITE_QSPI_MSG) (h4 : m ≠ .READ_QSPI_MSG) :
    .dac_opmode ∉ m.writes ∧ .fofb_scalefactor ∉ m.writes ∧ .dac_dccts ∉ m.sets := by
  cases m with
  | DAC_OPMODE_MSG => exact absurd rfl h1
  | SF_DAC_DCCTS_MSG => exact absurd rfl h2
  | WRITE_QSPI_MSG => exact absurd rfl h3
  | READ_QSPI_MSG => exact absurd rfl h4
  | word m => cases m <;> decide
  | gain m => cases m <;> decide
  | offset m => cases m <;> decide
  | prot m => cases m <;> decide
  | sf m => cases m <;> decide
  | DAC_SETPT_MSG | HEART_CNTLIM_MSG | FAULT_CLEAR_MSG | USR_TRIG_MSG | DUMP_ADCS_MSG
  | unsupported => decide

/-- The word that the software writes is the quotient. -/
theorem value_fofbScalefactor (dec : BitVec 32 → ℚ) (enc : ℚ → BitVec 32) (w : BitVec 32)
    (s : Psc Nor) :
    (fofbScalefactor (Exact dec enc) w : Sw Nor (BitVec 32)).value s =
      enc (dec s.CONVVOLTSTODACBITS / dec w) := by
  show enc (1 / dec w * dec s.CONVVOLTSTODACBITS) = enc (dec s.CONVVOLTSTODACBITS / dec w)
  rw [one_div, mul_comm, div_eq_mul_inv]

/-- Another mode than FOFB asks for nothing. -/
theorem consistent_of_mode {mode : BitVec 32} (hmode : mode.setWidth 2 ≠ FOFB.setWidth 2)
    (s : Firmware Nor) :
    (s.after (Xil_Out32 (chanReg c.u32 ChanReg.dac_opmode.offset) mode)).FofbConsistent
      dec enc c := by
  intro hin
  have hreg := chan_out32 c .dac_opmode mode s.toPsc c .dac_opmode
  rw [if_pos ⟨rfl, rfl⟩] at hreg
  exact absurd (hreg.symm.trans hin) hmode

theorem consistent_opmode (data : BitVec 32) {s : Firmware Nor}
    (h : s.FofbConsistent dec enc c) :
    (s.after (Set_dacOpmode (Exact dec enc) c.u32 data)).FofbConsistent dec enc c := by
  unfold Set_dacOpmode
  split
  · exact consistent_of_mode (by decide) s
  · split
    · intro _ _
      have hreg : ∀ w, ((Xil_Out32 (chanReg c.u32 ChanReg.dac_opmode.offset) FOFB
          : Sw Nor Unit).final
          ((Xil_Out32 (chanReg c.u32 ChanReg.fofb_scalefactor.offset) w : Sw Nor Unit).final
            s.toPsc)).regs.regFile.chan c .fofb_scalefactor = w := by
        intro w
        rw [chan_out32, if_neg (by simp), chan_out32, if_pos ⟨rfl, rfl⟩]
        exact BitVec.setWidth_eq w
      exact (hreg _).trans (value_fofbScalefactor dec enc (s.dac_dccts c) s.toPsc)
    · split
      · rename_i hmode
        rcases hmode with rfl | rfl <;> exact consistent_of_mode (by decide) s
      · exact h

theorem consistent_sf_dac_dccts (stack : Stack) (data : BitVec 32) (s : Firmware Nor) :
    (s.after (chanCommand (Exact dec enc) stack c.u32 data .SF_DAC_DCCTS_MSG)).FofbConsistent
      dec enc c := by
  intro _ _
  let s₁ : Psc Nor := (setScalefactor c.u32 .dac_dccts data : Sw Nor Unit).final s.toPsc
  have hreg : ∀ w, ((Xil_Out32 (chanReg c.u32 ChanReg.fofb_scalefactor.offset) w
      : Sw Nor Unit).final s₁).regs.regFile.chan c .fofb_scalefactor = w := by
    intro w
    rw [chan_out32, if_pos ⟨rfl, rfl⟩]
    exact BitVec.setWidth_eq w
  have hset : s₁.scalefactors (c.u32 - 1) .dac_dccts = data := if_pos ⟨rfl, rfl⟩
  refine (hreg _).trans ((value_fofbScalefactor dec enc data s₁).trans ?_)
  exact congrArg (fun w => enc (dec s.CONVVOLTSTODACBITS / dec w)) hset.symm

/-- A message that touches none of the four values of the channel. -/
theorem consistent_frame (stack : Stack) {m : ChanMsg} (data : BitVec 32) {s : Firmware Nor}
    (h : s.FofbConsistent dec enc c')
    (hn : ¬ (c' = c ∧
      (.dac_opmode ∈ m.writes ∨ .fofb_scalefactor ∈ m.writes ∨ .dac_dccts ∈ m.sets))) :
    (s.after (chanCommand (Exact dec enc) stack c.u32 data m)).FofbConsistent dec enc c' := by
  refine h.congr ?_ ?_ (fun _ => ?_) (fun _ => ?_)
  · exact reg_chanCommand stack data s.toPsc (fun hx => hn ⟨hx.1, .inl hx.2⟩) (by simp)
  · exact reg_chanCommand stack data s.toPsc (fun hx => hn ⟨hx.1, .inr (.inl hx.2)⟩) (by simp)
  · exact congrArg dec (conv_final _ s.toPsc)
  · exact congrArg dec (sf_chanCommand stack data s.toPsc fun hx => hn ⟨hx.1, .inr (.inr hx.2)⟩)

theorem consistent_readQspi (k : Locals) {s : Firmware Nor} (h : s.FofbConsistent dec enc c')
    (hread : s.InFofb c → dec (savedDccts s.flash c) = dec (s.dac_dccts c)) :
    (s.after (readQspi k.toStack c.u32)).FofbConsistent dec enc c' := by
  have hreg : ∀ r ∉ qspiRegs, (s.after (readQspi k.toStack c.u32)).regs (chanAddr c' r) =
      s.regs (chanAddr c' r) := by
    intro r hr
    rw [after_toPsc, reg_readQspi_of_not_mem k.toStack c c' s.toPsc hr]
  refine h.congr (hreg _ (by decide)) (hreg _ (by decide)) (fun _ => ?_) (fun hin => ?_)
  · rw [after_toPsc, conv_final]
  · rw [dac_dccts, after_toPsc]
    by_cases hc : c' = c
    · subst hc
      rw [dac_dccts_readQspi, hread hin]
    · rw [scalefactors_readQspi_ne k.toStack c s.toPsc fun e => hc (u32_sub_one_inj e)]
      rfl

theorem consistent_writeQspi (k : Locals) {s : Firmware Nor} (h : s.FofbConsistent dec enc c') :
    (s.after (writeQspi k.toStack c.u32)).FofbConsistent dec enc c' := by
  obtain ⟨hregs, -, hsf, -⟩ := unchanged_writeQspi k c s.toPsc
  rw [FofbConsistent, InFofb, dac_dccts, after_toPsc, hregs, hsf, conv_final]
  exact h

/-- What one channel message does. -/
theorem consistent_chanCommand (k : Locals) (m : ChanMsg) (data : BitVec 32) {s : Firmware Nor}
    (h : s.FofbConsistent dec enc c')
    (hread : m = .READ_QSPI_MSG → data = 1 → s.InFofb c →
      dec (savedDccts s.flash c) = dec (s.dac_dccts c)) :
    (s.after (chanCommand (Exact dec enc) k.toStack c.u32 data m)).FofbConsistent dec enc c' := by
  by_cases hc : c' = c
  · subst hc
    by_cases h1 : m = .DAC_OPMODE_MSG
    · subst h1
      exact consistent_opmode data h
    by_cases h2 : m = .SF_DAC_DCCTS_MSG
    · subst h2
      exact consistent_sf_dac_dccts k.toStack data s
    by_cases h3 : m = .WRITE_QSPI_MSG
    · subst h3
      by_cases hd : data = 1
      · subst hd
        exact consistent_writeQspi k h
      · simp only [chanCommand, if_neg hd]
        exact h
    by_cases h4 : m = .READ_QSPI_MSG
    · subst h4
      by_cases hd : data = 1
      · subst hd
        exact consistent_readQspi k h (hread rfl rfl)
      · simp only [chanCommand, if_neg hd]
        exact h
    obtain ⟨hop, hreg, hsf⟩ := not_touched h1 h2 h3 h4
    refine consistent_frame k.toStack data h ?_
    intro hx
    rcases hx.2 with hx | hx | hx
    exacts [hop hx, hreg hx, hsf hx]
  · exact consistent_frame k.toStack data h fun hx => hc hx.1

/-! ## The steps -/

theorem consistent_command {cmd : Command} {k : Locals} (hk : k.toStack = cmd.stack)
    {s : Firmware Nor} (h : s.FofbConsistent dec enc c')
    (hsafe : cmd.Numbered ∧ ∀ c : Chan, cmd.chanMsg = some (c.u32, .READ_QSPI_MSG, 1) →
      s.InFofb c → dec (savedDccts s.flash c) = dec (s.dac_dccts c)) :
    (s.after (cmd.run (Exact dec enc))).FofbConsistent dec enc c' := by
  -- General writes touch neither the four values nor the flash.
  have hgen : ∀ es : List Eff, (∀ e ∈ es, e.General) →
      ({ s with toPsc := applyAll es s.toPsc } : Firmware Nor).FofbConsistent dec enc c' := by
    intro es hes
    refine h.congr (reg_general hes (by decide) _) (reg_general hes (by decide) _)
      (fun _ => congrArg dec ?_) (fun _ => congrArg dec (sf_general hes _ _ _))
    refine applyAll_keeps (fun s : Psc Nor => s.CONVVOLTSTODACBITS) es s.toPsc ?_
    intro e _ _
    cases e <;> rfl
  obtain ⟨hnum, hread⟩ := hsafe
  have hfinal := Command.final_cases (F := Exact dec enc) hnum s.toPsc
  rcases hfinal with ⟨c, m, data, pre, hmsg, hpre, hf⟩ | ⟨es, -, hes, hf⟩
  · rw [after, hf, ← hk]
    refine consistent_chanCommand (s := { s with toPsc := applyAll pre s.toPsc }) k m data
      (hgen pre hpre) ?_
    rintro rfl rfl hin
    have hmode : s.InFofb c := (Bus.chan_congr (reg_general hpre (by decide) _)).symm.trans hin
    have hd := hread c hmsg hmode
    rw [dac_dccts, sf_general hpre, flash_general hpre]
    exact hd
  · rw [after, hf]
    exact hgen es hes

theorem consistent_flavor {rdBuf : Fin 8 → Byte} {s : Firmware Nor}
    (h : s.FofbConsistent dec enc c) (hsafe : s.Safe dec (.flavor rdBuf)) :
    (s.ReadHardwareFlavor rdBuf).FofbConsistent dec enc c := by
  refine h.congr (regs_flavor rdBuf s c _) (regs_flavor rdBuf s c _) (fun hin => ?_) (fun _ => ?_)
  · rw [(conv_flavor rdBuf s).1]
    split
    · rename_i hvalid
      refine hsafe _ ?_ c hin
      rw [resolutionByte]
      rcases hvalid with h0 | h1
      · rw [h0]
        rfl
      · rw [h1]
        rfl
    · rfl
  · rw [dac_dccts, scalefactors_flavor]
    rfl

/-- What is in flash for the channels in FOFB mode is what they have. -/
def FlashAgrees (dec : BitVec 32 → ℚ) (s : Firmware Nor) : Prop :=
  ∀ c, s.InFofb c → dec (savedDccts s.flash c) = dec (s.dac_dccts c)

theorem FlashAgrees.readQspi {s : Firmware Nor} (h : s.FlashAgrees dec) (k : Locals) (c : Chan) :
    (s.after (readQspi k.toStack c.u32)).FlashAgrees dec := by
  intro c' hin
  have hmode : s.InFofb c' := by
    rw [InFofb, after_toPsc] at hin
    exact (Bus.chan_congr (reg_readQspi_of_not_mem k.toStack c c' s.toPsc
      (by decide))).symm.trans hin
  rw [dac_dccts, after_toPsc, flash_readQspi]
  by_cases hc : c' = c
  · rw [hc, dac_dccts_readQspi]
  · rw [scalefactors_readQspi_ne k.toStack c s.toPsc fun e => hc (u32_sub_one_inj e)]
    exact h c' hmode

theorem consistent_readAll (locals : Chan → Locals) (cs : List Chan) {s : Firmware Nor}
    (h : ∀ c, s.FofbConsistent dec enc c) (hflash : s.FlashAgrees dec) (c : Chan) :
    (s.after (cs.forM fun c => readQspi (locals c).toStack c.u32)).FofbConsistent dec enc c := by
  induction cs generalizing s with
  | nil => exact h c
  | cons c₀ cs ih =>
    have hcons : s.after ((c₀ :: cs).forM fun c => readQspi (locals c).toStack c.u32) =
        (s.after (readQspi (locals c₀).toStack c₀.u32)).after
          (cs.forM fun c => readQspi (locals c).toStack c.u32) := by
      simp only [after, List.forM_eq_forM, List.forM_cons, final_bind]
    rw [hcons]
    exact ih (fun c => consistent_readQspi (locals c₀) (h c) (hflash c₀))
      (hflash.readQspi (locals c₀) c₀)

theorem consistent_startUp (locals : Chan → Locals) {s : Firmware Nor}
    (h : ∀ c, s.FofbConsistent dec enc c) (hflash : s.FlashAgrees dec) (c : Chan) :
    (s.after (InitSettingsfromQspi fun c => (locals c).toStack)).FofbConsistent dec enc c := by
  let evr : List Eff :=
    [.out32 GlobReg.evr_inj_eventno.offset 10, .out32 GlobReg.evr_pm_eventno.offset 10]
  have hevr : ∀ e ∈ evr, e.General := by
    intro e he
    simp only [evr, List.mem_cons, List.not_mem_nil, or_false] at he
    rcases he with rfl | rfl <;> exact .inl ⟨_, rfl, rfl⟩
  let s₁ : Firmware Nor := { s with toPsc := applyAll evr s.toPsc }
  have hs₁ : s.after (InitSettingsfromQspi fun c => (locals c).toStack) =
      s₁.after ([Chan.ps1, .ps2, .ps3, .ps4].forM fun c => readQspi (locals c).toStack c.u32) := by
    simp only [after, InitSettingsfromQspi, final_bind]
    rfl
  have hreg : ∀ c, ∀ r ∉ rampRegs, s₁.regs (chanAddr c r) = s.regs (chanAddr c r) :=
    fun c r hr => reg_general hevr hr s.toPsc
  rw [hs₁]
  refine consistent_readAll locals _ (fun c => ?_) (fun c hin => ?_) c
  · exact (h c).congr (hreg c _ (by decide)) (hreg c _ (by decide)) (fun _ => rfl) (fun _ => rfl)
  · exact hflash c ((Bus.chan_congr (hreg c _ (by decide))).symm.trans hin)

/-- One safe step. -/
theorem consistent_step {s : Firmware Nor} (h : ∀ c, s.FofbConsistent dec enc c) {e : Ev}
    (he : s.Safe dec e) (c : Chan) : (s.step dec enc e).FofbConsistent dec enc c := by
  cases e with
  | command cmd sized =>
    obtain ⟨k, hk⟩ := sized
    exact consistent_command hk (h c) he
  | flavor rdBuf => exact consistent_flavor (h c) he
  | startUp locals => exact consistent_startUp locals h he c

/-- In every state of every run from power-up, whatever is in flash. -/
theorem fofb_consistent (dec : BitVec 32 → ℚ) (enc : ℚ → BitVec 32) (flash : Nor)
    (s : Firmware Nor) (h : SafeRun dec enc flash s) (c : Chan) : s.FofbConsistent dec enc c := by
  induction h generalizing c with
  | powerUp =>
    intro hin
    exact absurd hin (show (0 : BitVec 32).setWidth 2 ≠ FOFB.setWidth 2 by decide)
  | step _ e he ih => exact consistent_step ih he c

/-! ## A run -/

/-- The words of the two constants and of 1 stand for their decimal values. -/
def decimalOf (w : BitVec 32) : ℚ :=
  if w = convVoltsToBits true then 262144 / 5
  else if w = convVoltsToBits false then 65536 / 5
  else if w = 0x3F800000 then 1 else 0

def wordOf (q : ℚ) : BitVec 32 :=
  if q = 262144 / 5 then convVoltsToBits true
  else if q = 65536 / 5 then convVoltsToBits false
  else if q = 1 then 0x3F800000 else 0

/-- A console command to channel 1. -/
def toPs1 (addr data : BitVec 32) : Ev :=
  .command (.console zeroLocals.toStack Chan.ps1.u32 addr data) ⟨zeroLocals, rfl⟩

/-- 20 bits, a scale factor of 1, FOFB mode. -/
def fofbRun : Firmware Nor :=
  (((powerUp ⟨fun _ => 0xFF, false⟩).step decimalOf wordOf (.flavor fun _ => 1)).step decimalOf
    wordOf (toPs1 304 0x3F800000)).step decimalOf wordOf (toPs1 100 2)

theorem safe_toPs1 (s : Firmware Nor) {addr data : BitVec 32}
    (h : ChanMsg.ofAddr addr.toNat ≠ .READ_QSPI_MSG) : s.Safe decimalOf (toPs1 addr data) := by
  refine ⟨numbered_console _ .ps1 addr data, fun c hmsg => ?_⟩
  exact absurd (congrArg (fun x : BitVec 32 × ChanMsg × BitVec 32 => x.2.1) (Option.some.inj hmsg)) h

/-- The run is safe and ends in FOFB mode. -/
theorem fofb_consistent_run :
    fofbRun.InFofb .ps1 ∧ fofbRun.FofbConsistent decimalOf wordOf .ps1 := by
  refine ⟨rfl, fofb_consistent decimalOf wordOf ⟨fun _ => 0xFF, false⟩ fofbRun ?_ .ps1⟩
  refine .step (.step (.step .powerUp _ ?_) _ (safe_toPs1 _ (by decide))) _
    (safe_toPs1 _ (by decide))
  intro _ _ c hin
  exact absurd hin (show (0 : BitVec 32).setWidth 2 ≠ FOFB.setWidth 2 by decide)

/-- A change to 18 bits leaves the register as it was. -/
theorem fofb_stale :
    let s := fofbRun.step decimalOf wordOf (.flavor fun _ => 0)
    s.regs.regFile.chan .ps1 .fofb_scalefactor = convVoltsToBits true ∧
      ¬ s.FofbConsistent decimalOf wordOf .ps1 := by
  intro s
  have hword : s.regs (chanAddr .ps1 .fofb_scalefactor) = convVoltsToBits true := by
    decide +kernel
  have hreg : s.regs.regFile.chan .ps1 .fofb_scalefactor = convVoltsToBits true :=
    congrArg (BitVec.setWidth 32) hword
  have hd : s.dac_dccts .ps1 = 0x3F800000 := rfl
  have hconv : s.CONVVOLTSTODACBITS = convVoltsToBits false := rfl
  have hne : decimalOf 0x3F800000 ≠ 0 := by decide +kernel
  have hquot : wordOf (decimalOf (convVoltsToBits false) / decimalOf 0x3F800000) =
      convVoltsToBits false := by decide +kernel
  refine ⟨hreg, ?_⟩
  intro h
  have heq := h rfl (by rw [hd]; exact hne)
  rw [hreg, hd, hconv, hquot] at heq
  exact absurd heq (show (0x474CCCCD : BitVec 32) ≠ 0x464CCCCD by decide)

end Firmware

end Zpsc.Commands
