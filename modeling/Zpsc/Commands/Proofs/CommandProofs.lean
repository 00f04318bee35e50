import Zpsc.Commands.Command
import Zpsc.Commands.Proofs.ConsoleProofs

/-!
# What a command does

A command handles its channel message after writes to global registers; without one it only makes
general writes (`Command.run_cases`).
-/

namespace Zpsc

theorem Chan.ofNum_eq_some {n : ℕ} {c : Chan} (h : Chan.ofNum n = some c) : n = c.num := by
  unfold Chan.ofNum at h
  split at h
  · rw [← Option.some.inj h, Chan.num]
  · rw [← Option.some.inj h, Chan.num]
  · rw [← Option.some.inj h, Chan.num]
  · rw [← Option.some.inj h, Chan.num]
  · exact absurd h (by simp)

theorem Chan.ofNum_eq_none {n : ℕ} (h : Chan.ofNum n = none) : n = 0 ∨ 5 ≤ n := by
  by_contra hn
  obtain ⟨c, rfl⟩ := Chan.exists_num (show 1 ≤ n by omega) (show n ≤ 4 by omega)
  cases c <;> exact absurd h (by simp [Chan.ofNum, Chan.num])

namespace Commands

open Bits Effects Cmd PscMsg

variable {φ F : Type}

/-! ## General writes -/

theorem general_out {g : GlobReg} (hg : g.flavor = false) (v : BitVec 32) :
    Emits Eff.General (Xil_Out32 g.offset v : Sw φ Unit) :=
  emits_emit (.inl ⟨g, hg, rfl⟩)

variable [FlashChip φ] [Fpu F]

theorem general_globCommand (data : BitVec 32) (n : ℕ) :
    Emits Eff.General (globCommand data n : Sw φ Unit) := by
  unfold globCommand
  split
  · exact (general_out rfl _).bind fun _ => general_out rfl _
  · exact (general_out rfl _).bind fun _ => general_out rfl _
  all_goals first | exact general_out rfl _ | exact emits_pure _

theorem general_write_ramptable (msg : Buf) (msglen : BitVec 32) :
    Emits Eff.General (write_ramptable F 1 msg msglen : Sw φ Unit) := by
  have hout : ∀ r ∈ rampRegs, ∀ v, Emits Eff.General
      (Xil_Out32 (chanReg 1 r.offset) v : Sw φ Unit) :=
    fun r hr v => emits_emit (.inr ⟨r, hr, rfl⟩)
  refine (emits_pure _).ite ?_
  refine (hout _ (by decide) _).bind fun _ => (emits_get _).bind fun _ => ?_
  refine emits_forM _ fun i _ => (emits_get _).bind fun _ => (emits_get _).bind fun _ => ?_
  exact (hout _ (by decide) _).bind fun _ => hout _ (by decide) _

/-! ## The cases -/

/-- `client_msg` raises and clears the flag of IOC access. -/
def access : List Eff := [.out32 GlobReg.ioc_access.offset 1, .out32 GlobReg.ioc_access.offset 0]

theorem general_access : ∀ e ∈ access, e.General := by
  intro e he
  simp only [access, List.mem_cons, List.not_mem_nil, or_false] at he
  rcases he with rfl | rfl <;> exact .inl ⟨_, rfl, rfl⟩

theorem effects_client_msg (stack : Stack) (msgid : BitVec 16) (msglen : BitVec 32) (msg : Buf)
    (s : Psc φ) :
    (client_msg F stack msgid msglen msg : Sw φ Unit).effects s =
      access ++ (match msgid.toNat with
        | 0 => glob_settings msg
        | 1 | 2 | 3 | 4 => chan_settings F stack (msgid.setWidth 32) msg msglen
        | 101 => write_ramptable F 1 msg msglen
        | _ => pure () : Sw φ Unit).effects (applyAll access s) := rfl

/-- What a command does: its channel message after general writes, or general writes only. -/
theorem Command.run_cases (cmd : Command) (s : Psc φ) :
    (∃ chan m data pre, cmd.chanMsg = some (chan, m, data) ∧ (∀ e ∈ pre, Eff.General e) ∧
        (cmd.run F : Sw φ Unit).effects s =
          pre ++ (chanCommand F cmd.stack chan data m : Sw φ Unit).effects (applyAll pre s)) ∨
      (cmd.chanMsg = none ∧ ∀ e ∈ (cmd.run F : Sw φ Unit).effects s, e.General) := by
  cases cmd with
  | console stack chan addr data =>
    refine .inl ⟨chan, _, data, [], rfl, fun e he => absurd he List.not_mem_nil, ?_⟩
    exact congrFun (congrArg _ (chan_settings_msgBuf stack chan addr data)) s
  | message stack msgid msglen msg =>
    simp only [Command.run, effects_client_msg]
    cases hc : Chan.ofNum msgid.toNat with
    | some c =>
      refine .inl ⟨c.u32, ChanMsg.ofAddr (msgWord msg 0).toNat, msgWord msg 1, access, ?_,
        general_access, ?_⟩
      · simp only [Command.chanMsg, hc, Option.map_some]
      · have hn := Chan.ofNum_eq_some hc
        have hu : msgid.setWidth 32 = c.u32 := by
          rw [Chan.u32, ← hn]
          exact BitVec.eq_of_toNat_eq (by simp)
        rw [hu, hn]
        cases c <;> rfl
    | none =>
      refine .inr ⟨by simp only [Command.chanMsg, hc, Option.map_none], ?_⟩
      intro e he
      rcases List.mem_append.mp he with he | he
      · exact general_access e he
      · have hn := Chan.ofNum_eq_none hc
        split at he
        · exact general_globCommand _ _ _ e he
        · omega
        · omega
        · omega
        · omega
        · exact general_write_ramptable msg msglen _ e he
        · exact absurd he List.not_mem_nil

/-- The same for the states. -/
theorem Command.final_run_cases (cmd : Command) (s : Psc φ) :
    (∃ chan m data pre, cmd.chanMsg = some (chan, m, data) ∧ (∀ e ∈ pre, Eff.General e) ∧
        (cmd.run F : Sw φ Unit).final s =
          (chanCommand F cmd.stack chan data m : Sw φ Unit).final (applyAll pre s)) ∨
      ∃ es, cmd.chanMsg = none ∧ (∀ e ∈ es, Eff.General e) ∧
        (cmd.run F : Sw φ Unit).final s = applyAll es s := by
  rcases cmd.run_cases (F := F) s with ⟨chan, m, data, pre, hmsg, hpre, hes⟩ | ⟨hmsg, hgen⟩
  · refine .inl ⟨chan, m, data, pre, hmsg, hpre, ?_⟩
    rw [final, final, hes, applyAll, List.foldl_append]
    rfl
  · exact .inr ⟨_, hmsg, hgen, rfl⟩

/-- A command for one of the channels. -/
theorem Command.final_cases {cmd : Command} (hnum : cmd.Numbered) (s : Psc φ) :
    (∃ (c : Chan) (m : ChanMsg) (data : BitVec 32) (pre : List Eff),
        cmd.chanMsg = some (c.u32, m, data) ∧ (∀ e ∈ pre, Eff.General e) ∧
        (cmd.run F : Sw φ Unit).final s =
          (chanCommand F cmd.stack c.u32 data m : Sw φ Unit).final (applyAll pre s)) ∨
      ∃ es, cmd.chanMsg = none ∧ (∀ e ∈ es, Eff.General e) ∧
        (cmd.run F : Sw φ Unit).final s = applyAll es s := by
  rcases cmd.final_run_cases (F := F) s with ⟨chan, m, data, pre, hmsg, hpre, hf⟩ | hgen
  · obtain ⟨c, rfl⟩ := hnum _ hmsg
    exact .inl ⟨c, m, data, pre, hmsg, hpre, hf⟩
  · exact .inr hgen

theorem numbered_message (stack : Stack) (msgid : BitVec 16) (msglen : BitVec 32) (msg : Buf) :
    (Command.message stack msgid msglen msg).Numbered := by
  intro x hx
  obtain ⟨c, -, rfl⟩ := Option.map_eq_some_iff.mp hx
  exact ⟨c, rfl⟩

theorem numbered_console (stack : Stack) (c : Chan) (addr data : BitVec 32) :
    (Command.console stack c.u32 addr data).Numbered := by
  intro x hx
  obtain rfl := Option.some.inj hx
  exact ⟨c, rfl⟩

end Commands

end Zpsc
