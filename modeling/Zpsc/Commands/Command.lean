import Zpsc.Commands.ClientMsg
import Zpsc.Commands.Console

/-!
# Commands

What the software is told to do: a message of the network, or a line of the console. Most of them
carry a channel message (`Command.chanMsg`); the others write global registers or the ramp table
(`Eff.General`). A message reaches the channels 1 to 4 only, a line any number that it names.
-/

namespace Zpsc

/-- The channel with a number. -/
def Chan.ofNum : ℕ → Option Chan
  | 1 => some .ps1
  | 2 => some .ps2
  | 3 => some .ps3
  | 4 => some .ps4
  | _ => none

/-- The registers that only `ReadHardwareFlavor` writes. -/
def GlobReg.flavor : GlobReg → Bool
  | .resolution | .polarity | .ch34_dualmode | .main_dipole | .smoothramp_type => true
  | _ => false

namespace Commands

open Bits Effects PscMsg

/-- A command with what the handler finds on its stack. -/
inductive Command where
  /-- A message, as `client_msg` gets it. -/
  | message (stack : Stack) (msgid : BitVec 16) (msglen : BitVec 32) (msg : Buf)
  /-- A line of the console, as `receive_console_cmd` hands it on: the channel is not checked. -/
  | console (stack : Stack) (chan addr data : BitVec 32)

namespace Command

variable {φ : Type} (F : Type) [Fpu F] [FlashChip φ]

def run : Command → Sw φ Unit
  | message stack msgid msglen msg => client_msg F stack msgid msglen msg
  | console stack chan addr data => chan_settings F stack chan (msgBuf addr data) 8

def stack : Command → Stack
  | message stack _ _ _ => stack
  | console stack _ _ _ => stack

/-- The channel message of a command: the number of the channel, the message and its data. -/
def chanMsg : Command → Option (BitVec 32 × ChanMsg × BitVec 32)
  | message _ msgid _ msg =>
    (Chan.ofNum msgid.toNat).map fun c =>
      (c.u32, ChanMsg.ofAddr (msgWord msg 0).toNat, msgWord msg 1)
  | console _ chan addr data => some (chan, ChanMsg.ofAddr addr.toNat, data)

/-- A command for one of the channels, if it is for a channel. All messages are; a line of the
console may name another number. -/
def Numbered (cmd : Command) : Prop := ∀ x, cmd.chanMsg = some x → ∃ c : Chan, x.1 = c.u32

/-- The state after a sequence of commands. -/
def runAll (cmds : List Command) (s : Psc φ) : Psc φ :=
  cmds.foldl (fun s cmd => (cmd.run F).final s) s

end Command

/-- The registers of the ramp table. -/
def rampRegs : List ChanReg := [.dac_ramplen, .dac_rampaddr, .dac_rampdata]

/-- Writes to the other global registers and to the ramp table of channel 1. -/
def Eff.General : Eff → Prop
  | .out32 a _ =>
    (∃ g : GlobReg, g.flavor = false ∧ a = g.offset) ∨ ∃ r ∈ rampRegs, a = chanReg 1 r.offset
  | _ => False

end Commands

end Zpsc
