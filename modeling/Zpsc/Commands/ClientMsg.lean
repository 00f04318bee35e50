import Zpsc.Commands.ChanSettings

/-!
# Dispatch of a received message (`client_msg` in `main.c`, `glob_settings` in `control.c`)

The server receives every message into the same buffer and hands it to `client_msg`. What an
earlier, longer message has left behind the end of a shorter one stays there.
-/

namespace Zpsc.Commands

open Bits Effects PscMsg

variable {φ : Type} (F : Type) [Fpu F] [FlashChip φ]

/-- `TEST_TRIG_MSG`. -/
def test_trig (msgVal : BitVec 32) : Sw φ Unit := do
  Xil_Out32 GlobReg.testtrig.offset msgVal
  Xil_Out32 GlobReg.testtrig.offset 0

def set_fpleds (msgVal : BitVec 32) : Sw φ Unit := Xil_Out32 GlobReg.leds.offset msgVal

/-- The cases of `glob_settings`. -/
def globCommand (data : BitVec 32) : ℕ → Sw φ Unit
  | 0 => soft_trig data
  | 4 => test_trig data
  | 8 => set_fpleds data
  | 16 => Xil_Out32 GlobReg.evr_reset.offset (if data = 1 then 0xFF else 0)
  | 20 => Xil_Out32 GlobReg.evr_inj_eventno.offset data
  | 24 => Xil_Out32 GlobReg.evr_pm_eventno.offset data
  | 28 => Xil_Out32 GlobReg.evr_1hz_eventno.offset data
  | 32 => Xil_Out32 GlobReg.evr_10hz_eventno.offset data
  | 36 => Xil_Out32 GlobReg.evr_10khz_eventno.offset data
  | 50 => Xil_Out32 GlobReg.fofb_ipaddr.offset data
  | _ => pure ()

def glob_settings (msg : Buf) : Sw φ Unit :=
  let addr := msgWord msg 0
  let data := msgWord msg 1
  globCommand data addr.toNat

def client_msg (stack : Stack) (msgid : BitVec 16) (msglen : BitVec 32) (msg : Buf) :
    Sw φ Unit := do
  Xil_Out32 GlobReg.ioc_access.offset 1
  Xil_Out32 GlobReg.ioc_access.offset 0
  match msgid.toNat with
  | 0 => glob_settings msg
  | 1 | 2 | 3 | 4 => chan_settings F stack (msgid.setWidth 32) msg msglen
  | 101 => write_ramptable F 1 msg msglen
  | _ => pure ()

/-! ## The server's buffer -/

/-- What the server keeps from message to message: the buffer, and what the handlers act on. -/
structure Server (φ : Type) where
  /-- The payload of the last message, over those before. -/
  rxbuf : Buf
  psc : Psc φ

namespace Server

/-- The buffer after a message: `psc_recvmsg` stores the payload at its start. -/
def received (v : Server φ) (m : Msg) : Buf := v.rxbuf.store 0 m.payload

/-- What `client_msg` does with a message. -/
def effects (stack : Stack) (v : Server φ) (m : Msg) : List Eff :=
  (client_msg F stack m.msgid m.len (v.received m)).effects v.psc

/-- What happens between two looks at the server: a message, or a change of the state by others (the
FPGA, the console, the other tasks). -/
inductive Ev (φ : Type) where
  | msg (m : Msg)
  | other (psc : Psc φ)

def step (stack : Stack) (v : Server φ) : Ev φ → Server φ
  | .msg m => ⟨v.received m, applyAll (effects F stack v m) v.psc⟩
  | .other psc => ⟨v.rxbuf, psc⟩

def run (stack : Stack) (v : Server φ) (es : List (Ev φ)) : Server φ := es.foldl (step F stack) v

/-- The server accepts the message; a longer one ends the connection. -/
def Ev.Accepted : Ev φ → Prop
  | .msg m => m.payload.length ≤ PSC_MAX_RX_MSG_LEN
  | .other _ => True

end Server

/-- After any two histories that leave the registers, the scale factors and the flash in the same
state, every message with this id and length has the same effects. -/
def OwnBytesOnly (stack : Stack) (v : Server φ) (id : BitVec 16) (len : ℕ) : Prop :=
  ∀ es₁ es₂ : List (Server.Ev φ), (∀ e ∈ es₁, e.Accepted) → (∀ e ∈ es₂, e.Accepted) →
    (Server.run F stack v es₁).psc = (Server.run F stack v es₂).psc →
    ∀ m : Msg, m.msgid = id → m.payload.length = len →
      Server.effects F stack (Server.run F stack v es₁) m =
        Server.effects F stack (Server.run F stack v es₂) m

end Zpsc.Commands
