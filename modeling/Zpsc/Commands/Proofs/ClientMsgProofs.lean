import Zpsc.Commands.ClientMsg
import Zpsc.Commands.Nor
import Zpsc.Net.Proofs.PscMsgProofs

/-!
# Which messages depend on their own bytes only

`glob_settings` and `chan_settings` read the first two words of the buffer, `write_ramptable` the
words that the length covers. A message of these words therefore decides everything; a shorter one
for the first two handlers leaves the last byte of the data to the message before it.
-/

namespace Zpsc.Commands

open Bits Effects PscMsg

/-! ## The buffer -/

/-- Where the payload reaches, the buffer holds the payload. -/
theorem store_of_lt (buf buf' : Buf) (bs : List Byte) {i : ℕ} (h : i < bs.length) :
    (buf.store 0 bs) i = (buf'.store 0 bs) i := by
  simp [Buf.store, h]

theorem msgWord_store (buf buf' : Buf) (bs : List Byte) {i : ℕ} (h : 4 * i + 4 ≤ bs.length) :
    msgWord (buf.store 0 bs) i = msgWord (buf'.store 0 bs) i := by
  unfold msgWord
  rw [store_of_lt buf buf' bs (show 4 * i < bs.length by omega),
    store_of_lt buf buf' bs (show 4 * i + 1 < bs.length by omega),
    store_of_lt buf buf' bs (show 4 * i + 2 < bs.length by omega),
    store_of_lt buf buf' bs (show 4 * i + 3 < bs.length by omega)]

/-! ## A settings message for each handler -/

/-- The command of a message with one register write. -/
def settingsAddr (id : BitVec 16) : Byte := if id = 0 then 8 else 112

/-- The register that it writes. -/
def settingsReg (id : BitVec 16) : ℕ :=
  if id = 0 then GlobReg.leds.offset
  else chanReg (id.setWidth 32) ChanReg.dac_ramplen.offset

def settings (id : BitVec 16) (x : Byte) : List Byte := [0, 0, 0, settingsAddr id, 0, 0, 0, x]

theorem settings_length (id : BitVec 16) (x : Byte) : (settings id x).length = 8 := rfl

/-- The same bytes under an id that no handler has. -/
def ignored (id : BitVec 16) (x : Byte) : Msg where
  msgid := 5
  payload := settings id x
  fits := by
    rw [settings_length]
    norm_num

variable {φ : Type}

theorem accepted_ignored (id : BitVec 16) (x : Byte) :
    ∀ e ∈ [(.msg (ignored id x) : Server.Ev φ)], e.Accepted := by
  intro e he
  rw [List.mem_singleton.mp he]
  exact show 8 ≤ PSC_MAX_RX_MSG_LEN by decide

/-! ## What the handlers read -/

variable [FlashChip φ] (F : Type) [Fpu F]

theorem glob_settings_congr {msg msg' : Buf} (h0 : msgWord msg 0 = msgWord msg' 0)
    (h1 : msgWord msg 1 = msgWord msg' 1) :
    (glob_settings msg : Sw φ Unit) = glob_settings msg' := by
  unfold glob_settings
  rw [h0, h1]

theorem chan_settings_congr (stack : Stack) (chan msglen : BitVec 32) {msg msg' : Buf}
    (h0 : msgWord msg 0 = msgWord msg' 0) (h1 : msgWord msg 1 = msgWord msg' 1) :
    (chan_settings F stack chan msg msglen : Sw φ Unit) =
      chan_settings F stack chan msg' msglen := by
  unfold chan_settings
  rw [h0, h1]

theorem write_ramptable_congr (chan msglen : BitVec 32) {msg msg' : Buf}
    (h : ∀ i < msglen.toNat / 4, msgWord msg i = msgWord msg' i) :
    (write_ramptable F chan msg msglen : Sw φ Unit) = write_ramptable F chan msg' msglen := by
  have hloop : ∀ res : BitVec 32,
      (List.range (msglen / 4).toNat).forM
          (fun i => (rampPoint F chan res i (msgWord msg i) : Sw φ Unit)) =
        (List.range (msglen / 4).toNat).forM
          (fun i => rampPoint F chan res i (msgWord msg' i)) := by
    intro res
    refine Cmd.forM_congr ?_
    intro i hi
    have hi' : i < msglen.toNat / 4 := by simpa using hi
    rw [h i hi']
  unfold write_ramptable
  simp only [hloop]

/-- A message of two words, or of a ramp table, is all that its handler reads. -/
theorem client_msg_congr (stack : Stack) (m : Msg) (buf buf' : Buf)
    (h : ¬ m.msgid.toNat ≤ 4 ∨ 8 ≤ m.payload.length) :
    (client_msg F stack m.msgid m.len (buf.store 0 m.payload) : Sw φ Unit) =
      client_msg F stack m.msgid m.len (buf'.store 0 m.payload) := by
  have hramp : (write_ramptable F 1 (buf.store 0 m.payload) m.len : Sw φ Unit) =
      write_ramptable F 1 (buf'.store 0 m.payload) m.len := by
    refine write_ramptable_congr F 1 m.len ?_
    intro i hi
    rw [Msg.len_toNat] at hi
    exact msgWord_store buf buf' _ (by omega)
  unfold client_msg
  by_cases hid : m.msgid.toNat ≤ 4
  · have hlen : 8 ≤ m.payload.length := h.resolve_left (not_not_intro hid)
    have h0 := msgWord_store buf buf' m.payload (show 4 * 0 + 4 ≤ m.payload.length by omega)
    have h1 := msgWord_store buf buf' m.payload (show 4 * 1 + 4 ≤ m.payload.length by omega)
    rw [glob_settings_congr h0 h1, chan_settings_congr F stack _ _ h0 h1, hramp]
  · split <;> first | omega | rw [hramp] | rfl

/-! ## Short messages -/

theorem effects_ignored (stack : Stack) (v : Server φ) (id : BitVec 16) (x : Byte) :
    Server.effects F stack v (ignored id x) =
      [.out32 GlobReg.ioc_access.offset 1, .out32 GlobReg.ioc_access.offset 0] := rfl

theorem msgWord_settings (buf : Buf) (id : BitVec 16) (x : Byte) :
    msgWord (buf.store 0 (settings id x)) 0 = be32 0 0 0 (settingsAddr id) ∧
      msgWord (buf.store 0 (settings id x)) 1 = be32 0 0 0 x := ⟨rfl, rfl⟩

theorem glob_settings_leds {msg : Buf} (h : msgWord msg 0 = be32 0 0 0 8) :
    (glob_settings msg : Sw φ Unit) = Xil_Out32 GlobReg.leds.offset (msgWord msg 1) := by
  have haddr : (be32 0 0 0 8).toNat = 8 := by decide
  simp only [glob_settings, h, haddr]
  rfl

theorem chan_settings_ramplen (stack : Stack) (chan len : BitVec 32) {msg : Buf}
    (h : msgWord msg 0 = be32 0 0 0 112) :
    (chan_settings F stack chan msg len : Sw φ Unit) =
      Xil_Out32 (chanReg chan ChanReg.dac_ramplen.offset) (msgWord msg 1) := by
  have haddr : (be32 0 0 0 112).toNat = 112 := by decide
  simp only [chan_settings, h, haddr]
  rfl

theorem client_msg_glob (stack : Stack) (len : BitVec 32) (msg : Buf) :
    (client_msg F stack 0 len msg : Sw φ Unit) = (do
      Xil_Out32 GlobReg.ioc_access.offset 1
      Xil_Out32 GlobReg.ioc_access.offset 0
      glob_settings msg) := rfl

theorem client_msg_chan (stack : Stack) {id : BitVec 16} (h1 : 1 ≤ id.toNat) (h4 : id.toNat ≤ 4)
    (len : BitVec 32) (msg : Buf) :
    (client_msg F stack id len msg : Sw φ Unit) = (do
      Xil_Out32 GlobReg.ioc_access.offset 1
      Xil_Out32 GlobReg.ioc_access.offset 0
      chan_settings F stack (id.setWidth 32) msg len) := by
  have h : id.toNat = 1 ∨ id.toNat = 2 ∨ id.toNat = 3 ∨ id.toNat = 4 := by omega
  unfold client_msg
  rcases h with h | h | h | h <;> simp only [h]

theorem effects_settings (stack : Stack) {id : BitVec 16} (hid : id.toNat ≤ 4) (len : BitVec 32)
    (buf : Buf) (x : Byte) (s : Psc φ) :
    (client_msg F stack id len (buf.store 0 (settings id x)) : Sw φ Unit).effects s =
      [.out32 GlobReg.ioc_access.offset 1, .out32 GlobReg.ioc_access.offset 0,
        .out32 (settingsReg id) (be32 0 0 0 x)] := by
  obtain ⟨h0, h1⟩ := msgWord_settings buf id x
  by_cases hz : id = 0
  · subst hz
    rw [client_msg_glob, glob_settings_leds h0, h1]
    rfl
  · have hpos : 1 ≤ id.toNat := Nat.pos_of_ne_zero fun h => hz (BitVec.eq_of_toNat_eq h)
    rw [settingsAddr, if_neg hz] at h0
    rw [client_msg_chan F stack hpos hid, chan_settings_ramplen F stack _ _ h0, h1, settingsReg,
      if_neg hz]
    rfl

/-- A message that repeats the start of the one before it changes nothing in the buffer. -/
theorem store_take (buf : Buf) (bs : List Byte) (n : ℕ) :
    (buf.store 0 bs).store 0 (bs.take n) = buf.store 0 bs := by
  funext i
  by_cases h : i < n
  · rcases lt_or_ge i bs.length with hi | hi
    · simp [Buf.store, h, hi]
    · simp [Buf.store, hi]
  · simp [Buf.store, h]

/-- A short message leaves the last byte of the data to the message before it, here one that was
ignored. -/
theorem not_ownBytesOnly (stack : Stack) (v : Server φ) {id : BitVec 16} {len : ℕ}
    (hid : id.toNat ≤ 4) (hlen : len < 8) : ¬ OwnBytesOnly F stack v id len := by
  intro h
  have hle : len ≤ [0, 0, 0, settingsAddr id, 0, 0, 0].length := Nat.le_of_lt_succ hlen
  have happ : ∀ x, (settings id x).take len = [0, 0, 0, settingsAddr id, 0, 0, 0].take len := by
    intro x
    exact @List.take_append_of_le_length _ _ [x] len hle
  have htake : (settings id 1).take len = (settings id 2).take len := by rw [happ, happ]
  have hlen' : ((settings id 1).take len).length = len := by
    rw [List.length_take, settings_length]
    omega
  have hbuf : ∀ x, ((Server.run F stack v [.msg (ignored id x)]).rxbuf.store 0
      ((settings id x).take len)) = v.rxbuf.store 0 (settings id x) :=
    fun x => store_take v.rxbuf (settings id x) len
  have heq := h [.msg (ignored id 1)] [.msg (ignored id 2)] (accepted_ignored id 1)
    (accepted_ignored id 2)
    (by simp only [Server.run, List.foldl, Server.step, effects_ignored])
    ⟨id, (settings id 1).take len, by rw [hlen']; omega⟩ rfl hlen'
  unfold Server.effects Server.received at heq
  rw [hbuf 1, effects_settings F stack hid] at heq
  simp only [htake] at heq
  rw [hbuf 2, effects_settings F stack hid] at heq
  simp only [List.cons.injEq, Eff.out32.injEq, true_and, and_true] at heq
  exact be32_ne_of_last (by decide) _ _ _ _ _ _ heq

/-- The messages that depend on their own bytes only: those with an id that is not one of the
settings handlers, and those that hold the two words which these read. -/
theorem ownBytesOnly_iff (stack : Stack) (v : Server φ) (id : BitVec 16) (len : ℕ) :
    OwnBytesOnly F stack v id len ↔ 4 < id.toNat ∨ 8 ≤ len := by
  constructor
  · intro h
    by_contra hc
    obtain ⟨hid, hshort⟩ := not_or.mp hc
    exact not_ownBytesOnly F stack v (not_lt.mp hid) (not_le.mp hshort) h
  · intro h es₁ es₂ _ _ hpsc m hid hm
    have hm' : ¬ m.msgid.toNat ≤ 4 ∨ 8 ≤ m.payload.length := by
      rw [hid, hm]
      omega
    unfold Server.effects Server.received
    rw [hpsc, client_msg_congr F stack m _ (Server.run F stack v es₂).rxbuf hm']

/-- A command word alone, to channel 1, on a unit that is all zeros with an erased flash. -/
theorem short_message_leftover :
    ¬ OwnBytesOnly Float ⟨[], 0, []⟩
      ⟨fun _ => 0, ⟨fun _ => 0, fun _ _ => 0, 0, 0, 0, (⟨fun _ => 0xFF, false⟩ : Nor)⟩⟩ 1 4 :=
  not_ownBytesOnly Float _ _ (by decide) (by decide)

end Zpsc.Commands
