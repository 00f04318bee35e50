import Zpsc.Net.TftpServer

/-!
# Transfers of the TFTP server

The server over the callbacks of `tftp_handler.c`. An upload and a download are followed from the
request on, over every order of datagrams and timeouts: a datagram may be lost, come twice, late or
from someone else. Of the peer only this is assumed. In an upload, what it sends under a number
belongs to the block of that number, and nothing of it is on the way for as long as it takes to send
65536 blocks. In a download, it does not acknowledge a block that could not be sent for want of a
buffer.
-/

namespace Zpsc.TftpServer

open Bits
open Lwip (Endpoint Stack)
open Protocol.Blocks
open Tftp (FatFs TFTP_MAX_PAYLOAD_SIZE tftp_sdcard_open tftp_sdcard_close tftp_sdcard_read
  tftp_sdcard_write)

variable {σ φ ν : Type} [FatFs φ] [Stack ν]

/-- The string with the given bytes. -/
def str (bytes : List Byte) : String := String.ofList (bytes.map fun b => Char.ofNat b.toNat)

/-- `ctxt` of `tftp_handler.c`. -/
def ctxt : TftpContext φ where
  «open» := fun c fname mode write => tftp_sdcard_open c (str fname) (str mode) write
  close := tftp_sdcard_close
  read := tftp_sdcard_read
  write := tftp_sdcard_write

/-- The contents of the file that a request asks for. -/
def requested (s : TftpState φ ν) (d : Datagram) : List Byte :=
  (FatFs.files s.fs (str (d.filename ν))).getD []

/-! ## Uploads -/

/-- The event is the block that an upload waits for, and it is written. -/
def stores (s : TftpState φ ν) : Event → Bool
  | .tmr _ => false
  | .recv d _ =>
    !foreign s d && d.sbuf 0 == TFTP_DATA && d.sbuf 1 == s.blknum &&
      decide (0 ≤ (tftp_sdcard_write s.fs (d.data ν)).1)

/-- Under the number of a block the peer sends the block. -/
def OffersBlocks (data : List Byte) (n : ℕ) (s : TftpState σ ν) (e : Event) : Prop :=
  ∀ d a, e = .recv d a → foreign s d = false → d.sbuf 0 = TFTP_DATA →
    ∃ k < count TFTP_MAX_PAYLOAD_SIZE data,
      Timely 65536 n k ∧ d.sbuf 1 = BitVec.ofNat 16 (k + 1) ∧
        (d.data ν).flatten = block TFTP_MAX_PAYLOAD_SIZE data k

/-- The upload of `data` that starts in `s₀` can get into the state `s` with `n` blocks stored. -/
inductive Upload (data : List Byte) (s₀ : TftpState φ ν) : ℕ → TftpState φ ν → Prop where
  | start : Upload data s₀ 0 s₀
  | event {n : ℕ} {s : TftpState φ ν} {e : Event} (h : Upload data s₀ n s)
      (hopen : s.handle = true) (hpeer : OffersBlocks data n s e) :
      Upload data s₀ (if stores s e then n + 1 else n) (step ctxt s e)

/-! ## Downloads -/

/-- The event asks for the next block. -/
def advances (s : TftpState σ ν) : Event → Bool
  | .tmr _ => false
  | .recv d _ => !foreign s d && d.sbuf 0 == TFTP_ACK && d.sbuf 1 == s.blknum && !lastpkt s

/-- The peer acknowledges the current block only when it could be sent: a buffer has it. -/
def Acknowledges (s : TftpState σ ν) (e : Event) : Prop :=
  ∀ d a, e = .recv d a → foreign s d = false → d.sbuf 0 = TFTP_ACK → d.sbuf 1 = s.blknum →
    s.last_data.isSome = true

/-- The download that starts in `s₀` can get into the state `s` in which block `n` is the last. -/
inductive Download (s₀ : TftpState φ ν) : ℕ → TftpState φ ν → Prop where
  | start : Download s₀ 1 s₀
  | event {n : ℕ} {s : TftpState φ ν} {e : Event} (h : Download s₀ n s)
      (hopen : s.handle = true) (hpeer : Acknowledges s e) :
      Download s₀ (if advances s e then n + 1 else n) (step ctxt s e)

/-! ## A peer that follows the protocol -/

/-- A datagram in one buffer. -/
def datagram (peer : Endpoint) (bytes : List Byte) : Datagram :=
  ⟨peer.addr, peer.port, bytes, [], []⟩

/-- A request in the mode `octet`. -/
def requestFor (peer : Endpoint) (opcode : BitVec 16) (name : List Byte) : Datagram :=
  datagram peer (toBe16 opcode ++ (name ++ 0 :: cstring "octet"))

/-- There are buffers. -/
def buffers : Alloc := ⟨true, true⟩

def arrives (peer : Endpoint) (bytes : List Byte) : Event := .recv (datagram peer bytes) buffers

/-- The events of an upload: the request and all blocks. -/
def uploadEvents (peer : Endpoint) (name data : List Byte) : List Event :=
  .recv (requestFor peer TFTP_WRQ name) buffers ::
    (List.range (count TFTP_MAX_PAYLOAD_SIZE data)).map fun k =>
      arrives peer (packet TFTP_DATA (BitVec.ofNat 16 (k + 1)) (block TFTP_MAX_PAYLOAD_SIZE data k))

/-- The events of a download of `blocks` blocks: the request and the acknowledgements. -/
def downloadEvents (peer : Endpoint) (name : List Byte) (blocks : ℕ) : List Event :=
  .recv (requestFor peer TFTP_RRQ name) buffers ::
    (List.range blocks).map fun k => arrives peer (packet TFTP_ACK (BitVec.ofNat 16 (k + 1)) [])

/-- What the server sends during an upload. -/
def uploadAnswers (peer : Endpoint) (blocks : ℕ) : List (Endpoint × List Byte) :=
  (List.range (blocks + 1)).map fun k => (peer, packet TFTP_ACK (BitVec.ofNat 16 k) [])

/-- What the server sends during a download. -/
def downloadAnswers (peer : Endpoint) (data : List Byte) : List (Endpoint × List Byte) :=
  (List.range (count TFTP_MAX_PAYLOAD_SIZE data)).map fun k =>
    (peer, packet TFTP_DATA (BitVec.ofNat 16 (k + 1)) (block TFTP_MAX_PAYLOAD_SIZE data k))

end Zpsc.TftpServer
