import Zpsc.Net.Pbuf

/-!
# The discovery responder (`discover.c`)

`disco_recv` is called with each datagram that arrives on the discovery port, and owns its buffers
from then on. A discovery request is answered with an empty buffer in front of the static reply
`disco_reply_buf`.
-/

namespace Zpsc.Discover

open Bits Pbuf Pbuf.Pbufs

variable {π : Type} [Pbufs π]

/-- `sizeof(msg)`: eight bytes of header, a serial number and two bytes of padding. -/
def sizeofMsg : ℕ := 12

/-- The message that is answered. -/
def DISCO_MSGID : BitVec 16 := 1234

/-- The datagram gets past the three early returns. -/
def isRequest (msg : List Byte) : Bool :=
  match msg with
  | P :: S :: i1 :: i0 :: l3 :: l2 :: l1 :: l0 :: body =>
    P == 0x50 && S == 0x53 && (be32 l3 l2 l1 l0).toNat ≤ body.length && be16 i1 i0 == DISCO_MSGID
  | _ => false

/-- A datagram as a chain of at least one buffer, and the outcomes of the calls made for it. -/
structure Datagram where
  /-- The payload of the first buffer. -/
  first : List Byte
  /-- The payloads of the others. -/
  rest : List (List Byte)
  /-- `pbuf_alloc` succeeds. -/
  alloc : Bool
  /-- `udp_sendto` succeeds. -/
  sent : Bool
  deriving DecidableEq

def Datagram.payloads (d : Datagram) : List (List Byte) := d.first :: d.rest

/-- The callback for the datagram at `p`. A failure of `udp_sendto` is only reported. -/
def disco_recv (disco_reply_buf : ℕ) (h : π) (p : ℕ) (d : Datagram) : π :=
  if isRequest ( pbuf_copy_partial h p sizeofMsg) then
    if d.alloc then
      let (h1, p) := pbuf_alloc h []
      let h2 := pbuf_chain h1 p disco_reply_buf
      let h3 := udp_sendto h2 p d.sent
      pbuf_free h3 p
    else h
  else h

/-- A datagram arrives and is handed over. -/
def step (disco_reply_buf : ℕ) (h : π) (d : Datagram) : π :=
  let (h, p) := receive h d.payloads
  disco_recv disco_reply_buf h p d

def run (disco_reply_buf : ℕ) (h : π) (ds : List Datagram) : π :=
  ds.foldl (step disco_reply_buf) h

/-- `disco_reply_buf` as `discover_prep` leaves it: a buffer of its own with one reference. -/
def Ready (disco_reply_buf : ℕ) (h : π) : Prop :=
  ∃ b, get h disco_reply_buf = some b ∧ b.next = none ∧ b.ref = 1

/-- The callback gives back what it was handed and what it allocated. -/
def NoLeak (disco_reply_buf : ℕ) (h : π) (d : Datagram) : Prop :=
  allocated (step disco_reply_buf h d) = allocated h ∧
    (get (step disco_reply_buf h d) disco_reply_buf).map Buf.ref = some 1

end Zpsc.Discover
