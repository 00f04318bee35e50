import Mathlib.Algebra.Group.Nat.Defs
import Mathlib.Data.Int.Notation
import Zpsc.Bits.Bytes

/-!
# PSC messages on a stream socket (`pscmsg.c`)

A PSC message is an 8-byte header (`'P'`, `'S'`, a 16-bit id and a 32-bit length, both big-endian)
followed by its payload. The functions are generic in the socket layer `Sockets σ`: `send` and
`recv` answer each call as the stack pleases and may change its state `σ`. A `send` moves any
positive part of what it is given and a `recv` returns any positive part of what it is asked for.

`Pipe` is the socket layer of one direction of a connection: `recv` takes what `send` has put, in
order. How much each call moves, and whether it fails, is decided by an answer per call.
-/

namespace Zpsc.PscMsg

open Bits

/-! ## The socket layer -/

/-- What `send` returns: a positive count (`sent n` is `n + 1` bytes), 0, or -1 with `errno`. -/
inductive SendRet where
  | sent (n : ℕ)
  | closed
  | failed (errno : ℤ)
  deriving DecidableEq

/-- What `recv` returns: at least one byte, 0, or -1 with `errno`. -/
inductive RecvRet where
  | got (b : Byte) (bs : List Byte)
  | closed
  | failed (errno : ℤ)
  deriving DecidableEq

/-- The two calls of the stack, on descriptor `sock`. -/
structure Sockets (σ : Type) where
  send : (sock : ℤ) → List Byte → σ → SendRet × σ
  recv : (sock : ℤ) → (buflen : ℕ) → σ → RecvRet × σ

/-- The `int` the functions return: 0, a code they name, or the `errno` of a failed call. -/
inductive Code where
  | zero
  | eio
  | emsgsize
  | enotconn
  | errno (e : ℤ)
  deriving DecidableEq

/-- `if(ret)` takes the other branch. An `errno` of 0 would count as success. -/
def Code.isZero : Code → Bool
  | .zero => true
  | .errno e => e == 0
  | _ => false

/-- The size of the buffer that messages are received into. -/
def PSC_MAX_RX_MSG_LEN : ℕ := 200000

/-- The memory a `void *` points to. -/
abbrev Buf := ℕ → Byte

/-- `buf` after `bs` is stored at offset `off`. -/
def Buf.store (buf : Buf) (off : ℕ) (bs : List Byte) : Buf := fun i =>
  if off ≤ i then (bs[i - off]?).getD (buf i) else buf i

/-- The first `n` bytes of `buf`. -/
def Buf.slice (buf : Buf) (n : ℕ) : List Byte := (List.range n).map buf

/-! ## Sending -/

variable {σ : Type} (net : Sockets σ) (sock : ℤ)

def psc_sendall (buf : List Byte) (s : σ) : Code × σ :=
  if buf = [] then
    (.zero, s)
  else
    match net.send sock buf s with
    | (.failed e, s') => (.errno e, s')
    | (.closed, s') => (.enotconn, s')
    | (.sent n, s') => psc_sendall (buf.drop (n + 1)) s'
termination_by buf.length
decreasing_by
  have : 0 < buf.length := List.length_pos_iff.mpr ‹_›
  simp only [List.length_drop]
  omega

/-- The bytes of `union psc_header_buf`: the two magic bytes, then `htons(msgid)` and
`htonl(msglen)`. -/
def header (msgid : BitVec 16) (msglen : BitVec 32) : List Byte :=
  [0x50, 0x53] ++ toBe16 msgid ++ toBe32 msglen

def psc_sendhead (msgid : BitVec 16) (msglen : BitVec 32) (s : σ) : Code × σ :=
  psc_sendall net sock (header msgid msglen) s

/-- A message as the callers pass it: `msglen`, a `uint32_t`, is the size of `buf`. -/
structure Msg where
  msgid : BitVec 16
  payload : List Byte
  fits : payload.length < 2 ^ 32 := by decide
  deriving DecidableEq

/-- `msglen`. -/
def Msg.len (m : Msg) : BitVec 32 := BitVec.ofNat 32 m.payload.length

def psc_sendmsg (m : Msg) (s : σ) : Code × σ :=
  let (ret, s) := psc_sendhead net sock m.msgid m.len s
  if !ret.isZero then (ret, s) else psc_sendall net sock m.payload s

/-- The bytes of a complete message. -/
def Msg.frame (m : Msg) : List Byte := header m.msgid m.len ++ m.payload

/-! ## Receiving -/

def psc_recvall (buf : Buf) (off buflen : ℕ) (s : σ) : Code × Buf × σ :=
  if buflen = 0 then
    (.zero, buf, s)
  else
    match net.recv sock buflen s with
    | (.failed e, s') => (.errno e, buf, s')
    | (.closed, s') => (.enotconn, buf, s')
    | (.got b bs, s') =>
      psc_recvall (buf.store off (b :: bs)) (off + (bs.length + 1)) (buflen - (bs.length + 1)) s'
termination_by buflen

/-- `psc_recvhead`: the code and, when it is 0, `*msgid` and `*msglen`. The header buffer is a
local of the function. -/
def psc_recvhead (s : σ) : Code × BitVec 16 × BitVec 32 × σ :=
  let (ret, b, s) := psc_recvall net sock (fun _ => 0) 0 8 s
  if !ret.isZero then
    (ret, 0, 0, s)
  else if b 0 ≠ 0x50 ∨ b 1 ≠ 0x53 then
    (.eio, 0, 0, s)
  else
    (.zero, be16 (b 2) (b 3), be32 (b 4) (b 5) (b 6) (b 7), s)

/-- What a call of `psc_recvmsg` leaves: its result, `*msgid`, `*msglen` and the payload buffer. -/
structure Received where
  /-- What `psc_recvmsg` returns. -/
  ret : Code
  msgid : BitVec 16
  msglen : BitVec 32
  buf : Buf

/-- `psc_recvmsg`, called with `*msgid = msgid` and `*msglen = msglen`, the size of `buf`. -/
def psc_recvmsg (msgid : BitVec 16) (buf : Buf) (msglen : BitVec 32) (s : σ) : Received × σ :=
  let (ret, mid, mlen, s) := psc_recvhead net sock s
  if !ret.isZero then
    (⟨ret, msgid, msglen, buf⟩, s)
  else if msglen.toNat < mlen.toNat then
    (⟨.emsgsize, mid, mlen, buf⟩, s)
  else
    let (ret, buf, s) := psc_recvall net sock buf 0 mlen.toNat s
    if !ret.isZero then (⟨ret, msgid, msglen, buf⟩, s) else (⟨ret, mid, mlen, buf⟩, s)

/-! ## One direction of a connection -/

/-- How the stack answers one call: it moves up to `n + 1` bytes, reports the end of the stream, or
fails. -/
inductive Answer where
  | moves (n : ℕ)
  | closed
  | failed (errno : ℤ)
  deriving DecidableEq

/-- The bytes sent and not yet received, the number of calls made and how many of them reported an
end of stream or an error. -/
structure Pipe where
  wire : List Byte
  calls : ℕ
  faults : ℕ

/-- A `send` or `recv` call that moves no byte. -/
def Pipe.fault (p : Pipe) : Pipe := { p with calls := p.calls + 1, faults := p.faults + 1 }

/-- The answers of a stack that moves a positive count at every call. -/
def moving (f : ℕ → ℕ) : ℕ → Answer := fun k => .moves (f k)

/-- `errno` is nonzero after a failed call. -/
def ErrnoSet (ans : ℕ → Answer) : Prop := ∀ k e, ans k = .failed e → e ≠ 0

/-- The end of a pipe whose `k`-th call is answered by `ans k`. A `recv` that finds the stream
exhausted reports its end. -/
def Pipe.sockets (ans : ℕ → Answer) : Sockets Pipe where
  send _ buf p :=
    match ans p.calls with
    | .moves n =>
      (.sent (min n (buf.length - 1)),
        { p with wire := p.wire ++ buf.take (n + 1), calls := p.calls + 1 })
    | .closed => (.closed, p.fault)
    | .failed e => (.failed e, p.fault)
  recv _ buflen p :=
    match ans p.calls with
    | .moves n =>
      match p.wire with
      | [] => (.closed, p.fault)
      | b :: bs =>
        (.got b (bs.take (min n (buflen - 1))),
          { p with wire := bs.drop (min n (buflen - 1)), calls := p.calls + 1 })
    | .closed => (.closed, p.fault)
    | .failed e => (.failed e, p.fault)

/-- Successive `psc_sendmsg` calls, with the code of each. -/
def sendmsgs : List Msg → σ → List Code × σ
  | [], s => ([], s)
  | m :: ms, s =>
    let (ret, s) := psc_sendmsg net sock m s
    let (rets, s) := sendmsgs ms s
    (ret :: rets, s)

/-- `n` successive `psc_recvmsg` calls into the same buffer of `cap` bytes: what each reported and
the first `msglen` bytes of the buffer after it. -/
def recvmsgs (cap : BitVec 32) : ℕ → BitVec 16 → Buf → σ →
    List (Code × BitVec 16 × BitVec 32 × List Byte) × σ
  | 0, _, _, s => ([], s)
  | n + 1, msgid, buf, s =>
    let (r, s) := psc_recvmsg net sock msgid buf cap s
    let (rs, s) := recvmsgs cap n r.msgid r.buf s
    ((r.ret, r.msgid, r.msglen, r.buf.slice r.msglen.toNat) :: rs, s)

end Zpsc.PscMsg
