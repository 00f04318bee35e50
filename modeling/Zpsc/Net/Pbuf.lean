import Mathlib.Logic.Function.Basic
import Zpsc.Bits.Bytes

/-!
# Packet buffers with reference counts

The buffers of lwIP as the users of `pbuf.h` see them: each at an address, linked into chains, and
given back with the last reference. `Pbufs` is what the manual says of the functions in use.
-/

namespace Pbuf

open Bits

structure Buf where
  payload : List Byte
  /-- The next buffer of the chain. -/
  next : Option ℕ
  /-- The number of references to this one. -/
  ref : ℕ
  deriving DecidableEq

/-- A pool of buffers. The caller of `pbuf_chain` keeps its own reference to the second chain,
`pbuf_free` gives buffers back up to the first that someone else refers to, and `udp_sendto` takes
no reference, whether it succeeds or not. -/
class Pbufs (π : Type) where
  /-- The buffer at an address, if it is allocated. -/
  get : π → ℕ → Option Buf
  /-- The number of allocated buffers. -/
  allocated : π → ℕ
  /-- A datagram is put in a chain with these payloads, whose first buffer is at the address. -/
  receive : π → List (List Byte) → π × ℕ
  /-- A call that succeeds, and the address of the new buffer. -/
  pbuf_alloc : π → List Byte → π × ℕ
  pbuf_chain : π → (p t : ℕ) → π
  pbuf_free : π → ℕ → π
  /-- The copy from offset 0. -/
  pbuf_copy_partial : π → ℕ → (len : ℕ) → List Byte
  /-- The last argument tells whether it succeeds. -/
  udp_sendto : π → ℕ → Bool → π
  receive_get : ∀ h ps p b, get h p = some b → get (receive h ps).1 p = some b
  receive_allocated : ∀ h ps, allocated (receive h ps).1 = allocated h + ps.length
  receive_copy : ∀ h payload ps len,
    pbuf_copy_partial (receive h (payload :: ps)).1 (receive h (payload :: ps)).2 len =
      (payload :: ps).flatten.take len
  alloc_fresh : ∀ h payload, get h (pbuf_alloc h payload).2 = none
  alloc_get : ∀ h payload, get (pbuf_alloc h payload).1 =
    Function.update (get h) (pbuf_alloc h payload).2 (some ⟨payload, none, 1⟩)
  alloc_allocated : ∀ h payload, allocated (pbuf_alloc h payload).1 = allocated h + 1
  chain_get : ∀ h p t b b', get h p = some b → b.next = none → p ≠ t → get h t = some b' →
    get (pbuf_chain h p t) = Function.update (Function.update (get h) p
      (some { b with next := some t })) t (some { b' with ref := b'.ref + 1 })
  chain_allocated : ∀ h p t, allocated (pbuf_chain h p t) = allocated h
  sendto_get : ∀ h p ok, get (udp_sendto h p ok) = get h
  sendto_allocated : ∀ h p ok, allocated (udp_sendto h p ok) = allocated h
  /-- The last reference to a buffer gives it back and goes on with the next. -/
  free_next : ∀ h p b q, get h p = some b → b.ref = 1 → b.next = some q →
    ∃ h', get h' = Function.update (get h) p none ∧ allocated h' + 1 = allocated h ∧
      pbuf_free h p = pbuf_free h' q
  /-- A buffer that someone else refers to stays. -/
  free_shared : ∀ h p b, get h p = some b → 1 < b.ref →
    get (pbuf_free h p) = Function.update (get h) p (some { b with ref := b.ref - 1 }) ∧
      allocated (pbuf_free h p) = allocated h

end Pbuf
