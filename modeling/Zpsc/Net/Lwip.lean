import Mathlib.Data.Int.Notation
import Zpsc.Bits.Bytes

/-!
# lwIP below a UDP server

What a server on the raw API of lwIP relies on. Of the stack itself only this is asked: each call
changes the balance `Counts` as its manual says, and the two functions that look into a chain find
what is there.
-/

namespace Lwip

open Bits

/-- Who a datagram comes from or goes to. -/
structure Endpoint where
  addr : BitVec 32
  port : BitVec 16
  deriving DecidableEq

/-- What the calls of a server add up to. -/
structure Counts where
  /-- The chains of buffers that it was given, less those that it has freed. -/
  pbufs : ℤ
  /-- The timeouts that are set. -/
  timeouts : ℕ
  /-- What `udp_sendto` was called with, oldest first. -/
  sent : List (Endpoint × List Byte)

/-- Before the first call. -/
def Counts.zero : Counts := ⟨0, 0, []⟩

/-- lwIP in the states `ν`. The chains that `pbuf_remove_header` and `pbuf_memfind` work on are
given by their payloads. -/
class Stack (ν : Type) where
  /-- A call that succeeds. -/
  pbuf_alloc : ν → ν
  pbuf_free : ν → ν
  udp_sendto : ν → Endpoint → List Byte → ν
  sys_timeout : ν → ν
  sys_untimeout : ν → ν
  /-- A datagram comes in a chain that is allocated. -/
  receive : ν → ν
  /-- A timeout expires. -/
  expire : ν → ν
  counts : ν → Counts
  alloc_counts : ∀ n, counts (pbuf_alloc n) = { counts n with pbufs := (counts n).pbufs + 1 }
  free_counts : ∀ n, counts (pbuf_free n) = { counts n with pbufs := (counts n).pbufs - 1 }
  sendto_counts : ∀ n dst p,
    counts (udp_sendto n dst p) = { counts n with sent := (counts n).sent ++ [(dst, p)] }
  timeout_counts : ∀ n,
    counts (sys_timeout n) = { counts n with timeouts := (counts n).timeouts + 1 }
  /-- Of several timeouts one is taken back. -/
  untimeout_counts : ∀ n,
    counts (sys_untimeout n) = { counts n with timeouts := (counts n).timeouts - 1 }
  receive_counts : ∀ n, counts (receive n) = { counts n with pbufs := (counts n).pbufs + 1 }
  expire_counts : ∀ n, counts (expire n) = { counts n with timeouts := (counts n).timeouts - 1 }
  pbuf_remove_header : List (List Byte) → ℕ → List (List Byte)
  /-- The place of the first 0 from an offset on. -/
  pbuf_memfind : List Byte → ℕ → BitVec 16
  /-- The header must be in the first buffer. -/
  remove_header : ∀ payload next n, pbuf_remove_header (payload :: next) n =
    if payload.length < n then payload :: next else payload.drop n :: next
  memfind_some : ∀ bytes start i, (bytes.drop start).findIdx? (· == 0) = some i →
    pbuf_memfind bytes start = BitVec.ofNat 16 (start + i)
  memfind_none : ∀ bytes start, (bytes.drop start).findIdx? (· == 0) = none →
    pbuf_memfind bytes start = 0xFFFF

/-- The counts themselves are such states. -/
instance : Stack Counts where
  pbuf_alloc n := { n with pbufs := n.pbufs + 1 }
  pbuf_free n := { n with pbufs := n.pbufs - 1 }
  udp_sendto n dst p := { n with sent := n.sent ++ [(dst, p)] }
  sys_timeout n := { n with timeouts := n.timeouts + 1 }
  sys_untimeout n := { n with timeouts := n.timeouts - 1 }
  receive n := { n with pbufs := n.pbufs + 1 }
  expire n := { n with timeouts := n.timeouts - 1 }
  counts n := n
  alloc_counts _ := rfl
  free_counts _ := rfl
  sendto_counts _ _ _ := rfl
  timeout_counts _ := rfl
  untimeout_counts _ := rfl
  receive_counts _ := rfl
  expire_counts _ := rfl
  pbuf_remove_header payloads n :=
    match payloads with
    | [] => []
    | payload :: next => if payload.length < n then payload :: next else payload.drop n :: next
  pbuf_memfind bytes start :=
    match (bytes.drop start).findIdx? (· == 0) with
    | some i => BitVec.ofNat 16 (start + i)
    | none => 0xFFFF
  remove_header _ _ _ := rfl
  memfind_some bytes start i h := by rw [h]
  memfind_none bytes start h := by rw [h]

end Lwip
