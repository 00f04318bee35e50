import Zpsc.Net.Discover
import Zpsc.Net.Pool
import Mathlib.Tactic.Common

/-!
# Every datagram leaks

No path of `disco_recv` frees the datagram: its buffers stay allocated, one datagram after the other
(`step_spec`). The reply is balanced: the reference that `pbuf_chain` adds is taken back by
`pbuf_free` (`reply_balanced`).
-/

namespace Zpsc.Discover

open Bits Pbuf Pbuf.Pbufs

variable {π : Type} [Pbufs π] {reply : ℕ} {h : π}

/-- The chain of the reply: the new buffer in front of `disco_reply_buf`, which has a reference
more. -/
theorem reply_chain {b : Buf} {h1 : π} {p : ℕ} (hb : get h reply = some b)
    (halloc : pbuf_alloc h [] = (h1, p)) :
    p ≠ reply ∧ get (pbuf_chain h1 p reply) p = some ⟨[], some reply, 1⟩ ∧
      get (pbuf_chain h1 p reply) reply = some { b with ref := b.ref + 1 } := by
  have hfresh := alloc_fresh h []
  have hget := alloc_get h []
  rw [halloc] at hfresh hget
  have hne : p ≠ reply := by
    rintro rfl
    cases hfresh.symm.trans hb
  have hnew : get h1 p = some ⟨[], none, 1⟩ := by rw [hget, Function.update_self]
  have hold : get h1 reply = some b := by rw [hget, Function.update_of_ne hne.symm, hb]
  have hchain := chain_get h1 p reply _ b hnew rfl hne hold
  refine ⟨hne, ?_, ?_⟩
  · rw [hchain, Function.update_of_ne hne, Function.update_self]
  · rw [hchain, Function.update_self]

/-- The reply frees the buffer that it allocates, and leaves `disco_reply_buf` as it was. -/
theorem reply_balanced {b : Buf} {h1 : π} {p : ℕ} (hb : get h reply = some b) (href : b.ref = 1)
    (halloc : pbuf_alloc h [] = (h1, p)) (ok : Bool) :
    allocated (pbuf_free (udp_sendto (pbuf_chain h1 p reply) p ok) p) = allocated h ∧
      get (pbuf_free (udp_sendto (pbuf_chain h1 p reply) p ok) p) reply = some b := by
  obtain ⟨hne, hfront, hheld⟩ := reply_chain hb halloc
  have hcount := alloc_allocated h []
  rw [halloc] at hcount
  rw [← sendto_get _ p ok] at hfront hheld
  have hsame : allocated (udp_sendto (pbuf_chain h1 p reply) p ok) = allocated h + 1 := by
    rw [sendto_allocated, chain_allocated, hcount]
  generalize udp_sendto (pbuf_chain h1 p reply) p ok = h3 at hfront hheld hsame ⊢
  -- the front goes, and `disco_reply_buf` loses the reference that it had from there
  obtain ⟨h', hget, hlost, hfree⟩ := free_next h3 p _ reply hfront rfl rfl
  rw [← Function.update_of_ne hne.symm none (get h3), ← hget] at hheld
  obtain ⟨hget', hcount'⟩ := free_shared h' reply _ hheld (by simp only [href]; omega)
  rw [hfree, hcount', hget', Function.update_self]
  refine ⟨by omega, ?_⟩
  simp only [Nat.add_sub_cancel]

/-- What a datagram does, by its bytes: only a request takes buffers of the pool for a while. -/
theorem step_eq (h : π) (d : Datagram) :
    step reply h d =
      if isRequest (d.payloads.flatten.take sizeofMsg) ∧ d.alloc = true then
        let (h1, p) := pbuf_alloc (receive h d.payloads).1 []
        pbuf_free (udp_sendto (pbuf_chain h1 p reply) p d.sent) p
      else (receive h d.payloads).1 := by
  have hcopy := receive_copy h d.first d.rest sizeofMsg
  rw [← Datagram.payloads] at hcopy
  unfold step disco_recv
  dsimp only
  rw [hcopy]
  by_cases hreq : isRequest (d.payloads.flatten.take sizeofMsg) = true
  · by_cases halloc : d.alloc = true
    · rw [if_pos hreq, if_pos halloc, if_pos ⟨hreq, halloc⟩]
    · rw [if_pos hreq, if_neg halloc, if_neg (fun hboth => halloc hboth.2)]
  · rw [if_neg hreq, if_neg (fun hboth => hreq hboth.1)]

/-- A callback leaves the pool as large as it found it: the datagram is not freed. -/
theorem step_spec (hr : Ready reply h) (d : Datagram) :
    Ready reply (step reply h d) ∧
      allocated (step reply h d) = allocated h + (d.rest.length + 1) := by
  obtain ⟨b, hb, hnext, href⟩ := hr
  have hb' := receive_get h d.payloads reply b hb
  have hcount : allocated (receive h d.payloads).1 = allocated h + (d.rest.length + 1) :=
    receive_allocated h d.payloads
  rw [step_eq, ← hcount]
  split
  · obtain ⟨hsame, hget⟩ := reply_balanced hb' href rfl d.sent
    exact ⟨⟨b, hget, hnext, href⟩, hsame⟩
  · exact ⟨⟨b, hb', hnext, href⟩, rfl⟩

theorem ready_run (hr : Ready reply h) (ds : List Datagram) : Ready reply (run reply h ds) := by
  induction ds generalizing h with
  | nil => exact hr
  | cons d ds ih => exact ih (step_spec hr d).1

/-- In every run every callback leaks the datagram it is handed, while `disco_reply_buf` keeps one
reference. -/
theorem every_callback_leaks (hr : Ready reply h) (ds : List Datagram) (d : Datagram) :
    ¬ NoLeak reply (run reply h ds) d ∧
      allocated (step reply (run reply h ds) d) =
        allocated (run reply h ds) + (d.rest.length + 1) ∧
      (get (step reply (run reply h ds) d) reply).map Buf.ref = some 1 := by
  obtain ⟨⟨b, hb, -, href⟩, hcount⟩ := step_spec (ready_run hr ds) d
  refine ⟨fun hno => ?_, hcount, by rw [hb, Option.map_some, href]⟩
  rw [NoLeak, hcount] at hno
  omega

/-- The pool with the reply only. -/
def prepared : Pool := [some ⟨[0x50, 0x53], none, 1⟩]

/-- A discovery request in one buffer, answered without an error. -/
def request : Datagram := ⟨[0x50, 0x53, 0x04, 0xD2, 0, 0, 0, 0], [], true, true⟩

theorem request_leaks :
    isRequest request.first = true ∧ ¬ NoLeak 0 (run 0 prepared [request]) request :=
  ⟨by decide, (every_callback_leaks ⟨_, rfl, rfl, rfl⟩ [request] request).1⟩

/-- A datagram with one byte. -/
theorem byte_not_noLeak :
    Ready 0 prepared ∧ ¬ NoLeak 0 prepared ⟨[0], [], false, false⟩ := by
  refine ⟨⟨_, rfl, rfl, rfl⟩, ?_⟩
  rw [NoLeak]
  decide

end Zpsc.Discover
