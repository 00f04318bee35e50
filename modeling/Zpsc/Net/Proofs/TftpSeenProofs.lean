import Mathlib.Tactic.Common
import Zpsc.Net.TftpTransfer

/-!
# The server over any lwIP

What the server does over a lwIP that keeps its contract, it does over the counts (`seen_step`). So
the development that follows is about the counts, and its results are about every lwIP.
-/

namespace Zpsc.TftpServer

open Bits Clocked
open Lwip (Counts Endpoint Stack)
open Tftp (TFTP_MAX_PAYLOAD_SIZE tot_len)

variable {σ ν : Type} [Stack ν] {ctx : TftpContext σ} {s : TftpState σ ν} {d : Datagram} {a : Alloc}

/-! ## The bytes of a chain -/

theorem memfind_eq (bytes : List Byte) (start : ℕ) :
    Stack.pbuf_memfind ν bytes start = Stack.pbuf_memfind Counts bytes start := by
  cases h : (bytes.drop start).findIdx? (· == 0) with
  | none => rw [Stack.memfind_none _ _ h, Stack.memfind_none _ _ h]
  | some i => rw [Stack.memfind_some _ _ i h, Stack.memfind_some _ _ i h]

theorem data_eq (d : Datagram) : d.data ν = d.data Counts := by
  rw [Datagram.data, Datagram.data, Datagram.payloads, Stack.remove_header, Stack.remove_header]

theorem filename_end_offset_eq (d : Datagram) :
    d.filename_end_offset ν = d.filename_end_offset Counts :=
  memfind_eq _ _

theorem mode_end_offset_eq (d : Datagram) : d.mode_end_offset ν = d.mode_end_offset Counts := by
  rw [Datagram.mode_end_offset, memfind_eq, filename_end_offset_eq]
  rfl

theorem filename_eq (d : Datagram) : d.filename ν = d.filename Counts := by
  rw [Datagram.filename, filename_end_offset_eq]
  rfl

theorem mode_eq (d : Datagram) : d.mode ν = d.mode Counts := by
  rw [Datagram.mode, filename_end_offset_eq, mode_end_offset_eq]
  rfl

/-! ## The calls

Each call goes with `counts`, so each function of the server goes with `seen`. -/

theorem counts_alloc (n : ν) :
    Stack.counts (Stack.pbuf_alloc n) = Stack.pbuf_alloc (Stack.counts n) :=
  Stack.alloc_counts n

theorem counts_free (n : ν) : Stack.counts (Stack.pbuf_free n) = Stack.pbuf_free (Stack.counts n) :=
  Stack.free_counts n

theorem counts_sendto (n : ν) (dst : Endpoint) (p : List Byte) :
    Stack.counts (Stack.udp_sendto n dst p) = Stack.udp_sendto (Stack.counts n) dst p :=
  Stack.sendto_counts n dst p

theorem counts_timeout (n : ν) :
    Stack.counts (Stack.sys_timeout n) = Stack.sys_timeout (Stack.counts n) :=
  Stack.timeout_counts n

theorem counts_untimeout (n : ν) :
    Stack.counts (Stack.sys_untimeout n) = Stack.sys_untimeout (Stack.counts n) :=
  Stack.untimeout_counts n

theorem counts_receive (n : ν) : Stack.counts (Stack.receive n) = Stack.receive (Stack.counts n) :=
  Stack.receive_counts n

theorem counts_expire (n : ν) : Stack.counts (Stack.expire n) = Stack.expire (Stack.counts n) :=
  Stack.expire_counts n

theorem seen_pbuf_free (s : TftpState σ ν) : (pbuf_free s).seen = pbuf_free s.seen := by
  simp only [TftpState.seen, pbuf_free, counts_free]

theorem seen_sys_timeout (s : TftpState σ ν) : (sys_timeout s).seen = sys_timeout s.seen := by
  simp only [TftpState.seen, sys_timeout, counts_timeout]

theorem seen_sendPacket (s : TftpState σ ν) (dst : Endpoint) (p : List Byte) (alloc : Bool) :
    (sendPacket s dst p alloc).seen = sendPacket s.seen dst p alloc := by
  cases alloc with
  | false => rfl
  | true =>
    simp only [sendPacket, if_true, TftpState.seen, pbuf_free, udp_sendto, pbuf_alloc, counts_free,
      counts_sendto, counts_alloc]

/-! ## The functions of the server -/

theorem seen_send_error (s : TftpState σ ν) (dst : Endpoint) (code : BitVec 16) (str : String)
    (alloc : Bool) :
    (send_error s dst code str alloc).seen = send_error s.seen dst code str alloc :=
  seen_sendPacket s dst _ alloc

theorem seen_send_ack (s : TftpState σ ν) (blknum : BitVec 16) (alloc : Bool) :
    (send_ack s blknum alloc).seen = send_ack s.seen blknum alloc :=
  seen_sendPacket s s.peer _ alloc

theorem seen_resend_data (s : TftpState σ ν) (alloc : Bool) :
    (resend_data s alloc).seen = resend_data s.seen alloc :=
  seen_sendPacket s s.peer _ alloc

theorem seen_close_handle (s : TftpState σ ν) :
    (close_handle ctx s).seen = close_handle ctx s.seen := by
  rcases s with ⟨_ | _, _ | p, _⟩
  all_goals
    simp only [close_handle, TftpState.seen, pbuf_free, sys_untimeout, counts_free,
      counts_untimeout, Option.isSome_none, Option.isSome_some, Bool.false_eq_true, if_false,
      if_true]

theorem seen_send_data (s : TftpState σ ν) (a : Alloc) :
    (send_data ctx s a).seen = send_data ctx s.seen a := by
  have hfree : (if s.last_data.isSome then pbuf_free s else s).seen =
      if s.seen.last_data.isSome then pbuf_free s.seen else s.seen := by
    rw [apply_ite TftpState.seen, seen_pbuf_free]
    rfl
  unfold send_data
  rw [← hfree]
  generalize (if s.last_data.isSome then pbuf_free s else s) = s₁
  cases a.first with
  | false => rfl
  | true =>
    simp only [Bool.not_true, Bool.false_eq_true, if_false]
    rw [show (pbuf_alloc s₁.seen).fs = (pbuf_alloc s₁).fs from rfl]
    rcases ctx.read (pbuf_alloc s₁).fs TFTP_MAX_PAYLOAD_SIZE with ⟨_ | data, fs⟩
    · simp only
      rw [seen_close_handle, seen_send_error]
      simp only [TftpState.seen, pbuf_alloc, counts_alloc]
      rfl
    · simp only
      rw [seen_resend_data]
      simp only [TftpState.seen, pbuf_alloc, counts_alloc]

theorem seen_openFile (write : Bool) :
    (openFile ctx s d write a).seen = openFile ctx s.seen d write a := by
  unfold openFile
  rw [filename_eq, mode_eq, show s.seen.fs = s.fs from rfl]
  rcases ctx.open s.fs (d.filename Counts) (d.mode Counts) write with ⟨_ | _, fs⟩
  · simp only [Bool.not_false, if_true]
    rw [seen_send_error]
    rfl
  · cases write with
    | true =>
      simp only [Bool.not_true, Bool.false_eq_true, if_false, if_true]
      rw [seen_send_ack]
      rfl
    | false =>
      simp only [Bool.not_true, Bool.false_eq_true, if_false]
      rw [seen_send_data]
      rfl

theorem seen_recvRequest (write : Bool) :
    (recvRequest ctx s d write a).seen = recvRequest ctx s.seen d write a := by
  unfold recvRequest
  rw [filename_end_offset_eq, mode_end_offset_eq, apply_ite TftpState.seen,
    apply_ite TftpState.seen, apply_ite TftpState.seen, seen_send_error, seen_send_error,
    seen_send_error, seen_openFile, seen_sys_timeout]
  rfl

theorem seen_answerBlock (ret : ℤ) :
    (answerBlock ctx s d ret a).seen = answerBlock ctx s.seen d ret a := by
  unfold answerBlock
  rw [apply_ite TftpState.seen, seen_close_handle, seen_send_error, seen_send_ack]

theorem seen_recvBlock : (recvBlock ctx s d a).seen = recvBlock ctx s.seen d a := by
  have hans : (answerBlock ctx { s with fs := (ctx.write s.fs (d.data Counts)).2 } d
      (ctx.write s.fs (d.data Counts)).1 a).seen =
      answerBlock ctx { s.seen with fs := (ctx.write s.fs (d.data Counts)).2 } d
        (ctx.write s.fs (d.data Counts)).1 a :=
    seen_answerBlock _
  unfold recvBlock
  dsimp only
  rw [data_eq, show s.seen.fs = s.fs from rfl, apply_ite TftpState.seen, seen_close_handle, ← hans]
  rfl

theorem seen_recvData : (recvData ctx s d a).seen = recvData ctx s.seen d a := by
  unfold recvData
  rw [apply_ite TftpState.seen, apply_ite TftpState.seen, apply_ite TftpState.seen,
    apply_ite TftpState.seen, seen_send_error, seen_send_error, seen_recvBlock, seen_send_ack,
    seen_send_error]
  rfl

theorem seen_recvAck : (recvAck ctx s d a).seen = recvAck ctx s.seen d a := by
  unfold recvAck
  rw [apply_ite TftpState.seen, apply_ite TftpState.seen, apply_ite TftpState.seen,
    apply_ite TftpState.seen, seen_send_error, seen_send_error, seen_send_error, seen_send_data,
    seen_close_handle]
  rfl

theorem seen_dispatch : (dispatch ctx s d a).seen = dispatch ctx s.seen d a := by
  unfold dispatch
  rw [apply_ite TftpState.seen, apply_ite TftpState.seen, apply_ite TftpState.seen,
    apply_ite TftpState.seen, seen_recvRequest, seen_recvRequest, seen_recvData, seen_recvAck,
    seen_send_error]

theorem seen_recv : (recv ctx s d a).seen = recv ctx s.seen d a := by
  unfold recv
  rw [apply_ite TftpState.seen, seen_pbuf_free, seen_pbuf_free, seen_send_error, seen_dispatch]
  rfl

theorem seen_timeout : (timeout ctx s a).seen = timeout ctx s.seen a := by
  unfold timeout
  rw [apply_ite TftpState.seen, apply_ite TftpState.seen, seen_close_handle, ← seen_resend_data]
  rfl

theorem seen_tftp_tmr : (tftp_tmr ctx s a).seen = tftp_tmr ctx s.seen a := by
  unfold tftp_tmr
  dsimp only
  rw [apply_ite TftpState.seen, seen_timeout, seen_sys_timeout]
  rfl

/-- An event does over any lwIP what it does over the counts. -/
theorem seen_step (ctx : TftpContext σ) (s : TftpState σ ν) (e : Event) :
    (step ctx s e).seen = step ctx s.seen e := by
  cases e with
  | recv d a =>
    simp only [step]
    rw [seen_recv]
    simp only [TftpState.seen, counts_receive]
  | tmr a =>
    simp only [step]
    rw [apply_ite TftpState.seen, seen_tftp_tmr]
    simp only [TftpState.seen, counts_expire]
    rfl

theorem handle_step_seen (ctx : TftpContext σ) (s : TftpState σ ν) (e : Event) :
    (step ctx s.seen e).handle = (step ctx s e).handle := by
  rw [← seen_step]
  rfl

theorem seen_run (ctx : TftpContext σ) (s : TftpState σ ν) (evs : List Event) :
    (run (step ctx) s evs).seen = run (step ctx) s.seen evs := by
  induction evs generalizing s with
  | nil => rfl
  | cons e evs ih => rw [run_cons, run_cons, ih, seen_step]

theorem Reachable.seen (h : Reachable ctx s) : Reachable ctx s.seen := by
  obtain ⟨fs, net, evs, hnet, rfl⟩ := h
  exact ⟨fs, Stack.counts net, evs, hnet, seen_run ctx _ evs⟩

/-! ## Transfers -/

section Transfer

variable {φ : Type} [Tftp.FatFs φ]

theorem requested_seen (s : TftpState φ ν) (d : Datagram) : requested s.seen d = requested s d := by
  rw [requested, requested, filename_eq (ν := ν)]
  rfl

theorem stores_seen (s : TftpState φ ν) (e : Event) : stores s.seen e = stores s e := by
  cases e with
  | tmr a => rfl
  | recv d a =>
    rw [stores, stores, data_eq (ν := ν)]
    rfl

theorem OffersBlocks.seen {data : List Byte} {n : ℕ} {e : Event} (h : OffersBlocks data n s e) :
    OffersBlocks data n s.seen e := by
  intro d a heq hf hop
  obtain ⟨k, hk, ht, hnum, hdata⟩ := h d a heq hf hop
  rw [data_eq] at hdata
  exact ⟨k, hk, ht, hnum, hdata⟩

theorem Upload.seen {data : List Byte} {n : ℕ} {s t : TftpState φ ν} (h : Upload data s n t) :
    Upload data s.seen n t.seen := by
  induction h with
  | start => exact .start
  | @event n u e _ hopen hpeer ih =>
    have hnext := ih.event hopen hpeer.seen
    rwa [stores_seen, ← seen_step] at hnext

theorem Download.seen {n : ℕ} {s t : TftpState φ ν} (h : Download s n t) :
    Download s.seen n t.seen := by
  induction h with
  | start => exact .start
  | @event n u e _ hopen hpeer ih =>
    have hnext := ih.event hopen hpeer
    rwa [← seen_step] at hnext

/-- The upload that a request starts is one over the counts. -/
theorem Upload.seen_step {data : List Byte} {n : ℕ} {s t : TftpState φ ν} {e : Event}
    (h : Upload data (step ctxt s e) n t) : Upload data (step ctxt s.seen e) n t.seen := by
  rw [← TftpServer.seen_step]
  exact h.seen

/-- The download that a request starts is one over the counts. -/
theorem Download.seen_step {n : ℕ} {s t : TftpState φ ν} {e : Event}
    (h : Download (step ctxt s e) n t) : Download (step ctxt s.seen e) n t.seen := by
  rw [← TftpServer.seen_step]
  exact h.seen

end Transfer

end Zpsc.TftpServer
