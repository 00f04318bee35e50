import Mathlib.Tactic.Linarith
import Zpsc.Net.Proofs.TftpSeenProofs

/-!
# One transfer at a time

Each function of the server is a change of a few fields (`sendPacket_eq`, `close_handle_eq`), and
what it takes it gives back (`Settled.step`). A datagram that is not the peer's is answered and
changes nothing (`step_foreign`); the peer's silence ends the transfer (`silent_transfer_ends`).
-/

namespace Zpsc.TftpServer

open Bits Clocked
open Lwip (Counts Endpoint Stack)
open Tftp (TFTP_MAX_PAYLOAD_SIZE tot_len)

variable {σ : Type} {ctx : TftpContext σ} {s : TftpState σ Counts} {d : Datagram} {a : Alloc}

/-! ## Equations -/

/-- What is sent when a packet gets a buffer. -/
def out (alloc : Bool) (dst : Endpoint) (p : List Byte) : List (Endpoint × List Byte) :=
  if alloc then [(dst, p)] else []

theorem pbuf_alloc_eq (s : TftpState σ Counts) :
    pbuf_alloc s = { s with net.pbufs := s.net.pbufs + 1 } := rfl

theorem pbuf_free_eq (s : TftpState σ Counts) :
    pbuf_free s = { s with net.pbufs := s.net.pbufs - 1 } := rfl

theorem udp_sendto_eq (s : TftpState σ Counts) (dst : Endpoint) (p : List Byte) :
    udp_sendto s dst p = { s with net.sent := s.net.sent ++ [(dst, p)] } := rfl

theorem sys_timeout_eq (s : TftpState σ Counts) :
    sys_timeout s = { s with net.timeouts := s.net.timeouts + 1 } := rfl

theorem sys_untimeout_eq (s : TftpState σ Counts) :
    sys_untimeout s = { s with net.timeouts := s.net.timeouts - 1 } := rfl

theorem sendPacket_eq (s : TftpState σ Counts) (dst : Endpoint) (p : List Byte) (alloc : Bool) :
    sendPacket s dst p alloc = { s with net.sent := s.net.sent ++ out alloc dst p } := by
  cases alloc with
  | false => simp [sendPacket, out]
  | true => simp [sendPacket, out, pbuf_free_eq, udp_sendto_eq, pbuf_alloc_eq]

theorem close_handle_eq (s : TftpState σ Counts) :
    close_handle ctx s =
      { s with
        port := 0, addr := 0, last_data := none, net.pbufs := s.net.pbufs - held s
        net.timeouts := s.net.timeouts - 1, fs := if s.handle then ctx.close s.fs else s.fs
        handle := false } := by
  rcases s with ⟨_ | _, _ | p, _⟩ <;> simp [close_handle, held, sys_untimeout_eq, pbuf_free_eq]

/-- The three ends of `send_data`: no buffer, an error of `read`, or the next block, which may be
sent. -/
inductive SendData (ctx : TftpContext σ) (s : TftpState σ Counts) (a : Alloc) :
    TftpState σ Counts → Prop where
  | noBuffer : SendData ctx s a { s with last_data := none, net.pbufs := s.net.pbufs - held s }
  | readError {fs : σ} {p : List Byte} (hread : ctx.read s.fs TFTP_MAX_PAYLOAD_SIZE = (none, fs)) :
    SendData ctx s a
      { s with
        port := 0, addr := 0, last_data := none, net.pbufs := s.net.pbufs - held s
        net.timeouts := s.net.timeouts - 1
        fs := if s.handle then ctx.close fs else fs, handle := false
        net.sent := s.net.sent ++
          out a.second s.peer (packet TFTP_ERROR TFTP_ERROR_ACCESS_VIOLATION p) }
  | block {fs : σ} {data : List Byte}
      (hread : ctx.read s.fs TFTP_MAX_PAYLOAD_SIZE = (some data, fs)) :
    SendData ctx s a
      { s with
        fs := fs, last_data := some (packet TFTP_DATA s.blknum data)
        net.pbufs := s.net.pbufs - held s + 1
        net.sent := s.net.sent ++ out a.second s.peer (packet TFTP_DATA s.blknum data) }

theorem free_last_data (s : TftpState σ Counts) :
    (if s.last_data.isSome then pbuf_free s else s) =
      { s with net.pbufs := s.net.pbufs - held s } := by
  rw [held]
  split
  · rfl
  · rw [sub_zero]

theorem send_data_noBuffer (h : a.first = false) (s : TftpState σ Counts) :
    send_data ctx s a = { s with last_data := none, net.pbufs := s.net.pbufs - held s } := by
  rw [send_data, free_last_data, h]
  rfl

theorem send_data_readError {fs : σ} (h : a.first = true)
    (hread : ctx.read s.fs TFTP_MAX_PAYLOAD_SIZE = (none, fs)) :
    send_data ctx s a =
      { s with
        port := 0, addr := 0, last_data := none, net.pbufs := s.net.pbufs - held s
        net.timeouts := s.net.timeouts - 1
        fs := if s.handle then ctx.close fs else fs, handle := false
        net.sent := s.net.sent ++ out a.second s.peer (packet TFTP_ERROR TFTP_ERROR_ACCESS_VIOLATION
          (cstring "Error occurred while reading the file.")) } := by
  rw [send_data, free_last_data, h]
  simp only [pbuf_alloc_eq, Bool.not_true, Bool.false_eq_true, if_false, hread, send_error,
    sendPacket_eq, close_handle_eq, held, Option.isSome_some, if_true, add_sub_cancel_right]
  rfl

theorem send_data_block {fs : σ} {data : List Byte} (h : a.first = true)
    (hread : ctx.read s.fs TFTP_MAX_PAYLOAD_SIZE = (some data, fs)) :
    send_data ctx s a =
      { s with
        fs := fs, last_data := some (packet TFTP_DATA s.blknum data)
        net.pbufs := s.net.pbufs - held s + 1
        net.sent := s.net.sent ++ out a.second s.peer (packet TFTP_DATA s.blknum data) } := by
  rw [send_data, free_last_data, h]
  simp only [pbuf_alloc_eq, Bool.not_true, Bool.false_eq_true, if_false, hread, resend_data,
    sendPacket_eq, Option.getD_some]
  rfl

theorem send_data_cases (ctx : TftpContext σ) (s : TftpState σ Counts) (a : Alloc) :
    SendData ctx s a (send_data ctx s a) := by
  cases h : a.first with
  | false =>
    rw [send_data_noBuffer h]
    exact .noBuffer
  | true =>
    rcases hread : ctx.read s.fs TFTP_MAX_PAYLOAD_SIZE with ⟨_ | data, fs⟩
    · rw [send_data_readError h hread]
      exact .readError hread
    · rw [send_data_block h hread]
      exact .block hread

theorem step_recv_eq (ctx : TftpContext σ) (s : TftpState σ Counts) (d : Datagram) (a : Alloc) :
    step ctx s (.recv d a) = recv ctx (pbuf_alloc s) d a := rfl

theorem step_tmr_eq (ctx : TftpContext σ) (s : TftpState σ Counts) (a : Alloc) :
    step ctx s (.tmr a) = if s.net.timeouts = 0 then s else tftp_tmr ctx (sys_untimeout s) a := rfl

/-! ## What the server has taken -/

variable {k : ℤ}

theorem Settled.send (h : Settled k s) (x : List (Endpoint × List Byte)) :
    Settled k { s with net.sent := s.net.sent ++ x } :=
  ⟨h.pbufs, h.timeout, h.clock, h.retries, h.idle, h.block⟩

theorem Settled.error (h : Settled k s) (dst : Endpoint) (code : BitVec 16) (str : String)
    (alloc : Bool) : Settled k (send_error s dst code str alloc) := by
  unfold send_error
  rw [sendPacket_eq]
  exact h.send _

theorem Settled.ack (h : Settled k s) (blknum : BitVec 16) (alloc : Bool) :
    Settled k (send_ack s blknum alloc) := by
  unfold send_ack
  rw [sendPacket_eq]
  exact h.send _

theorem Settled.resend (h : Settled k s) (alloc : Bool) : Settled k (resend_data s alloc) := by
  unfold resend_data
  rw [sendPacket_eq]
  exact h.send _

theorem Settled.close (h : Settled k s) : Settled k (close_handle ctx s) := by
  rw [close_handle_eq]
  refine ⟨?_, ?_, h.clock, h.retries, fun _ => ⟨rfl, rfl⟩, fun p hp => by cases hp⟩
  · have := h.pbufs
    simp only [held, Option.isSome_none, Bool.false_eq_true, if_false] at this ⊢
    omega
  · intro hh
    cases hh

/-- `send_data` is called in a read transfer, when the number of the last block no longer counts. -/
theorem Settled.data (hh : s.handle = true) (hw : s.mode_write = false)
    (hpbufs : s.net.pbufs = held s + k) (ht : 0 < s.net.timeouts) (hclock : s.last_pkt ≤ s.timer)
    (hr : s.retries ≤ TFTP_MAX_RETRIES) : Settled k (send_data ctx s a) := by
  have hidle : s.handle = false → s.peer = ⟨0, 0⟩ ∧ s.last_data = none := by
    intro hf
    cases hh.symm.trans hf
  have hcases := send_data_cases ctx s a
  generalize send_data ctx s a = s' at hcases ⊢
  cases hcases with
  | noBuffer =>
    refine ⟨?_, fun _ => ht, hclock, hr, ?_, fun p hp => by cases hp⟩
    · simp only [held, Option.isSome_none, Bool.false_eq_true, if_false] at hpbufs ⊢
      omega
    · intro hf
      cases hh.symm.trans hf
  | readError hread =>
    refine ⟨?_, fun hf => ?_, hclock, hr, fun _ => ⟨rfl, rfl⟩, fun p hp => by cases hp⟩
    · simp only [held, Option.isSome_none, Bool.false_eq_true, if_false] at hpbufs ⊢
      omega
    · cases hf
  | block hread =>
    refine ⟨?_, fun _ => ht, hclock, hr, ?_, ?_⟩
    · simp only [held, Option.isSome_some, if_true] at hpbufs ⊢
      omega
    · intro hf
      cases hh.symm.trans hf
    · intro p hp
      exact ⟨hw, _, (Option.some.inj hp).symm⟩

theorem Settled.openFile (h : Settled k s) (hh : s.handle = false) (ht : 0 < s.net.timeouts)
    (write : Bool) : Settled k (openFile ctx s d write a) := by
  have ⟨hpeer, hlast⟩ := h.idle hh
  have hblock (b : BitVec 16) (w : Bool) (p : List Byte) (hp : s.last_data = some p) :
      w = false ∧ ∃ data, p = packet TFTP_DATA b data := by
    cases hlast.symm.trans hp
  unfold TftpServer.openFile
  rcases hopen : ctx.open s.fs (d.filename Counts) (d.mode Counts) write with ⟨_ | _, fs⟩
  · simp only [Bool.not_false, if_true]
    refine Settled.error ?_ ..
    exact ⟨h.pbufs, fun _ => ht, h.clock, h.retries, fun _ => ⟨hpeer, hlast⟩, hblock 1 _⟩
  · simp only [Bool.not_true, Bool.false_eq_true, if_false]
    cases write with
    | true =>
      refine Settled.ack ?_ ..
      exact ⟨h.pbufs, fun _ => ht, h.clock, h.retries, nofun, hblock 1 _⟩
    | false =>
      refine Settled.data ?_ ?_ ?_ ?_ ?_ ?_
      · rfl
      · rfl
      · exact h.pbufs
      · exact ht
      · exact h.clock
      · exact h.retries

theorem Settled.request (h : Settled k s) (write : Bool) :
    Settled k (recvRequest ctx s d write a) := by
  unfold recvRequest
  by_cases hh : s.handle = true
  · rw [if_pos hh]
    exact h.error ..
  · have hset : Settled k (sys_timeout s) :=
      ⟨h.pbufs, fun hf => absurd hf hh, h.clock, h.retries, h.idle, h.block⟩
    rw [if_neg hh]
    split_ifs
    · exact hset.error ..
    · exact hset.error ..
    · exact hset.openFile (Bool.eq_false_iff.mpr hh) (Nat.succ_pos _) write

/-- A write transfer keeps no block. -/
theorem Settled.last_data_none (h : Settled k s) (hw : s.mode_write = true) :
    s.last_data = none := by
  cases hl : s.last_data with
  | none => rfl
  | some p => cases (h.block p hl).1.symm.trans hw

theorem Settled.answer (h : Settled k s) (ret : ℤ) : Settled k (answerBlock ctx s d ret a) := by
  unfold answerBlock
  split
  · exact (h.error ..).close
  · exact h.ack ..

theorem last_data_answer (hl : s.last_data = none) (ret : ℤ) :
    (answerBlock ctx s d ret a).last_data = none := by
  unfold answerBlock
  split
  · rw [close_handle_eq]
  · rw [send_ack, sendPacket_eq]
    exact hl

theorem Settled.recvBlock (h : Settled k s) (hw : s.mode_write = true) :
    Settled k (recvBlock ctx s d a) := by
  have hl := h.last_data_none hw
  unfold TftpServer.recvBlock
  dsimp only
  generalize d.data Counts = p
  generalize ctx.write s.fs p = r
  have hans : Settled k (answerBlock ctx { s with fs := r.2 } d r.1 a) := by
    refine Settled.answer ?_ r.1
    exact ⟨h.pbufs, h.timeout, h.clock, h.retries, h.idle, h.block⟩
  have hnone : (answerBlock ctx { s with fs := r.2 } d r.1 a).last_data = none := by
    apply last_data_answer
    exact hl
  generalize answerBlock ctx { s with fs := r.2 } d r.1 a = s₁ at hans hnone ⊢
  split
  · exact hans.close
  · refine ⟨hans.pbufs, hans.timeout, hans.clock, hans.retries, hans.idle, ?_⟩
    intro p hp
    cases hnone.symm.trans hp

theorem Settled.recvData (h : Settled k s) : Settled k (recvData ctx s d a) := by
  unfold TftpServer.recvData
  split_ifs with hh hw hblk hprev
  · exact h.error ..
  · exact h.error ..
  · exact h.recvBlock (by simpa using hw)
  · exact h.ack ..
  · exact h.error ..

theorem Settled.recvAck (h : Settled k s) : Settled k (recvAck ctx s d a) := by
  unfold TftpServer.recvAck
  split_ifs with hh hw hblk hlast
  · exact h.error ..
  · exact h.error ..
  · exact h.error ..
  · have hopen : s.handle = true := by simpa using hh
    exact Settled.data hopen (by simpa using hw) h.pbufs (h.timeout hopen) h.clock h.retries
  · exact h.close

theorem Settled.dispatch (h : Settled k s) : Settled k (dispatch ctx s d a) := by
  unfold TftpServer.dispatch
  split_ifs
  · exact h.request false
  · exact h.request true
  · exact h.recvData
  · exact h.recvAck
  · exact h.error ..

theorem Settled.alloc (h : Settled k s) : Settled (k + 1) (pbuf_alloc s) := by
  refine ⟨?_, h.timeout, h.clock, h.retries, h.idle, h.block⟩
  change s.net.pbufs + 1 = held s + (k + 1)
  rw [h.pbufs, add_assoc]

theorem Settled.free (h : Settled (k + 1) s) : Settled k (pbuf_free s) := by
  refine ⟨?_, h.timeout, h.clock, h.retries, h.idle, h.block⟩
  change s.net.pbufs - 1 = held s + k
  rw [h.pbufs, ← add_assoc, add_sub_cancel_right]

theorem Settled.recv (h : Settled (k + 1) s) : Settled k (recv ctx s d a) := by
  unfold TftpServer.recv
  split
  · exact (h.error ..).free
  · refine Settled.free (Settled.dispatch ?_)
    exact ⟨h.pbufs, h.timeout, le_rfl, Nat.zero_le _, h.idle, h.block⟩

theorem Settled.timedOut (h : Settled k s) : Settled k (TftpServer.timeout ctx s a) := by
  unfold TftpServer.timeout
  split_ifs with hlate hretry
  · simp only [Bool.and_eq_true, decide_eq_true_eq] at hretry
    have hs := h.resend a.first
    exact ⟨hs.pbufs, hs.timeout, hs.clock, hretry.2, hs.idle, hs.block⟩
  · exact h.close
  · exact h

theorem Settled.tmr (h : Settled k s) :
    Settled k (tftp_tmr ctx { s with net.timeouts := s.net.timeouts - 1 } a) := by
  have hclock : s.last_pkt ≤ s.timer + 1 := h.clock.trans (by omega)
  unfold tftp_tmr
  by_cases hh : s.handle = true
  · simp only [hh, Bool.not_true, Bool.false_eq_true, if_false]
    refine Settled.timedOut ?_
    refine ⟨h.pbufs, fun _ => Nat.succ_pos _, hclock, h.retries, ?_, h.block⟩
    intro hf
    cases hf
  · simp only [hh, Bool.not_false, if_true]
    refine ⟨h.pbufs, fun hopen => absurd hopen (by simp), hclock, h.retries, ?_, h.block⟩
    exact fun _ => h.idle (Bool.eq_false_iff.mpr hh)

theorem Settled.step (h : Settled k s) (ctx : TftpContext σ) (e : Event) :
    Settled k (step ctx s e) := by
  cases e with
  | recv d a => exact h.alloc.recv
  | tmr a =>
    unfold TftpServer.step
    simp only
    split
    · exact h
    · exact h.tmr

theorem settled_init (fs : σ) : Settled 0 (tftp_init fs Counts.zero) where
  pbufs := rfl
  timeout := fun h => by cases h
  clock := le_rfl
  retries := Nat.zero_le _
  idle := fun _ => ⟨rfl, rfl⟩
  block := fun p hp => by cases hp

theorem Settled.run (h : Settled k s) (evs : List Event) :
    Settled k (Clocked.run (TftpServer.step ctx) s evs) :=
  run_inv (Settled k) (fun _ hs e _ => hs.step ctx e) h

theorem Reachable.settled (h : Reachable ctx s) : Settled 0 s := by
  obtain ⟨fs, net, evs, rfl, rfl⟩ := h
  exact (settled_init fs).run evs

/-! ## The open file -/

/-- The file is open when there is a handle. -/
def Tracks (opened : σ → Bool) (s : TftpState σ Counts) : Prop := opened s.fs = s.handle

variable {opened : σ → Bool}

theorem Tracks.packet (h : Tracks opened s) (dst : Endpoint) (p : List Byte) (alloc : Bool) :
    Tracks opened (sendPacket s dst p alloc) := by
  rw [sendPacket_eq]
  exact h

theorem Tracks.close (h : Tracks opened s) (hfiles : Files ctx opened) :
    Tracks opened (close_handle ctx s) := by
  unfold Tracks at h ⊢
  rw [close_handle_eq]
  cases hh : s.handle with
  | true => exact hfiles.close _
  | false => exact h.trans hh

theorem Tracks.send_data (h : Tracks opened s) (hfiles : Files ctx opened) :
    Tracks opened (send_data ctx s a) := by
  have hread := hfiles.read s.fs TFTP_MAX_PAYLOAD_SIZE
  have hcases := send_data_cases ctx s a
  generalize TftpServer.send_data ctx s a = s' at hcases ⊢
  unfold Tracks at h ⊢
  cases hcases with
  | noBuffer => exact h
  | readError hfail =>
    rw [hfail] at hread
    cases hh : s.handle with
    | true => exact hfiles.close _
    | false => exact hread.trans (h.trans hh)
  | block hok =>
    rw [hok] at hread
    exact hread.trans h

theorem Tracks.openFile (h : Tracks opened s) (hfiles : Files ctx opened) (hh : s.handle = false)
    (write : Bool) : Tracks opened (openFile ctx s d write a) := by
  have hopen := hfiles.open_file s.fs (d.filename Counts) (d.mode Counts) write (h.trans hh)
  unfold TftpServer.openFile
  generalize ctx.open s.fs (d.filename Counts) (d.mode Counts) write = r at hopen
  simp only
  split
  · refine Tracks.packet ?_ ..
    exact hopen
  · split
    · refine Tracks.packet ?_ ..
      exact hopen
    · refine Tracks.send_data ?_ hfiles
      exact hopen

theorem Tracks.request (h : Tracks opened s) (hfiles : Files ctx opened) (write : Bool) :
    Tracks opened (recvRequest ctx s d write a) := by
  have hset : Tracks opened (sys_timeout s) := h
  unfold recvRequest
  split_ifs with hh
  · exact h.packet ..
  · exact hset.packet ..
  · exact hset.packet ..
  · exact hset.openFile hfiles (Bool.eq_false_iff.mpr hh) write

theorem Tracks.answer (h : Tracks opened s) (hfiles : Files ctx opened) (ret : ℤ) :
    Tracks opened (answerBlock ctx s d ret a) := by
  unfold answerBlock
  split
  · exact (h.packet ..).close hfiles
  · exact h.packet ..

theorem Tracks.recvBlock (h : Tracks opened s) (hfiles : Files ctx opened) :
    Tracks opened (recvBlock ctx s d a) := by
  unfold TftpServer.recvBlock
  dsimp only
  generalize d.data Counts = p
  have hwrite : Tracks opened { s with fs := (ctx.write s.fs p).2 } := (hfiles.write s.fs p).trans h
  split
  · exact (hwrite.answer hfiles _).close hfiles
  · exact hwrite.answer hfiles _

theorem Tracks.dispatch (h : Tracks opened s) (hfiles : Files ctx opened) :
    Tracks opened (dispatch ctx s d a) := by
  have hdata : Tracks opened (recvData ctx s d a) := by
    unfold recvData
    split_ifs
    · exact h.packet ..
    · exact h.packet ..
    · exact h.recvBlock hfiles
    · exact h.packet ..
    · exact h.packet ..
  have hack : Tracks opened (recvAck ctx s d a) := by
    unfold recvAck
    split_ifs
    · exact h.packet ..
    · exact h.packet ..
    · exact h.packet ..
    · exact Tracks.send_data h hfiles
    · exact h.close hfiles
  unfold TftpServer.dispatch
  split_ifs
  · exact h.request hfiles false
  · exact h.request hfiles true
  · exact hdata
  · exact hack
  · exact h.packet ..

theorem Tracks.step (h : Tracks opened s) (hfiles : Files ctx opened) (e : Event) :
    Tracks opened (step ctx s e) := by
  cases e with
  | recv d a =>
    unfold TftpServer.step recv
    dsimp only
    split
    · exact Tracks.packet (s := pbuf_alloc s) h ..
    · exact Tracks.dispatch (s := { pbuf_alloc s with last_pkt := s.timer, retries := 0 }) h hfiles
  | tmr a =>
    unfold TftpServer.step tftp_tmr timeout
    dsimp only
    split_ifs
    · exact h
    · exact h
    · rw [resend_data, sendPacket_eq]
      exact h
    · refine Tracks.close ?_ hfiles
      exact h
    · exact h

/-- After every run the file is open exactly while there is a transfer, and the server holds what
`Settled` says. -/
theorem settled_and_tracks (hfiles : Files ctx opened) {fs : σ} (hfs : opened fs = false)
    (evs : List Event) :
    Settled 0 (Clocked.run (step ctx) (tftp_init fs Counts.zero) evs) ∧
      Tracks opened (Clocked.run (step ctx) (tftp_init fs Counts.zero) evs) := by
  constructor
  · exact (settled_init fs).run evs
  · exact run_inv (Tracks opened) (fun _ hs e _ => hs.step hfiles e) hfs

/-! ## Datagrams of others -/

theorem endpoint_ne_of_foreign (h : foreign s d = true) : d.endpoint ≠ s.peer := by
  intro heq
  simp only [Datagram.endpoint, TftpState.peer, Endpoint.mk.injEq] at heq
  obtain ⟨haddr, hport⟩ := heq
  simp [foreign, haddr, hport] at h

/-- A datagram that is not the peer's is answered, and no more. -/
theorem step_foreign (ctx : TftpContext σ) (a : Alloc) (h : foreign s d = true) :
    ∃ body, step ctx s (.recv d a) =
      { s with
        net.sent := s.net.sent ++
          out a.first d.endpoint (packet TFTP_ERROR TFTP_ERROR_ACCESS_VIOLATION body) } := by
  have hf : foreign (pbuf_alloc s) d = true := h
  refine ⟨cstring "Only one connection at a time is supported", ?_⟩
  rw [step_recv_eq, recv, if_pos hf, send_error, sendPacket_eq]
  simp only [pbuf_alloc_eq, pbuf_free_eq, add_sub_cancel_right]

theorem sentTo_append (peer : Endpoint) (x y : List (Endpoint × List Byte)) :
    sentTo peer (x ++ y) = sentTo peer x ++ sentTo peer y := by
  simp [sentTo]

theorem sentTo_out_self (peer : Endpoint) (alloc : Bool) (p : List Byte) :
    sentTo peer (out alloc peer p) = List.replicate (if alloc then 1 else 0) p := by
  cases alloc with
  | false => rfl
  | true => simp [sentTo, out]

theorem sentTo_out_ne {peer dst : Endpoint} (h : dst ≠ peer) (alloc : Bool) (p : List Byte) :
    sentTo peer (out alloc dst p) = [] := by
  cases alloc with
  | false => rfl
  | true => simp [sentTo, out, h]

/-! ## Silence -/

variable {evs : List Event}

/-- A timeout of a transfer. -/
theorem step_tmr (h : Settled k s) (hh : s.handle = true) :
    step ctx s (.tmr a) = timeout ctx { s with timer := s.timer + 1 } a := by
  have ht := h.timeout hh
  simp only [step_tmr_eq, if_neg (Nat.ne_of_gt ht), tftp_tmr, sys_untimeout_eq, sys_timeout_eq, hh,
    Bool.not_true, Bool.false_eq_true, if_false, Nat.sub_add_cancel ht]

/-- Up to ten timeouts after a datagram of the peer nothing is done. -/
theorem step_tmr_early (ctx : TftpContext σ) (a : Alloc) (h : Settled k s) (hh : s.handle = true)
    (hearly : silence s + 1 ≤ TIMEOUT_TICKS) :
    step ctx s (.tmr a) = { s with timer := s.timer + 1 } := by
  have hle : ¬ s.timer + 1 - s.last_pkt > TIMEOUT_TICKS := by
    unfold silence at hearly
    omega
  rw [step_tmr h hh, timeout, if_neg hle]

theorem ticks_recv : ticks (.recv d a :: evs) = ticks evs := rfl

theorem ticks_tmr : ticks (.tmr a :: evs) = ticks evs + 1 := by
  simp [ticks]

theorem Foreign.tail {e : Event} (h : Foreign s (e :: evs)) : Foreign s evs :=
  fun d a hmem => h d a (List.mem_cons_of_mem e hmem)

theorem Foreign.head (h : Foreign s (.recv d a :: evs)) : foreign s d = true :=
  h d a (List.mem_cons_self ..)

/-- In ten timeouts without a datagram of the peer a transfer goes on. -/
theorem open_of_silence_le (h : Settled k s) (hh : s.handle = true) (hf : Foreign s evs)
    (hticks : silence s + ticks evs ≤ TIMEOUT_TICKS) :
    (run (step ctx) s evs).handle = true ∧
      sentTo s.peer (run (step ctx) s evs).net.sent = sentTo s.peer s.net.sent := by
  induction evs generalizing s with
  | nil => exact ⟨hh, rfl⟩
  | cons e evs ih =>
    cases e with
    | recv d a =>
      obtain ⟨body, hstep⟩ := step_foreign ctx a hf.head
      rw [ticks_recv] at hticks
      have hset := h.step ctx (.recv d a)
      rw [hstep] at hset
      rw [run_cons, hstep]
      have hih := ih hset hh hf.tail hticks
      refine ⟨hih.1, hih.2.trans ?_⟩
      change sentTo s.peer (s.net.sent ++ _) = _
      rw [sentTo_append, sentTo_out_ne (endpoint_ne_of_foreign hf.head), List.append_nil]
    | tmr a =>
      rw [ticks_tmr] at hticks
      have hstep := step_tmr_early ctx a h hh (by omega)
      have hset := h.step ctx (.tmr a)
      rw [hstep] at hset
      rw [run_cons, hstep]
      refine ih (s := { s with timer := s.timer + 1 }) hset hh hf.tail ?_
      unfold silence at hticks ⊢
      simp only
      omega

/-- The number of timeouts without a datagram of the peer that a transfer lasts. -/
def patience (s : TftpState σ Counts) : ℕ :=
  (TIMEOUT_TICKS - silence s).toNat +
    (if s.last_data.isSome then TFTP_MAX_RETRIES - s.retries else 0) + 1

theorem patience_le (h : Settled k s) : patience s ≤ 16 := by
  have hclock := h.clock
  have hwait : (TIMEOUT_TICKS - silence s).toNat ≤ 10 := by
    rw [Int.toNat_le, silence, TIMEOUT_TICKS]
    omega
  have hretries : (if s.last_data.isSome then TFTP_MAX_RETRIES - s.retries else 0) ≤ 5 := by
    split
    · exact Nat.sub_le ..
    · exact Nat.zero_le _
  unfold patience
  omega

/-- A timeout ends a transfer, or its patience gets less; then at most the last block is sent
again. -/
theorem step_tmr_cases (ctx : TftpContext σ) (a : Alloc) (h : Settled k s) (hh : s.handle = true) :
    ((step ctx s (.tmr a)).handle = false ∧ (step ctx s (.tmr a)).net.sent = s.net.sent) ∨
      ∃ r : ℕ, ∃ p, (r = 0 ∧ p = [] ∨ r = 1 ∧ p = out a.first s.peer (s.last_data.getD [])) ∧
        step ctx s (.tmr a) =
          { s with timer := s.timer + 1, retries := s.retries + r, net.sent := s.net.sent ++ p } ∧
        patience (step ctx s (.tmr a)) + 1 = patience s := by
  by_cases hearly : silence s + 1 ≤ TIMEOUT_TICKS
  · right
    have hstep := step_tmr_early ctx a h hh hearly
    refine ⟨0, [], .inl ⟨rfl, rfl⟩, by rw [hstep, List.append_nil]; rfl, ?_⟩
    rw [hstep]
    unfold patience silence at *
    simp only
    omega
  · have hlate : s.timer + 1 - s.last_pkt > TIMEOUT_TICKS := by
      unfold silence at hearly
      omega
    rw [step_tmr h hh, timeout, if_pos hlate]
    simp only
    by_cases hretry : (s.last_data.isSome && decide (s.retries < TFTP_MAX_RETRIES)) = true
    · right
      rw [if_pos hretry, resend_data, sendPacket_eq]
      refine ⟨1, _, .inr ⟨rfl, rfl⟩, rfl, ?_⟩
      rw [Bool.and_eq_true, decide_eq_true_eq] at hretry
      unfold patience silence at *
      simp only [hretry.1, if_true]
      omega
    · left
      rw [if_neg hretry, close_handle_eq]
      exact ⟨rfl, rfl⟩

/-- Without datagrams of the peer a transfer ends as soon as its patience is over, and its last
block is sent again five times at most. -/
theorem closed_of_patience (h : Settled k s) (hh : s.handle = true) (hf : Foreign s evs)
    (hticks : patience s ≤ ticks evs) :
    ∃ pre post n, evs = pre ++ post ∧ (run (step ctx) s pre).handle = false ∧
      n + s.retries ≤ TFTP_MAX_RETRIES ∧
      sentTo s.peer (run (step ctx) s pre).net.sent =
        sentTo s.peer s.net.sent ++ List.replicate n (s.last_data.getD []) := by
  induction evs generalizing s with
  | nil =>
    unfold patience at hticks
    cases hticks
  | cons e evs ih =>
    cases e with
    | recv d a =>
      obtain ⟨body, hstep⟩ := step_foreign ctx a hf.head
      rw [ticks_recv] at hticks
      have hset := h.step ctx (.recv d a)
      rw [hstep] at hset
      obtain ⟨pre, post, n, rfl, hclosed, hn, hsent⟩ := ih hset hh hf.tail hticks
      refine ⟨.recv d a :: pre, post, n, rfl, ?_, hn, ?_⟩
      · rw [run_cons, hstep]
        exact hclosed
      · rw [run_cons, hstep]
        refine hsent.trans ?_
        change sentTo s.peer (s.net.sent ++ _) ++ _ = _
        rw [sentTo_append, sentTo_out_ne (endpoint_ne_of_foreign hf.head), List.append_nil]
    | tmr a =>
      rcases step_tmr_cases ctx a h hh with ⟨hclosed, hsent⟩ | ⟨r, p, hp, hstep, hlt⟩
      · refine ⟨[.tmr a], evs, 0, rfl, hclosed, ?_, ?_⟩
        · have := h.retries
          omega
        · rw [run_cons, run_nil, hsent]
          simp
      · have hset := h.step ctx (.tmr a)
        rw [ticks_tmr] at hticks
        have hrest : patience (step ctx s (.tmr a)) ≤ ticks evs := by omega
        rw [hstep] at hset hrest
        obtain ⟨pre, post, n, rfl, hclosed, hn, hsent⟩ := ih hset hh hf.tail hrest
        obtain ⟨m, hm, hp⟩ : ∃ m ≤ r, sentTo s.peer p = List.replicate m (s.last_data.getD []) := by
          rcases hp with ⟨rfl, rfl⟩ | ⟨rfl, rfl⟩
          · exact ⟨0, le_rfl, rfl⟩
          · refine ⟨_, ?_, sentTo_out_self ..⟩
            split <;> omega
        refine ⟨.tmr a :: pre, post, m + n, rfl, ?_, ?_, ?_⟩
        · rw [run_cons, hstep]
          exact hclosed
        · simp only at hn
          omega
        · rw [run_cons, hstep]
          refine hsent.trans ?_
          change sentTo s.peer (s.net.sent ++ p) ++ _ = _
          rw [sentTo_append, hp, List.append_assoc, List.replicate_append_replicate]

/-- After at most ten timeouts without a datagram of the peer a transfer goes on, and after sixteen
it has ended, with the last block sent again five times at most. -/
theorem silent_transfer_ends {ν : Type} [Stack ν] {s : TftpState σ ν} (hs : Reachable ctx s)
    (hh : s.handle = true) (hf : Foreign s evs) :
    (silence s + ticks evs ≤ TIMEOUT_TICKS →
      (run (step ctx) s evs).handle = true ∧
        sentTo s.peer (run (step ctx) s evs).sent = sentTo s.peer s.sent) ∧
    (16 ≤ ticks evs →
      ∃ pre post n, evs = pre ++ post ∧ (run (step ctx) s pre).handle = false ∧
        n ≤ TFTP_MAX_RETRIES ∧
        sentTo s.peer (run (step ctx) s pre).sent =
          sentTo s.peer s.sent ++ List.replicate n (s.last_data.getD [])) := by
  have hset := hs.seen.settled
  have hf' : Foreign s.seen evs := hf
  constructor
  · intro hticks
    have hopen : (run (step ctx) s.seen evs).handle = true ∧
        sentTo s.peer (run (step ctx) s.seen evs).net.sent = sentTo s.peer s.sent :=
      open_of_silence_le hset hh hf' hticks
    rwa [← seen_run] at hopen
  · intro hticks
    obtain ⟨pre, post, n, hevs, hclosed, hn, hsent⟩ : ∃ pre post n, evs = pre ++ post ∧
        (run (step ctx) s.seen pre).handle = false ∧ n + s.retries ≤ TFTP_MAX_RETRIES ∧
        sentTo s.peer (run (step ctx) s.seen pre).net.sent =
          sentTo s.peer s.sent ++ List.replicate n (s.last_data.getD []) :=
      closed_of_patience hset hh hf' ((patience_le hset).trans hticks)
    rw [← seen_run] at hclosed hsent
    exact ⟨pre, post, n, hevs, hclosed, (Nat.le_add_right ..).trans hn, hsent⟩

/-- Callbacks with which every file opens and is empty. -/
def emptyFiles : TftpContext Unit where
  «open» := fun _ _ _ _ => (true, ())
  close := id
  read := fun _ _ => (some [], ())
  write := fun _ _ => (0, ())

/-- A read request for a file `F` from an endpoint. -/
def readRequest (port : BitVec 16) : Datagram :=
  ⟨0x0A000001, port, [0, 1, 0x46, 0, 0x6F, 0], [], []⟩

/-- The server after a request. -/
def requestedEmpty : TftpState Unit Counts :=
  step emptyFiles (tftp_init () Counts.zero) (.recv (readRequest 4000) ⟨true, true⟩)

theorem reachable_requestedEmpty : Reachable emptyFiles requestedEmpty :=
  ⟨(), Counts.zero, [.recv (readRequest 4000) ⟨true, true⟩], rfl, rfl⟩

/-- Sixteen timeouts after a request the transfer is over. -/
theorem silent_request_ends :
    ∃ pre post n, List.replicate 16 (Event.tmr ⟨true, true⟩) = pre ++ post ∧
      (run (step emptyFiles) requestedEmpty pre).handle = false ∧ n ≤ TFTP_MAX_RETRIES ∧
      sentTo requestedEmpty.peer (run (step emptyFiles) requestedEmpty pre).sent =
        sentTo requestedEmpty.peer requestedEmpty.sent ++
          List.replicate n (requestedEmpty.last_data.getD []) := by
  have hf : Foreign requestedEmpty (List.replicate 16 (Event.tmr ⟨true, true⟩)) := by
    intro d a hmem
    cases List.eq_of_mem_replicate hmem
  exact (silent_transfer_ends reachable_requestedEmpty rfl hf).2 le_rfl

/-! ## Without the datagrams of others -/

/-- From `s` on, `f` appends to what was sent and does not read it. -/
def Appends (f : TftpState σ Counts → TftpState σ Counts) (s : TftpState σ Counts) : Prop :=
  ∃ new, ∀ x, f { s with net.sent := x } = { f s with net.sent := x ++ new }

variable {f g : TftpState σ Counts → TftpState σ Counts}

theorem appends_of_frame (h : ∀ x, f { s with net.sent := x } = { f s with net.sent := x }) :
    Appends f s := by
  refine ⟨[], fun x => ?_⟩
  rw [h, List.append_nil]

theorem Appends.comp (hf : Appends f s) (hg : Appends g (f s)) : Appends (fun s => g (f s)) s := by
  obtain ⟨new, hf⟩ := hf
  obtain ⟨new', hg⟩ := hg
  refine ⟨new ++ new', fun x => ?_⟩
  simp only
  rw [hf, hg, List.append_assoc]

theorem Appends.ite {c : TftpState σ Counts → Prop} [DecidablePred c]
    (hc : ∀ x, c { s with net.sent := x } ↔ c s) (hf : c s → Appends f s)
    (hg : ¬ c s → Appends g s) :
    Appends (fun s => if c s then f s else g s) s := by
  by_cases h : c s
  · obtain ⟨new, hf⟩ := hf h
    refine ⟨new, fun x => ?_⟩
    simp only
    rw [if_pos h, if_pos ((hc x).mpr h), hf]
  · obtain ⟨new, hg⟩ := hg h
    refine ⟨new, fun x => ?_⟩
    simp only
    rw [if_neg h, if_neg (mt (hc x).mp h), hg]

theorem appends_sendPacket (dst : TftpState σ Counts → Endpoint)
    (p : TftpState σ Counts → List Byte) (alloc : Bool)
    (hdst : ∀ x, dst { s with net.sent := x } = dst s)
    (hp : ∀ x, p { s with net.sent := x } = p s) :
    Appends (fun s => sendPacket s (dst s) (p s) alloc) s := by
  refine ⟨out alloc (dst s) (p s), fun x => ?_⟩
  simp only [sendPacket_eq, hdst, hp]

theorem appends_error (dst : Endpoint) (code : BitVec 16) (str : String) (alloc : Bool) :
    Appends (fun s => send_error s dst code str alloc) s :=
  appends_sendPacket _ _ alloc (fun _ => rfl) (fun _ => rfl)

theorem appends_ack (blknum : BitVec 16) (alloc : Bool) :
    Appends (fun s => send_ack s blknum alloc) s :=
  appends_sendPacket _ _ alloc (fun _ => rfl) (fun _ => rfl)

theorem appends_resend (alloc : Bool) : Appends (fun s => resend_data s alloc) s :=
  appends_sendPacket _ _ alloc (fun _ => rfl) (fun _ => rfl)

theorem appends_close : Appends (close_handle ctx) s := by
  apply appends_of_frame
  intro x
  rw [close_handle_eq, close_handle_eq]
  rfl

theorem appends_send_data (ctx : TftpContext σ) (a : Alloc) :
    Appends (fun s => send_data ctx s a) s := by
  cases h : a.first with
  | false =>
    apply appends_of_frame
    intro x
    rw [send_data_noBuffer h, send_data_noBuffer h]
    rfl
  | true =>
    rcases hread : ctx.read s.fs TFTP_MAX_PAYLOAD_SIZE with ⟨_ | data, fs⟩
    · refine ⟨out a.second s.peer (packet TFTP_ERROR TFTP_ERROR_ACCESS_VIOLATION
        (cstring "Error occurred while reading the file.")), fun x => ?_⟩
      simp only
      rw [send_data_readError (s := { s with net.sent := x }) h hread, send_data_readError h hread]
      rfl
    · refine ⟨out a.second s.peer (packet TFTP_DATA s.blknum data), fun x => ?_⟩
      simp only
      rw [send_data_block (s := { s with net.sent := x }) h hread, send_data_block h hread]
      rfl

theorem appends_openFile (write : Bool) : Appends (fun s => openFile ctx s d write a) s := by
  rcases hopen : ctx.open s.fs (d.filename Counts) (d.mode Counts) write with ⟨_ | _, fs⟩
  · obtain ⟨new, h⟩ := appends_error (s := { s with handle := false, fs, blknum := 1 }) d.endpoint
      TFTP_ERROR_FILE_NOT_FOUND "Unable to open requested file." a.first
    refine ⟨new, fun x => ?_⟩
    simp only [openFile, hopen, Bool.not_false, if_true]
    exact h x
  · cases write with
    | true =>
      obtain ⟨new, h⟩ := appends_ack
        (s := { s with
          handle := true, fs, blknum := 1, addr := d.addr, port := d.port, mode_write := true })
        0 a.first
      refine ⟨new, fun x => ?_⟩
      simp only [openFile, hopen, Bool.not_true, Bool.false_eq_true, if_false, if_true]
      exact h x
    | false =>
      obtain ⟨new, h⟩ := appends_send_data ctx a
        (s := { s with
          handle := true, fs, blknum := 1, addr := d.addr, port := d.port, mode_write := false })
      refine ⟨new, fun x => ?_⟩
      simp only [openFile, hopen, Bool.not_true, Bool.false_eq_true, if_false]
      exact h x

theorem appends_request (write : Bool) : Appends (fun s => recvRequest ctx s d write a) s := by
  unfold recvRequest
  refine Appends.ite (fun _ => Iff.rfl) (fun _ => ?_) (fun _ => ?_)
  · exact appends_error ..
  refine Appends.ite (fun _ => Iff.rfl) (fun _ => ?_) (fun _ => ?_)
  · exact Appends.comp (appends_of_frame fun _ => rfl) (appends_error ..)
  refine Appends.ite (fun _ => Iff.rfl) (fun _ => ?_) (fun _ => ?_)
  · exact Appends.comp (appends_of_frame fun _ => rfl) (appends_error ..)
  · exact Appends.comp (appends_of_frame fun _ => rfl) (appends_openFile write)

theorem appends_answer (ctx : TftpContext σ) (d : Datagram) (a : Alloc) (ret : ℤ) :
    Appends (fun s => answerBlock ctx s d ret a) s := by
  unfold answerBlock
  refine Appends.ite (fun _ => Iff.rfl) (fun _ => ?_) (fun _ => ?_)
  · exact Appends.comp (appends_error ..) appends_close
  · exact appends_ack ..

theorem appends_recvBlock : Appends (fun s => recvBlock ctx s d a) s := by
  unfold recvBlock
  dsimp only
  generalize d.data Counts = p
  obtain ⟨new, h⟩ := appends_answer ctx d a
    (ctx.write s.fs p).1 (s := { s with fs := (ctx.write s.fs p).2 })
  have hans : Appends
      (fun s => answerBlock ctx { s with fs := (ctx.write s.fs p).2 } d (ctx.write s.fs p).1 a) s :=
    ⟨new, h⟩
  refine Appends.ite (fun _ => Iff.rfl) (fun _ => ?_) (fun _ => ?_)
  · exact hans.comp appends_close
  · exact hans.comp (g := fun s => { s with blknum := s.blknum + 1 })
      (appends_of_frame fun _ => rfl)

theorem appends_recvData : Appends (fun s => recvData ctx s d a) s := by
  unfold recvData
  refine Appends.ite (fun _ => Iff.rfl) (fun _ => ?_) (fun _ => ?_)
  · exact appends_error ..
  refine Appends.ite (fun _ => Iff.rfl) (fun _ => ?_) (fun _ => ?_)
  · exact appends_error ..
  refine Appends.ite (fun _ => Iff.rfl) (fun _ => ?_) (fun _ => ?_)
  · exact appends_recvBlock
  refine Appends.ite (fun _ => Iff.rfl) (fun _ => ?_) (fun _ => ?_)
  · exact appends_ack ..
  · exact appends_error ..

theorem appends_recvAck : Appends (fun s => recvAck ctx s d a) s := by
  unfold recvAck
  refine Appends.ite (fun _ => Iff.rfl) (fun _ => ?_) (fun _ => ?_)
  · exact appends_error ..
  refine Appends.ite (fun _ => Iff.rfl) (fun _ => ?_) (fun _ => ?_)
  · exact appends_error ..
  refine Appends.ite (fun _ => Iff.rfl) (fun _ => ?_) (fun _ => ?_)
  · exact appends_error ..
  refine Appends.ite (fun _ => Iff.rfl) (fun _ => ?_) (fun _ => ?_)
  · exact Appends.comp (f := fun s => { s with blknum := s.blknum + 1 })
      (appends_of_frame fun _ => rfl) (appends_send_data ctx a)
  · exact appends_close

theorem appends_dispatch : Appends (fun s => dispatch ctx s d a) s := by
  unfold dispatch
  refine Appends.ite (fun _ => Iff.rfl) (fun _ => ?_) (fun _ => ?_)
  · exact appends_request false
  refine Appends.ite (fun _ => Iff.rfl) (fun _ => ?_) (fun _ => ?_)
  · exact appends_request true
  refine Appends.ite (fun _ => Iff.rfl) (fun _ => ?_) (fun _ => ?_)
  · exact appends_recvData
  refine Appends.ite (fun _ => Iff.rfl) (fun _ => ?_) (fun _ => ?_)
  · exact appends_recvAck
  · exact appends_error ..

theorem appends_recv : Appends (fun s => recv ctx s d a) s := by
  unfold recv
  refine Appends.ite (fun _ => Iff.rfl) (fun _ => ?_) (fun _ => ?_)
  · exact Appends.comp (g := pbuf_free) (appends_error ..) (appends_of_frame fun _ => rfl)
  · have hstart : Appends (fun s => { s with last_pkt := s.timer, retries := 0 }) s :=
      appends_of_frame fun _ => rfl
    exact Appends.comp (g := pbuf_free) (hstart.comp appends_dispatch)
      (appends_of_frame fun _ => rfl)

theorem appends_timeout : Appends (fun s => timeout ctx s a) s := by
  unfold timeout
  refine Appends.ite (fun _ => Iff.rfl) (fun _ => ?_) (fun _ => ?_)
  · refine Appends.ite (fun _ => Iff.rfl) (fun _ => ?_) (fun _ => ?_)
    · exact Appends.comp (g := fun t => { t with retries := s.retries + 1 }) (appends_resend _)
        (appends_of_frame fun _ => rfl)
    · exact appends_close
  · exact appends_of_frame fun _ => rfl

/-- What an event does does not depend on what was sent before. -/
theorem appends_step (ctx : TftpContext σ) (e : Event) : Appends (fun s => step ctx s e) s := by
  cases e with
  | recv d a => exact Appends.comp (f := pbuf_alloc) (appends_of_frame fun _ => rfl) appends_recv
  | tmr a =>
    refine Appends.ite (fun _ => Iff.rfl) (fun _ => ?_) (fun _ => ?_)
    · exact appends_of_frame fun _ => rfl
    · have hexpire : Appends (fun s => { s with net.timeouts := s.net.timeouts - 1 }) s :=
        appends_of_frame fun _ => rfl
      refine hexpire.comp (g := fun s => tftp_tmr ctx s a) ?_
      unfold tftp_tmr
      dsimp only
      refine Appends.ite (fun _ => Iff.rfl) (fun _ => ?_) (fun _ => ?_)
      · exact appends_of_frame fun _ => rfl
      · exact Appends.comp (f := fun s => sys_timeout { s with timer := s.timer + 1 })
          (appends_of_frame fun _ => rfl) appends_timeout

theorem OpenThroughout.head {e : Event} (h : OpenThroughout ctx s (e :: evs)) : s.handle = true :=
  h [] e evs rfl

theorem OpenThroughout.tail {e : Event} (h : OpenThroughout ctx s (e :: evs)) :
    OpenThroughout ctx (step ctx s e) evs := by
  intro pre e' post hevs
  exact h (e :: pre) e' post (by rw [hevs]; rfl)

/-- Two states that differ only in what was sent, and not in what was sent to `peer`. -/
def Agrees (peer : Endpoint) (s s' : TftpState σ Counts) : Prop :=
  s = { s' with net.sent := s.net.sent } ∧ sentTo peer s.net.sent = sentTo peer s'.net.sent

variable {peer : Endpoint} {s' : TftpState σ Counts}

/-- States that agree do the same at an event. -/
theorem Agrees.step (h : Agrees peer s s') (e : Event) :
    Agrees peer (step ctx s e) (step ctx s' e) := by
  obtain ⟨heq, hsent⟩ := h
  obtain ⟨new, happ⟩ := appends_step ctx e (s := s')
  have h1 : TftpServer.step ctx s e =
      { TftpServer.step ctx s' e with net.sent := s.net.sent ++ new } := by
    rw [heq]
    exact happ s.net.sent
  have h2 : (TftpServer.step ctx s' e).net.sent = s'.net.sent ++ new :=
    congrArg TftpState.sent (happ s'.net.sent)
  constructor
  · rw [h1]
  · rw [h1, h2, sentTo_append, sentTo_append, hsent]

end Zpsc.TftpServer
