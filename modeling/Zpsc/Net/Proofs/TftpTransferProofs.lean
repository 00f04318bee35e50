import Zpsc.Net.Proofs.TftpProofs
import Zpsc.Net.Proofs.TftpServerProofs
import Zpsc.Net.TftpTransfer

/-!
# Blocks arrive once and in order

In a transfer an event leaves everything as it is, ends it, or moves it on by one block
(`step_writing`, `step_reading`). So in an upload the file has the blocks before the one that the
server waits for (`Uploading`), and in a download the card has been read up to the block that was
sent last (`Downloading`).
-/

namespace Zpsc.TftpServer

open Bits Clocked
open Lwip (Counts Endpoint Stack)
open Protocol.Blocks
open Tftp (Card FatFs TFTP_MAX_PAYLOAD_SIZE tot_len tftp_sdcard_open tftp_sdcard_close
  tftp_sdcard_read tftp_sdcard_write)
open Tftp.FatFs

variable {σ : Type} {ctx : TftpContext σ} {s s' : TftpState σ Counts} {d : Datagram} {a : Alloc}
  {k : ℤ}

/-! ## What an event does to a transfer -/

/-- What a transfer goes by, less the timer. -/
def core (s : TftpState σ Counts) : Bool × Option (List Byte) × Endpoint × BitVec 16 × Bool × σ :=
  (s.handle, s.last_data, s.peer, s.blknum, s.mode_write, s.fs)

theorem core_eq (h : core s' = core s) :
    s'.handle = s.handle ∧ s'.last_data = s.last_data ∧ s'.peer = s.peer ∧ s'.blknum = s.blknum ∧
      s'.mode_write = s.mode_write ∧ s'.fs = s.fs := by
  simpa [core] using h

/-- An error packet. -/
def IsError (p : List Byte) : Prop := ∃ code body, p = packet TFTP_ERROR code body

theorem mem_out {x : Endpoint × List Byte} {alloc : Bool} {dst : Endpoint} {p : List Byte}
    (h : x ∈ out alloc dst p) : x = (dst, p) := by
  cases alloc with
  | false => cases h
  | true => exact List.mem_singleton.mp h

/-- The packets of an error. -/
theorem isError_of_mem {x : Endpoint × List Byte} {alloc : Bool} {dst : Endpoint}
    {code : BitVec 16} {body : List Byte} (h : x ∈ out alloc dst (packet TFTP_ERROR code body)) :
    IsError x.2 := by
  rw [mem_out h]
  exact ⟨_, _, rfl⟩

/-- The event is not the block that an upload waits for. -/
def NoBlock (s : TftpState σ Counts) (e : Event) : Prop :=
  ∀ d a, e = .recv d a → foreign s d = false → d.sbuf 0 = TFTP_DATA → d.sbuf 1 ≠ s.blknum

/-- An event during an upload. -/
inductive WriteStep (ctx : TftpContext σ) (s : TftpState σ Counts) :
    Event → TftpState σ Counts → Prop where
  | stays {e : Event} {s' : TftpState σ Counts} {x : List (Endpoint × List Byte)}
      (hno : NoBlock s e) (hcore : core s' = core s) (hsent : s'.net.sent = s.net.sent ++ x)
      (hx : ∀ y ∈ x, IsError y.2 ∨ y = (s.peer, packet TFTP_ACK (s.blknum - 1) [])) :
      WriteStep ctx s e s'
  | ends {e : Event} {s' : TftpState σ Counts} (hno : NoBlock s e) (hh : s'.handle = false)
      (hfs : s'.fs = ctx.close s.fs) (hsent : s'.net.sent = s.net.sent) : WriteStep ctx s e s'
  | fails {d : Datagram} {a : Alloc} {s' : TftpState σ Counts} {x : List (Endpoint × List Byte)}
      (hf : foreign s d = false) (hop : d.sbuf 0 = TFTP_DATA) (hblk : d.sbuf 1 = s.blknum)
      (hret : (ctx.write s.fs (d.data Counts)).1 < 0) (hh : s'.handle = false)
      (hfs : s'.fs = ctx.close (ctx.write s.fs (d.data Counts)).2)
      (hsent : s'.net.sent = s.net.sent ++ x) (hx : ∀ y ∈ x, IsError y.2) :
      WriteStep ctx s (.recv d a) s'
  | stores {d : Datagram} {a : Alloc} {s' : TftpState σ Counts} (hf : foreign s d = false)
      (hop : d.sbuf 0 = TFTP_DATA) (hblk : d.sbuf 1 = s.blknum)
      (hret : 0 ≤ (ctx.write s.fs (d.data Counts)).1)
      (hshort : (tot_len (d.data Counts)).toNat < TFTP_MAX_PAYLOAD_SIZE →
        s'.handle = false ∧ s'.fs = ctx.close (ctx.write s.fs (d.data Counts)).2)
      (hfull : TFTP_MAX_PAYLOAD_SIZE ≤ (tot_len (d.data Counts)).toNat →
        core s' = core { s with fs := (ctx.write s.fs (d.data Counts)).2, blknum := s.blknum + 1 })
      (hsent : s'.net.sent = s.net.sent ++ out a.first s.peer (packet TFTP_ACK s.blknum [])) :
      WriteStep ctx s (.recv d a) s'

theorem step_recv (hf : foreign s d = false) :
    step ctx s (.recv d a) =
      pbuf_free (dispatch ctx { pbuf_alloc s with last_pkt := s.timer, retries := 0 } d a) := by
  have hf' : ¬ foreign (pbuf_alloc s) d = true := by
    rw [Bool.not_eq_true]
    exact hf
  rw [step_recv_eq, recv, if_neg hf']
  rfl

/-- An answer with an error leaves a transfer as it is. -/
theorem WriteStep.error {e : Event} {dst : Endpoint} {code : BitVec 16} {str : String}
    {alloc : Bool} {s₁ : TftpState σ Counts} (hno : NoBlock s e) (hcore : core s₁ = core s)
    (hsent : s₁.net.sent = s.net.sent) :
    WriteStep ctx s e (pbuf_free (send_error s₁ dst code str alloc)) := by
  rw [send_error, sendPacket_eq]
  refine .stays hno hcore (x := out alloc dst (packet TFTP_ERROR code (cstring str))) ?_ ?_
  · rw [← hsent]
    rfl
  · exact fun y hy => .inl (isError_of_mem hy)

/-- A block that is not written ends the transfer. -/
theorem recvBlock_error (ctx : TftpContext σ) (a : Alloc) (hh : s.handle = true)
    (hret : (ctx.write s.fs (d.data Counts)).1 < 0) :
    (recvBlock ctx s d a).handle = false ∧
      (recvBlock ctx s d a).fs = ctx.close (ctx.write s.fs (d.data Counts)).2 ∧
      (recvBlock ctx s d a).net.sent = s.net.sent ++ out a.first d.endpoint
        (packet TFTP_ERROR TFTP_ERROR_ACCESS_VIOLATION (cstring "error writing file")) := by
  unfold recvBlock
  dsimp only
  rw [answerBlock, if_pos hret, send_error, sendPacket_eq]
  split
  · simp [close_handle_eq, hh]
  · simp [close_handle_eq, hh]

/-- The last block is written, acknowledged and ends the transfer. -/
theorem recvBlock_short (ctx : TftpContext σ) (a : Alloc) (hh : s.handle = true)
    (hret : 0 ≤ (ctx.write s.fs (d.data Counts)).1)
    (hshort : (tot_len (d.data Counts)).toNat < TFTP_MAX_PAYLOAD_SIZE) :
    (recvBlock ctx s d a).handle = false ∧
      (recvBlock ctx s d a).fs = ctx.close (ctx.write s.fs (d.data Counts)).2 ∧
      (recvBlock ctx s d a).net.sent =
        s.net.sent ++ out a.first s.peer (packet TFTP_ACK (d.sbuf 1) []) := by
  unfold recvBlock
  dsimp only
  rw [answerBlock, if_neg (not_lt.mpr hret), if_pos hshort, send_ack,
    sendPacket_eq, close_handle_eq]
  simp only [hh, if_true, true_and]
  rfl

/-- A full block is written and acknowledged, and the next one is waited for. -/
theorem recvBlock_full (ctx : TftpContext σ) (a : Alloc)
    (hret : 0 ≤ (ctx.write s.fs (d.data Counts)).1)
    (hfull : TFTP_MAX_PAYLOAD_SIZE ≤ (tot_len (d.data Counts)).toNat) :
    recvBlock ctx s d a =
      { s with
        fs := (ctx.write s.fs (d.data Counts)).2, blknum := s.blknum + 1
        net.sent := s.net.sent ++ out a.first s.peer (packet TFTP_ACK (d.sbuf 1) []) } := by
  unfold recvBlock
  dsimp only
  rw [answerBlock, if_neg (not_lt.mpr hret), if_neg (not_lt.mpr hfull), send_ack,
    sendPacket_eq]
  rfl

theorem writeStep_block (hh : s.handle = true) (hf : foreign s d = false)
    (hop : d.sbuf 0 = TFTP_DATA) (hblk : d.sbuf 1 = s.blknum) {s₁ : TftpState σ Counts}
    (hcore : core s₁ = core s) (hsent : s₁.net.sent = s.net.sent) :
    WriteStep ctx s (.recv d a) (pbuf_free (recvBlock ctx s₁ d a)) := by
  simp only [core, Prod.mk.injEq] at hcore
  obtain ⟨hh₁, hlast, hpeer, hnum, hmode, hfs⟩ := hcore
  rw [hh] at hh₁
  rcases lt_or_ge (ctx.write s.fs (d.data Counts)).1 0 with hret | hret
  · have ⟨hclosed, hfs', hsent'⟩ := recvBlock_error ctx a hh₁ (hfs ▸ hret)
    rw [hfs] at hfs'
    rw [hsent] at hsent'
    exact .fails hf hop hblk hret hclosed hfs' hsent' fun y hy => isError_of_mem hy
  · rcases lt_or_ge (tot_len (d.data Counts)).toNat TFTP_MAX_PAYLOAD_SIZE with hlen | hlen
    · have ⟨hclosed, hfs', hsent'⟩ := recvBlock_short ctx a hh₁ (hfs ▸ hret) hlen
      rw [hfs] at hfs'
      rw [hsent, hpeer, hblk] at hsent'
      exact .stores hf hop hblk hret (fun _ => ⟨hclosed, hfs'⟩)
        (fun hfull => absurd hlen (not_lt.mpr hfull)) hsent'
    · have hnext := recvBlock_full ctx (s := s₁) a (hfs ▸ hret) hlen
      refine .stores hf hop hblk hret (fun hshort => absurd hshort (not_lt.mpr hlen)) (fun _ => ?_)
        ?_
      · rw [hnext, core, core, hfs, hnum]
        simp only [pbuf_free, hh₁, hh, hlast, hmode, Prod.mk.injEq, true_and, and_true]
        exact hpeer
      · rw [hnext]
        change s₁.net.sent ++ _ = _
        rw [hsent, hpeer, hblk]

/-- A timeout of a transfer leaves it as it is, but for the last block that may be sent again, or
ends it. -/
theorem tmr_cases (ctx : TftpContext σ) (a : Alloc) (hs : Settled k s) (hh : s.handle = true) :
    (core (step ctx s (.tmr a)) = core s ∧
      ∃ x, (step ctx s (.tmr a)).net.sent = s.net.sent ++ x ∧
        ∀ y ∈ x, ∃ p, s.last_data = some p ∧ y = (s.peer, p)) ∨
    ((step ctx s (.tmr a)).handle = false ∧ (step ctx s (.tmr a)).fs = ctx.close s.fs ∧
      (step ctx s (.tmr a)).net.sent = s.net.sent) := by
  rw [step_tmr hs hh, timeout]
  split_ifs with hlate hretry
  · left
    rw [Bool.and_eq_true, Option.isSome_iff_exists] at hretry
    obtain ⟨⟨p, hp⟩, -⟩ := hretry
    rw [resend_data, sendPacket_eq]
    refine ⟨rfl, _, rfl, ?_⟩
    intro y hy
    change s.last_data = some p at hp
    refine ⟨p, hp, ?_⟩
    rw [mem_out hy]
    change (s.peer, s.last_data.getD []) = _
    rw [hp, Option.getD_some]
  · right
    rw [close_handle_eq]
    simp [hh]
  · exact .inl ⟨rfl, [], (List.append_nil _).symm, fun y hy => by cases hy⟩

theorem noBlock_of_op (h : d.sbuf 0 ≠ TFTP_DATA) : NoBlock s (.recv d a) := by
  intro d' a' heq _ hdata
  cases heq
  exact absurd hdata h

theorem noBlock_of_num (h : d.sbuf 1 ≠ s.blknum) : NoBlock s (.recv d a) := by
  intro d' a' heq _ _
  cases heq
  exact h

/-- An event leaves an upload as it is, ends it, or is the block that it waits for. -/
theorem step_writing (ctx : TftpContext σ) (hs : Settled k s) (hh : s.handle = true)
    (hw : s.mode_write = true) (e : Event) : WriteStep ctx s e (step ctx s e) := by
  cases e with
  | tmr a =>
    have hno : NoBlock s (.tmr a) := by
      intro d a' heq
      cases heq
    rcases tmr_cases ctx a hs hh with ⟨hcore, x, hsent, hx⟩ | ⟨hend, hfs, hsent⟩
    · refine .stays hno hcore hsent fun y hy => ?_
      obtain ⟨p, hp, -⟩ := hx y hy
      cases (hs.last_data_none hw).symm.trans hp
    · exact .ends hno hend hfs hsent
  | recv d a =>
    cases hf : foreign s d with
    | true =>
      have hno : NoBlock s (.recv d a) := by
        intro d' a' heq hf'
        cases heq
        cases hf.symm.trans hf'
      obtain ⟨body, hstep⟩ := step_foreign ctx a hf
      rw [hstep]
      exact .stays hno rfl rfl fun y hy => .inl (isError_of_mem hy)
    | false =>
      rw [step_recv hf]
      obtain ⟨s₁, hs₁⟩ : ∃ s₁, s₁ = { pbuf_alloc s with last_pkt := s.timer, retries := 0 } :=
        ⟨_, rfl⟩
      have hcore : core s₁ = core s := by
        rw [hs₁]
        rfl
      have hsent : s₁.net.sent = s.net.sent := by
        rw [hs₁]
        rfl
      have hh₁ : s₁.handle = true := (congrArg Prod.fst hcore).trans hh
      have hw₁ : s₁.mode_write = true := by
        rw [hs₁]
        exact hw
      have hnum : s₁.blknum = s.blknum := by
        rw [hs₁]
        rfl
      have hrequest (write : Bool) (hop : d.sbuf 0 ≠ TFTP_DATA) :
          WriteStep ctx s (.recv d a) (pbuf_free (recvRequest ctx s₁ d write a)) := by
        rw [recvRequest, if_pos hh₁]
        exact .error (noBlock_of_op hop) hcore hsent
      rw [← hs₁]
      unfold dispatch
      split_ifs with hrrq hwrq hdata hack
      · exact hrequest false (by rw [hrrq]; decide)
      · exact hrequest true (by rw [hwrq]; decide)
      · unfold recvData
        simp only [hh₁, hw₁, Bool.not_true, Bool.false_eq_true, if_false]
        split_ifs with hblk hprev
        · exact writeStep_block hh hf hdata (hblk.trans hnum) hcore hsent
        · have hno := noBlock_of_num (a := a) (hnum ▸ hblk)
          rw [send_ack, sendPacket_eq]
          refine .stays hno hcore (x := out a.first s.peer (packet TFTP_ACK (d.sbuf 1) [])) ?_ ?_
          · rw [← hsent]
            simp only [hs₁]
            rfl
          · intro y hy
            rw [mem_out hy, ← hnum, ← hprev, BitVec.add_sub_cancel]
            exact .inr rfl
        · exact .error (noBlock_of_num (hnum ▸ hblk)) hcore hsent
      · unfold recvAck
        simp only [hh₁, hw₁, Bool.not_true, Bool.false_eq_true, if_false, if_true]
        exact .error (noBlock_of_op hdata) hcore hsent
      · exact .error (noBlock_of_op hdata) hcore hsent

/-! ## Requests -/

theorem not_foreign_of_idle (hs : Settled k s) (hidle : s.handle = false) (d : Datagram) :
    foreign s d = false := by
  obtain ⟨hpeer, -⟩ := hs.idle hidle
  rw [TftpState.peer, Endpoint.mk.injEq] at hpeer
  simp [foreign, hpeer]

/-- A request that starts a transfer has opened the file. -/
theorem recvRequest_open {write : Bool} (hidle : s.handle = false)
    (hopen : (recvRequest ctx s d write a).handle = true) :
    recvRequest ctx s d write a = openFile ctx (sys_timeout s) d write a ∧
      (ctx.open s.fs (d.filename Counts) (d.mode Counts) write).1 = true := by
  have herror (code : BitVec 16) (str : String) (s₁ : TftpState σ Counts)
      (hs₁ : s₁.handle = false) :
      (send_error s₁ d.endpoint code str a.first).handle = false := by
    rw [send_error, sendPacket_eq]
    exact hs₁
  have hidle' : ¬ s.handle = true := by
    rw [hidle]
    exact Bool.false_ne_true
  unfold recvRequest at hopen ⊢
  rw [if_neg hidle'] at hopen ⊢
  split_ifs at hopen ⊢ with hname hmode
  · cases (herror _ _ (sys_timeout s) hidle).symm.trans hopen
  · cases (herror _ _ (sys_timeout s) hidle).symm.trans hopen
  · refine ⟨rfl, ?_⟩
    by_contra hfail
    rw [Bool.not_eq_true] at hfail
    have hfail' : (ctx.open (sys_timeout s).fs (d.filename Counts) (d.mode Counts) write).1 =
        false := hfail
    unfold openFile at hopen
    simp only [hfail', Bool.not_false, if_true] at hopen
    cases (herror _ _ { sys_timeout s with
      handle := false
      fs := (ctx.open (sys_timeout s).fs (d.filename Counts) (d.mode Counts) write).2
      blknum := 1 } rfl).symm.trans hopen

/-- Without a transfer a request is answered by `recvRequest`. -/
theorem step_request (write : Bool) (hs : Settled k s) (hidle : s.handle = false)
    (hop : d.sbuf 0 = if write then TFTP_WRQ else TFTP_RRQ) :
    step ctx s (.recv d a) = pbuf_free
      (recvRequest ctx { pbuf_alloc s with last_pkt := s.timer, retries := 0 } d write a) := by
  rw [step_recv (not_foreign_of_idle hs hidle d), dispatch, hop]
  cases write with
  | false => rfl
  | true => rfl

/-! ## The callbacks -/

variable {φ : Type} [FatFs φ]

theorem opened_write (c : φ) (payloads : List (List Byte)) :
    (fd (tftp_sdcard_write c payloads).2).opened = (fd c).opened := by
  induction payloads generalizing c with
  | nil => rfl
  | cons payload next ih =>
    have hf := write_opened c payload
    rw [tftp_sdcard_write]
    split_ifs with htot hempty
    · rfl
    · exact ih c
    · generalize f_write c payload = r at hf
      obtain ⟨res, m, c'⟩ := r
      simp only at hf ⊢
      split_ifs
      · exact hf
      · exact hf
      · exact (ih c').trans hf

theorem opened_read (c : φ) (n : ℕ) : (fd (tftp_sdcard_read c n).2).opened = (fd c).opened := by
  have hf := read_opened c n
  unfold tftp_sdcard_read
  generalize f_read c n = r at hf
  obtain ⟨res, bytes, c'⟩ := r
  simp only at hf ⊢
  split <;> exact hf

theorem opened_open {c : φ} (hc : (fd c).opened = false) (fname mode : String) (write : Bool) :
    (fd (tftp_sdcard_open c fname mode write).2).opened =
      (tftp_sdcard_open c fname mode write).1 := by
  unfold tftp_sdcard_open
  split
  · exact hc
  · by_cases hres : (f_open c fname write write).1 = .FR_OK
    · simp only [hres, decide_true]
      rw [open_fd c fname write write hres]
    · simp only [hres, decide_false]
      exact open_fails c fname write write hres hc

theorem files_ctxt : Files ctxt fun c : φ => (fd c).opened where
  open_file := fun _ _ _ _ hc => opened_open hc _ _ _
  close := close_opened
  read := opened_read
  write := opened_write

/-- After every run the server holds no buffer but that of the last block of a download, a transfer
has a timeout that will end it, and the file is open exactly while there is a transfer. -/
theorem server_gives_back {ν : Type} [Stack ν] {c : φ} {net : ν}
    (hnet : Stack.counts net = Counts.zero) (hc : (fd c).opened = false) (evs : List Event) :
    Settled 0 (run (step ctxt) (tftp_init c net) evs).seen ∧
      (fd (run (step ctxt) (tftp_init c net) evs).fs).opened =
        (run (step ctxt) (tftp_init c net) evs).handle := by
  have hinit : (tftp_init c net).seen = tftp_init c Counts.zero := by
    rw [← hnet]
    rfl
  obtain ⟨hset, htracks⟩ := settled_and_tracks files_ctxt hc evs
  rw [← hinit, ← seen_run] at hset htracks
  exact ⟨hset, htracks⟩

/-- A card with a file of one byte and one of 513. -/
def card : Card where
  files := fun f =>
    if f = "F" then some [0x31]
    else if f = "G" then some (List.replicate 512 0x31 ++ [0x32]) else none
  fd := ⟨"", false, false, 0⟩
  disk := []

def someone : Endpoint := ⟨0x0A000001, 4000⟩

def stranger : Endpoint := ⟨0x0A000002, 4001⟩

/-- A download for whose first block there is no buffer: the file is open and a timeout is set, and
no buffer is held. Then the second block is sent, and its buffer kept. -/
theorem server_gives_back_noBuffer :
    let t := run (step ctxt) (tftp_init card Counts.zero)
      [.recv (requestFor someone TFTP_RRQ [0x47]) ⟨false, true⟩, .tmr buffers]
    let t' := run (step ctxt) (tftp_init card Counts.zero)
      [.recv (requestFor someone TFTP_RRQ [0x47]) ⟨false, true⟩, .tmr buffers,
        arrives someone (packet TFTP_ACK 1 [])]
    (t.handle = true ∧ t.net.pbufs = 0 ∧ t.net.timeouts = 1 ∧ Settled 0 t.seen ∧
      t.fs.fd.opened = t.handle) ∧
    t'.handle = true ∧ t'.net.pbufs = 1 ∧ t'.net.timeouts = 1 ∧ Settled 0 t'.seen ∧
      t'.fs.fd.opened = t'.handle :=
  ⟨⟨by decide +kernel, by decide +kernel, by decide +kernel, server_gives_back rfl rfl _⟩,
    by decide +kernel, by decide +kernel, by decide +kernel, server_gives_back rfl rfl _⟩

/-! ## Uploads -/

theorem packet_inj {op op' x x' : BitVec 16} {body body' : List Byte}
    (h : packet op x body = packet op' x' body') : op = op' ∧ x = x' ∧ body = body' := by
  simp only [packet, List.append_assoc] at h
  obtain ⟨hop, h⟩ := List.append_inj h rfl
  obtain ⟨hx, hbody⟩ := List.append_inj h rfl
  exact ⟨toBe16_inj hop, toBe16_inj hx, hbody⟩

theorem sbuf_packet (peer : Endpoint) (op x : BitVec 16) (body : List Byte) :
    (datagram peer (packet op x body)).sbuf 0 = op ∧
      (datagram peer (packet op x body)).sbuf 1 = x := by
  constructor
  · exact be16_extract op
  · exact be16_extract x

theorem data_packet (peer : Endpoint) (op x : BitVec 16) (body : List Byte) :
    (datagram peer (packet op x body)).data Counts = [body] := by
  have hlen : ¬ (packet op x body).length < TFTP_HEADER_LENGTH := by
    simp [packet, toBe16, TFTP_HEADER_LENGTH]
  rw [Datagram.data, Datagram.payloads, Stack.remove_header, datagram]
  exact if_neg hlen

theorem not_isError {op x : BitVec 16} {body : List Byte} (h : op ≠ TFTP_ERROR) :
    ¬ IsError (packet op x body) := by
  rintro ⟨code, body', heq⟩
  exact h (packet_inj heq).1

section Upload

variable {φ : Type} [FatFs φ] {fname : String} {old data written : List Byte} {n : ℕ} {c : φ}

/-- However the block ends, a part of it is written. -/
theorem writing_part (h : Tftp.Writing c fname old written) (payloads : List (List Byte)) :
    ∃ m, Tftp.Writing (tftp_sdcard_write c payloads).2 fname old
      (written ++ payloads.flatten.take m) := by
  induction payloads generalizing c written with
  | nil => exact ⟨0, by simpa [tftp_sdcard_write] using h⟩
  | cons payload next ih =>
    rw [tftp_sdcard_write]
    split_ifs with htot hempty
    · exact ⟨0, by simpa using h⟩
    · rw [List.flatten_cons, List.eq_nil_of_length_eq_zero hempty, List.nil_append]
      exact ih h
    · have hw := h.f_write payload
      have hle := write_le c payload
      generalize f_write c payload = r at hw hle
      obtain ⟨res, m, c'⟩ := r
      simp only at hw hle ⊢
      have htake : (payload :: next).flatten.take m = payload.take m := by
        rw [List.flatten_cons, List.take_append_of_le_length hle]
      split_ifs with hres hm
      · exact ⟨m, by rwa [htake]⟩
      · exact ⟨m, by rwa [htake]⟩
      · obtain ⟨m', hnext⟩ := ih hw
        refine ⟨payload.length + m', ?_⟩
        rw [not_not.mp hm, List.take_length, List.append_assoc] at hnext
        rwa [List.flatten_cons, List.take_length_add_append]

/-- The file has the blocks before block `n`, and what else there is of the data, over the old
contents. -/
def Stored (fname : String) (old data : List Byte) (n : ℕ) (c : φ) : Prop :=
  ∃ written, before TFTP_MAX_PAYLOAD_SIZE data n <+: written ∧ written <+: data ∧
    files c fname = some (written ++ old.drop written.length)

/-- An upload that is on waits for block `n` and has the ones before it. -/
structure Uploading (peer : Endpoint) (fname : String) (old data : List Byte) (n : ℕ)
    (s : TftpState φ Counts) : Prop where
  settled : Settled 0 s
  handle : s.handle = true
  mode_write : s.mode_write = true
  peer : s.peer = peer
  blknum : s.blknum = BitVec.ofNat 16 (n + 1)
  lt : n < count TFTP_MAX_PAYLOAD_SIZE data
  file : Tftp.Writing s.fs fname old (before TFTP_MAX_PAYLOAD_SIZE data n)

theorem stored_of_writing (h : Tftp.Writing c fname old written)
    (hpre : before TFTP_MAX_PAYLOAD_SIZE data n <+: written) (hdata : written <+: data) :
    Stored fname old data n (tftp_sdcard_close c) :=
  ⟨written, hpre, hdata, (congrFun (close_files c) fname).trans h.file⟩

variable {peer : Endpoint} {s s' : TftpState φ Counts} {e : Event}

/-- An acknowledgement is for a block that is stored. -/
def AcksStored (peer : Endpoint) (n : ℕ) (x : List (Endpoint × List Byte)) : Prop :=
  ∀ dst num, (dst, packet TFTP_ACK num []) ∈ x →
    dst = peer ∧ ∃ k ≤ n, num = BitVec.ofNat 16 k

theorem acksStored_of_isError {x : List (Endpoint × List Byte)} (h : ∀ y ∈ x, IsError y.2) :
    AcksStored peer n x := by
  intro dst num hmem
  exact absurd (h _ hmem) (not_isError (by decide))

theorem acksStored_of_ack {x : List (Endpoint × List Byte)} {m : ℕ} (hm : m ≤ n)
    (h : ∀ y ∈ x, IsError y.2 ∨ y = (peer, packet TFTP_ACK (BitVec.ofNat 16 m) [])) :
    AcksStored peer n x := by
  intro dst num hmem
  rcases h _ hmem with herr | heq
  · exact absurd herr (not_isError (by decide))
  · obtain ⟨rfl, hp⟩ := Prod.mk.inj heq
    exact ⟨rfl, m, hm, (packet_inj hp).2.1⟩

theorem AcksStored.mono {x : List (Endpoint × List Byte)} {m : ℕ} (h : AcksStored peer n x)
    (hnm : n ≤ m) : AcksStored peer m x := by
  intro dst num hmem
  obtain ⟨hdst, k, hk, hnum⟩ := h dst num hmem
  exact ⟨hdst, k, hk.trans hnm, hnum⟩

theorem AcksStored.append {x y : List (Endpoint × List Byte)} (hx : AcksStored peer n x)
    (hy : AcksStored peer n y) : AcksStored peer n (x ++ y) := by
  intro dst num hmem
  rcases List.mem_append.mp hmem with h | h
  · exact hx dst num h
  · exact hy dst num h

/-- The block that an upload waits for is block `n`. -/
theorem OffersBlocks.block {s : TftpState σ Counts} (h : OffersBlocks data n s (.recv d a))
    (hf : foreign s d = false) (hop : d.sbuf 0 = TFTP_DATA)
    (hblk : d.sbuf 1 = BitVec.ofNat 16 (n + 1)) :
    (d.data Counts).flatten = block TFTP_MAX_PAYLOAD_SIZE data n := by
  obtain ⟨k, -, ht, hnum, hdata⟩ := h d a rfl hf hop
  have hkn : k + 1 = n + 1 := by
    refine Timely.eq_of_ofNat (w := 16) ?_ (hnum.symm.trans hblk)
    obtain ⟨h1, h2⟩ := ht
    constructor
    · rw [show 2 ^ 16 = 65536 from rfl]
      omega
    · rw [show 2 ^ 16 = 65536 from rfl]
      omega
  rwa [Nat.succ.inj hkn] at hdata

/-- A block of the data, under its number. -/
theorem offersBlocks_block {k : ℕ} (hk : k < count TFTP_MAX_PAYLOAD_SIZE data)
    (ht : Timely 65536 n k) (s : TftpState σ Counts) (peer : Endpoint) :
    OffersBlocks data n s (arrives peer
      (packet TFTP_DATA (BitVec.ofNat 16 (k + 1)) (block TFTP_MAX_PAYLOAD_SIZE data k))) := by
  intro d a heq _ _
  obtain ⟨rfl, rfl⟩ := Event.recv.inj heq
  refine ⟨k, hk, ht, (sbuf_packet _ _ _ _).2, ?_⟩
  rw [data_packet, List.flatten_cons, List.flatten_nil, List.append_nil]

theorem stores_eq_false (hno : NoBlock s e) : stores s e = false := by
  cases e with
  | tmr a => rfl
  | recv d a =>
    by_contra hst
    simp only [stores, Bool.not_eq_false, Bool.and_eq_true, Bool.not_eq_true', beq_iff_eq] at hst
    obtain ⟨⟨⟨hf, hop⟩, hblk⟩, -⟩ := hst
    exact hno d a rfl hf hop hblk

/-- An event of an upload: it goes on or has ended, and what is acknowledged is stored. -/
theorem Uploading.step (h : Uploading peer fname old data n s) (he : OffersBlocks data n s e)
    {n' : ℕ} (hn' : n' = if stores s e then n + 1 else n) :
    (Uploading peer fname old data n' (step ctxt s e) ∨
      (step ctxt s e).handle = false ∧ n' ≤ count TFTP_MAX_PAYLOAD_SIZE data ∧
        Stored fname old data n' (step ctxt s e).fs) ∧
    ∃ x, (step ctxt s e).net.sent = s.net.sent ++ x ∧ AcksStored peer n' x := by
  have hset := h.settled.step ctxt e
  have hcases := step_writing ctxt h.settled h.handle h.mode_write e
  generalize TftpServer.step ctxt s e = s' at hset hcases ⊢
  cases hcases with
  | @stays _ _ x hno hcore hsent hx =>
    rw [stores_eq_false hno, if_neg Bool.false_ne_true] at hn'
    subst hn'
    obtain ⟨hh, -, hpeer, hnum, hmode, hfs⟩ := core_eq hcore
    constructor
    · left
      refine ⟨hset, hh.trans h.handle, hmode.trans h.mode_write, hpeer.trans h.peer,
        hnum.trans h.blknum, h.lt, ?_⟩
      rw [hfs]
      exact h.file
    · refine ⟨x, hsent, acksStored_of_ack (le_refl n') fun y hy => ?_⟩
      have hprev : s.blknum - 1 = BitVec.ofNat 16 n' := by
        rw [h.blknum]
        exact BitVec.eq_of_toNat_eq (by simp [BitVec.toNat_sub]; omega)
      rw [← hprev, ← h.peer]
      exact hx y hy
  | ends hno hh hfs hsent =>
    rw [stores_eq_false hno, if_neg Bool.false_ne_true] at hn'
    subst hn'
    constructor
    · refine .inr ⟨hh, h.lt.le, ?_⟩
      rw [hfs]
      exact stored_of_writing h.file List.prefix_rfl (before_prefix_data ..)
    · exact ⟨[], by rw [hsent, List.append_nil], fun _ _ hmem => by cases hmem⟩
  | @fails d a _ x hf hop hblk hret hh hfs hsent hx =>
    have hst : stores s (.recv d a) = false := by
      have hneg : ¬ 0 ≤ (tftp_sdcard_write s.fs (d.data Counts)).1 := not_le.mpr hret
      simp only [stores, decide_eq_false hneg, Bool.and_false]
    rw [hst, if_neg Bool.false_ne_true] at hn'
    subst hn'
    have hdata := he.block hf hop (hblk.trans h.blknum)
    obtain ⟨m, hw⟩ := writing_part h.file (d.data Counts)
    rw [hdata] at hw
    constructor
    · refine .inr ⟨hh, h.lt.le, ?_⟩
      rw [hfs]
      refine stored_of_writing hw (List.prefix_append ..) ?_
      -- a part of block `n` after the data before it
      refine List.IsPrefix.trans ?_ (before_prefix_data TFTP_MAX_PAYLOAD_SIZE data (n' + 1))
      rw [← before_append_block]
      exact (List.prefix_append_right_inj _).mpr (List.take_prefix ..)
    · exact ⟨x, hsent, acksStored_of_isError hx⟩
  | @stores d a _ hf hop hblk hret hshort hfull hsent =>
    have hst : stores s (.recv d a) = true := by
      have hpos : 0 ≤ (tftp_sdcard_write s.fs (d.data Counts)).1 := hret
      simp [stores, hf, hop, hblk, hpos]
    rw [hst, if_pos rfl] at hn'
    subst hn'
    have hdata := he.block hf hop (hblk.trans h.blknum)
    have hlen : (d.data Counts).flatten.length < 2 ^ 16 := by
      rw [hdata, length_block, TFTP_MAX_PAYLOAD_SIZE]
      omega
    have hw := h.file.block hlen (not_lt.mpr hret)
    rw [hdata, before_append_block] at hw
    have htot : (tot_len (d.data Counts)).toNat = (block TFTP_MAX_PAYLOAD_SIZE data n).length := by
      rw [tot_len, BitVec.toNat_ofNat, Nat.mod_eq_of_lt hlen, hdata]
    have hlast := length_block_lt_iff (by decide) h.lt
    rw [← htot] at hlast
    constructor
    · by_cases hsize : (tot_len (d.data Counts)).toNat < TFTP_MAX_PAYLOAD_SIZE
      · obtain ⟨hh, hfs⟩ := hshort hsize
        refine .inr ⟨hh, h.lt, ?_⟩
        rw [hfs]
        exact stored_of_writing hw List.prefix_rfl (before_prefix_data ..)
      · obtain ⟨hh, -, hpeer, hnum, hmode, hfs⟩ := core_eq (hfull (not_lt.mp hsize))
        have hnext : n + 1 ≠ count TFTP_MAX_PAYLOAD_SIZE data := mt hlast.mpr hsize
        have hlt := h.lt
        left
        refine ⟨hset, hh.trans h.handle, hmode.trans h.mode_write, hpeer.trans h.peer, ?_, by omega,
          ?_⟩
        · rw [hnum]
          simp only [h.blknum]
          exact BitVec.eq_of_toNat_eq (by simp)
        · rw [hfs]
          exact hw
    · refine ⟨_, hsent, acksStored_of_ack le_rfl fun y hy => .inr ?_⟩
      rw [mem_out hy, h.peer, h.blknum]

/-- A write request that is accepted starts an upload. -/
theorem uploading_start {s : TftpState φ Counts} (data : List Byte) (hs : Settled 0 s)
    (hidle : s.handle = false) (hop : d.sbuf 0 = TFTP_WRQ)
    (hopen : (TftpServer.step ctxt s (.recv d a)).handle = true) :
    Uploading d.endpoint (str (d.filename Counts)) (requested s d) data 0
        (TftpServer.step ctxt s (.recv d a)) ∧
      ∃ x, (TftpServer.step ctxt s (.recv d a)).net.sent = s.net.sent ++ x ∧
        AcksStored d.endpoint 0 x := by
  have hset := hs.step ctxt (.recv d a)
  have hstep : TftpServer.step ctxt s (.recv d a) = pbuf_free
      (recvRequest ctxt { pbuf_alloc s with last_pkt := s.timer, retries := 0 } d true a) :=
    step_request true hs hidle hop
  rw [hstep] at hopen hset ⊢
  have hidle₁ : ({ pbuf_alloc s with last_pkt := s.timer, retries := 0 } :
      TftpState φ Counts).handle = false := hidle
  obtain ⟨heq, hfile⟩ := recvRequest_open hidle₁ hopen
  rw [heq] at hset ⊢
  clear heq hopen hstep
  change (tftp_sdcard_open s.fs (str (d.filename Counts)) (str (d.mode Counts)) true).1 =
    true at hfile
  have hmode := (Tftp.open_of_handle hfile).1
  rw [hmode] at hfile
  have hw := Tftp.writing_open hfile
  have hctx : ctxt.open s.fs (d.filename Counts) (d.mode Counts) true =
      (true, (tftp_sdcard_open s.fs (str (d.filename Counts)) "octet" true).2) := by
    change tftp_sdcard_open s.fs (str (d.filename Counts)) (str (d.mode Counts)) true = _
    rw [hmode]
    exact Prod.ext hfile rfl
  have hopened : openFile ctxt
      (sys_timeout { pbuf_alloc s with last_pkt := s.timer, retries := 0 }) d true a =
      { s with
        last_pkt := s.timer, retries := 0
        net.timeouts := s.net.timeouts + 1, net.pbufs := s.net.pbufs + 1
        handle := true, fs := (tftp_sdcard_open s.fs (str (d.filename Counts)) "octet" true).2
        blknum := 1, addr := d.addr, port := d.port, mode_write := true
        net.sent := s.net.sent ++ out a.first d.endpoint (packet TFTP_ACK 0 []) } := by
    unfold openFile
    simp only [sys_timeout, pbuf_alloc, hctx, Bool.not_true, Bool.false_eq_true, if_false, if_true,
      send_ack, sendPacket_eq]
    rfl
  rw [hopened] at hset ⊢
  refine ⟨⟨hset, rfl, rfl, rfl, rfl, Nat.succ_pos _, ?_⟩, _, rfl, ?_⟩
  · rw [before_zero]
    exact hw
  · intro dst num hmem
    obtain ⟨rfl, hp⟩ := Prod.mk.inj (mem_out hmem)
    exact ⟨rfl, 0, le_rfl, (packet_inj hp).2.1⟩

/-- Along an upload. -/
theorem Upload.inv {s₀ t : TftpState φ Counts} (h : Upload data s₀ n t)
    (h₀ : Uploading peer fname old data 0 s₀) :
    (Uploading peer fname old data n t ∨
      t.handle = false ∧ n ≤ count TFTP_MAX_PAYLOAD_SIZE data ∧ Stored fname old data n t.fs) ∧
    ∃ x, t.net.sent = s₀.net.sent ++ x ∧ AcksStored peer n x := by
  induction h with
  | start => exact ⟨.inl h₀, [], (List.append_nil _).symm, fun _ _ hmem => by cases hmem⟩
  | @event n s e h hopen hpeer ih =>
    obtain ⟨hstate, x, hx, hacks⟩ := ih
    rcases hstate with hup | ⟨hclosed, -⟩
    · obtain ⟨hnext, y, hy, hacks'⟩ := hup.step hpeer rfl
      refine ⟨hnext, x ++ y, by rw [hy, hx, List.append_assoc], ?_⟩
      refine AcksStored.append (hacks.mono ?_) hacks'
      split <;> omega
    · cases hclosed.symm.trans hopen

/-- What an upload leaves in the file, over the counts. -/
theorem upload_stored {s t : TftpState φ Counts} (hs : Reachable ctxt s) (hidle : s.handle = false)
    (hop : d.sbuf 0 = TFTP_WRQ) (hopen : (TftpServer.step ctxt s (.recv d a)).handle = true)
    (h : Upload data (TftpServer.step ctxt s (.recv d a)) n t) :
    n ≤ count TFTP_MAX_PAYLOAD_SIZE data ∧
      Stored (str (d.filename Counts)) (requested s d) data n t.fs ∧
      ∃ x, t.net.sent = s.net.sent ++ x ∧ AcksStored d.endpoint n x := by
  obtain ⟨h₀, x, hx, hacks⟩ := uploading_start data hs.settled hidle hop hopen
  obtain ⟨hstate, y, hy, hacks'⟩ := h.inv h₀
  refine ⟨?_, ?_, x ++ y, ?_, (hacks.mono (Nat.zero_le n)).append hacks'⟩
  · rcases hstate with hup | ⟨-, hle, -⟩
    · exact hup.lt.le
    · exact hle
  · rcases hstate with hup | ⟨-, -, hst⟩
    · exact ⟨_, List.prefix_rfl, before_prefix_data .., hup.file.file⟩
    · exact hst
  · rw [hy, hx, List.append_assoc]

/-- Over every order of datagrams and timeouts, an upload leaves in the file the blocks that it has
acknowledged, each once and in order, over what the file held before; when all blocks are
acknowledged, that is all the data. -/
theorem upload_stores_blocks {ν : Type} [Stack ν] {s t : TftpState φ ν} (hs : Reachable ctxt s)
    (hidle : s.handle = false) (hop : d.sbuf 0 = TFTP_WRQ)
    (hopen : (TftpServer.step ctxt s (.recv d a)).handle = true)
    (h : Upload data (TftpServer.step ctxt s (.recv d a)) n t) :
    (∃ written, before TFTP_MAX_PAYLOAD_SIZE data n <+: written ∧ written <+: data ∧
      (n = count TFTP_MAX_PAYLOAD_SIZE data → written = data) ∧
      files t.fs (str (d.filename ν)) =
        some (written ++ (requested s d).drop written.length)) ∧
    n ≤ count TFTP_MAX_PAYLOAD_SIZE data ∧
    ∃ x, t.sent = s.sent ++ x ∧ ∀ dst num, (dst, packet TFTP_ACK num []) ∈ x →
      dst = d.endpoint ∧ ∃ k ≤ n, num = BitVec.ofNat 16 k := by
  have hopen' := (handle_step_seen ctxt s (.recv d a)).trans hopen
  obtain ⟨hle, ⟨written, hpre, hdata, hfile⟩, hsent⟩ :=
    upload_stored hs.seen hidle hop hopen' h.seen_step
  rw [requested_seen, ← filename_eq (ν := ν)] at hfile
  refine ⟨⟨written, hpre, hdata, ?_, hfile⟩, hle, hsent⟩
  intro hn
  rw [before_eq_data (by decide) hn.ge] at hpre
  exact hdata.eq_of_length_le hpre.length_le

/-- 513 bytes, which are two blocks. -/
def twoBlocks : List Byte := List.replicate 512 0x39 ++ [0x38]

/-- A block of the data. -/
def dataBlock (peer : Endpoint) (k : ℕ) : Event :=
  arrives peer
    (packet TFTP_DATA (BitVec.ofNat 16 (k + 1)) (block TFTP_MAX_PAYLOAD_SIZE twoBlocks k))

/-- Two blocks are uploaded over a byte, though a stranger sends one, the first block comes twice
and a timeout expires. -/
theorem upload_stores_two :
    let s := step ctxt (tftp_init card Counts.zero)
      (.recv (requestFor someone TFTP_WRQ [0x46]) buffers)
    let s₁ := step ctxt s (dataBlock stranger 0)
    let s₂ := step ctxt s₁ (dataBlock someone 0)
    let s₃ := step ctxt s₂ (dataBlock someone 0)
    let s₄ := step ctxt s₃ (.tmr buffers)
    let t := step ctxt s₄ (dataBlock someone 1)
    t.fs.files "F" = some twoBlocks ∧
      sentTo someone t.sent = [packet TFTP_ACK 0 [], packet TFTP_ACK 1 [], packet TFTP_ACK 1 [],
        packet TFTP_ACK 2 []] := by
  intro s s₁ s₂ s₃ s₄ t
  have hs : Reachable ctxt (tftp_init card Counts.zero) := ⟨card, Counts.zero, [], rfl, rfl⟩
  have hcount : count TFTP_MAX_PAYLOAD_SIZE twoBlocks = 2 := by decide +kernel
  have h0 : Upload twoBlocks s 0 s := .start
  have h1 : Upload twoBlocks s _ s₁ :=
    h0.event (by decide +kernel) (offersBlocks_block (by omega) ⟨by decide, by decide⟩ s stranger)
  have h2 : Upload twoBlocks s _ s₂ := h1.event (by decide +kernel)
    (offersBlocks_block (by omega) ⟨by decide +kernel, by decide +kernel⟩ s₁ someone)
  have h3 : Upload twoBlocks s _ s₃ := h2.event (by decide +kernel)
    (offersBlocks_block (by omega) ⟨by decide +kernel, by decide +kernel⟩ s₂ someone)
  have h4 : Upload twoBlocks s _ s₄ := h3.event (by decide +kernel) nofun
  have h5 : Upload twoBlocks s _ t := h4.event (by decide +kernel)
    (offersBlocks_block (by omega) ⟨by decide +kernel, by decide +kernel⟩ s₄ someone)
  obtain ⟨⟨written, -, -, hall, hfile⟩, -⟩ :=
    upload_stores_blocks hs rfl rfl (by decide +kernel) h5
  have hrest : (requested (tftp_init card Counts.zero)
      (requestFor someone TFTP_WRQ [0x46])).drop twoBlocks.length = [] := by
    decide +kernel
  have hname : str ((requestFor someone TFTP_WRQ [0x46]).filename Counts) = "F" := by decide +kernel
  rw [hall (by decide +kernel), hname] at hfile
  refine ⟨hfile.trans (congrArg some ?_), by decide +kernel⟩
  exact (congrArg (twoBlocks ++ ·) hrest).trans (List.append_nil _)

end Upload

/-! ## Downloads -/

/-- The event does not ask for the next block. -/
def NoAdvance (s : TftpState σ Counts) (e : Event) : Prop :=
  ∀ d a, e = .recv d a → foreign s d = false → d.sbuf 0 = TFTP_ACK → d.sbuf 1 = s.blknum →
    lastpkt s = true

/-- An event during a download. -/
inductive ReadStep (ctx : TftpContext σ) (s : TftpState σ Counts) :
    Event → TftpState σ Counts → Prop where
  | stays {e : Event} {s' : TftpState σ Counts} {x : List (Endpoint × List Byte)}
      (hno : NoAdvance s e) (hcore : core s' = core s) (hsent : s'.net.sent = s.net.sent ++ x)
      (hx : ∀ y ∈ x, IsError y.2 ∨ ∃ p, s.last_data = some p ∧ y = (s.peer, p)) :
      ReadStep ctx s e s'
  | ends {e : Event} {s' : TftpState σ Counts} (hno : NoAdvance s e) (hh : s'.handle = false)
      (hfs : s'.fs = ctx.close s.fs) (hsent : s'.net.sent = s.net.sent) : ReadStep ctx s e s'
  | advances {d : Datagram} {a : Alloc} {s₁ s₂ : TftpState σ Counts} (hf : foreign s d = false)
      (hop : d.sbuf 0 = TFTP_ACK) (hblk : d.sbuf 1 = s.blknum) (hlast : lastpkt s = false)
      (hcore : core s₁ = core { s with blknum := s.blknum + 1 }) (hsent : s₁.net.sent = s.net.sent)
      (hsend : SendData ctx s₁ a s₂) : ReadStep ctx s (.recv d a) (pbuf_free s₂)

theorem ReadStep.error {e : Event} {dst : Endpoint} {code : BitVec 16} {str : String} {alloc : Bool}
    {s₁ : TftpState σ Counts} (hno : NoAdvance s e) (hcore : core s₁ = core s)
    (hsent : s₁.net.sent = s.net.sent) :
    ReadStep ctx s e (pbuf_free (send_error s₁ dst code str alloc)) := by
  rw [send_error, sendPacket_eq]
  refine .stays hno hcore (x := out alloc dst (packet TFTP_ERROR code (cstring str))) ?_ ?_
  · rw [← hsent]
    rfl
  · exact fun y hy => .inl (isError_of_mem hy)

theorem noAdvance_of_op (h : d.sbuf 0 ≠ TFTP_ACK) : NoAdvance s (.recv d a) := by
  intro d' a' heq _ hack
  cases heq
  exact absurd hack h

/-- An event leaves a download as it is, ends it, or asks for the next block. -/
theorem step_reading (ctx : TftpContext σ) (hs : Settled k s) (hh : s.handle = true)
    (hw : s.mode_write = false) (e : Event) : ReadStep ctx s e (step ctx s e) := by
  cases e with
  | tmr a =>
    have hno : NoAdvance s (.tmr a) := by
      intro d a' heq
      cases heq
    rcases tmr_cases ctx a hs hh with ⟨hcore, x, hsent, hx⟩ | ⟨hend, hfs, hsent⟩
    · exact .stays hno hcore hsent fun y hy => .inr (hx y hy)
    · exact .ends hno hend hfs hsent
  | recv d a =>
    cases hf : foreign s d with
    | true =>
      have hno : NoAdvance s (.recv d a) := by
        intro d' a' heq hf'
        cases heq
        cases hf.symm.trans hf'
      obtain ⟨body, hstep⟩ := step_foreign ctx a hf
      rw [hstep]
      exact .stays hno rfl rfl fun y hy => .inl (isError_of_mem hy)
    | false =>
      rw [step_recv hf]
      obtain ⟨s₁, hs₁⟩ : ∃ s₁, s₁ = { pbuf_alloc s with last_pkt := s.timer, retries := 0 } :=
        ⟨_, rfl⟩
      have hcore : core s₁ = core s := by
        rw [hs₁]
        rfl
      have hsent : s₁.net.sent = s.net.sent := by
        rw [hs₁]
        rfl
      obtain ⟨hh₁, hl₁, hpeer, hnum, hw₁, hfs⟩ := core_eq hcore
      rw [hh] at hh₁
      rw [hw] at hw₁
      have hlast : lastpkt s₁ = lastpkt s := by
        rw [lastpkt, lastpkt, hl₁]
      have hrequest (write : Bool) (hop : d.sbuf 0 ≠ TFTP_ACK) :
          ReadStep ctx s (.recv d a) (pbuf_free (recvRequest ctx s₁ d write a)) := by
        rw [recvRequest, if_pos hh₁]
        exact .error (noAdvance_of_op hop) hcore hsent
      rw [← hs₁]
      unfold dispatch
      split_ifs with hrrq hwrq hdata hack
      · exact hrequest false (by rw [hrrq]; decide)
      · exact hrequest true (by rw [hwrq]; decide)
      · unfold recvData
        simp only [hh₁, hw₁, Bool.not_true, Bool.not_false, Bool.false_eq_true, if_false, if_true]
        exact .error (noAdvance_of_op (by rw [hdata]; decide)) hcore hsent
      · have hopen : ¬ (!s₁.handle) = true := by simp [hh₁]
        have hread : ¬ s₁.mode_write = true := by simp [hw₁]
        rw [recvAck, if_neg hopen, if_neg hread, hlast]
        split_ifs with hblk hnext
        · refine .error ?_ hcore hsent
          intro d' a' heq _ _ hnum'
          cases heq
          exact absurd (hnum'.trans hnum.symm) hblk
        · have hsend := send_data_cases ctx { s₁ with blknum := s₁.blknum + 1 } a
          have hcore' : core { s₁ with blknum := s₁.blknum + 1 } =
              core { s with blknum := s.blknum + 1 } := by
            simp only [core, hh₁, hh, hl₁, hnum, hw₁, hw, hfs, Prod.mk.injEq, true_and, and_true]
            exact hpeer
          refine .advances hf hack ((not_not.mp hblk).trans hnum) ?_ hcore' hsent hsend
          simpa using hnext
        · have hno : NoAdvance s (.recv d a) := by
            intro d' a' _ _ _ _
            simpa using hnext
          rw [close_handle_eq]
          refine .ends hno rfl ?_ hsent
          simp only [pbuf_free, hh₁, if_true, hfs]
      · exact .error (noAdvance_of_op hack) hcore hsent

section Download

variable {φ : Type} [FatFs φ] {fname : String} {data : List Byte} {n m : ℕ} {c : φ}
  {peer : Endpoint} {s : TftpState φ Counts} {e : Event}

/-- The file is open for reading, before block `m`. -/
structure ReadTo (fname : String) (data : List Byte) (m : ℕ) (c : φ) : Prop where
  file : files c fname = some data
  name : (fd c).fname = fname
  opened : (fd c).opened = true
  write : (fd c).write = false
  fptr : (fd c).fptr = (before TFTP_MAX_PAYLOAD_SIZE data m).length

/-- A read returns the next block, or an error; the files stay. -/
theorem ReadTo.read (h : ReadTo fname data m c) (hm : m < count TFTP_MAX_PAYLOAD_SIZE data) :
    files (tftp_sdcard_read c TFTP_MAX_PAYLOAD_SIZE).2 = files c ∧
      ∀ bytes, (tftp_sdcard_read c TFTP_MAX_PAYLOAD_SIZE).1 = some bytes →
        bytes = block TFTP_MAX_PAYLOAD_SIZE data m ∧
          ReadTo fname data (m + 1) (tftp_sdcard_read c TFTP_MAX_PAYLOAD_SIZE).2 := by
  obtain ⟨hfile, hname, hopen, hwrite, hptr⟩ := h
  have hfiles := read_files c TFTP_MAX_PAYLOAD_SIZE
  have hread := read_ok c TFTP_MAX_PAYLOAD_SIZE hopen hwrite
  have hblock : (data.drop (fd c).fptr).take TFTP_MAX_PAYLOAD_SIZE =
      block TFTP_MAX_PAYLOAD_SIZE data m := by
    rw [hptr, length_before hm, block]
  rw [hname, hfile, Option.getD_some, hblock] at hread
  unfold tftp_sdcard_read
  generalize f_read c TFTP_MAX_PAYLOAD_SIZE = r at hfiles hread
  obtain ⟨res, buf, c'⟩ := r
  simp only at hfiles hread ⊢
  split_ifs with hres
  · refine ⟨hfiles, fun bytes hbytes => ?_⟩
    cases hbytes
  · obtain ⟨rfl, hfd⟩ := hread (not_not.mp hres)
    refine ⟨hfiles, fun bytes hbytes => ⟨(Option.some.inj hbytes).symm, ?_⟩⟩
    refine ⟨by rw [hfiles, hfile], by rw [hfd, hname], by rw [hfd, hopen], by rw [hfd, hwrite], ?_⟩
    rw [hfd, hptr, ← before_append_block, List.length_append]

/-- A file that is opened for reading is there, and stays as it is. -/
theorem readTo_open (h : (tftp_sdcard_open c fname "octet" false).1 = true) :
    ∃ c', tftp_sdcard_open c fname "octet" false = (true, c') ∧ files c' = files c ∧
      ReadTo fname ((files c fname).getD []) 0 c' := by
  obtain ⟨-, hok, hcard⟩ := Tftp.open_of_handle h
  have hfd := open_fd c fname false false hok
  have hfiles := open_existing c fname false
  obtain ⟨data, hdata⟩ := Option.isSome_iff_exists.mp (open_missing c fname false hok)
  refine ⟨(f_open c fname false false).2, Prod.ext h hcard, hfiles, ?_⟩
  refine ⟨?_, by rw [hfd], by rw [hfd], by rw [hfd], by rw [hfd, before_zero]; rfl⟩
  rw [hfiles, hdata]
  rfl

/-- A download that is on has block `n` to send, or no buffer for it; block numbers start with 1. -/
structure Downloading (peer : Endpoint) (contents : String → Option (List Byte)) (fname : String)
    (data : List Byte) (n : ℕ) (s : TftpState φ Counts) : Prop where
  settled : Settled 0 s
  handle : s.handle = true
  mode_write : s.mode_write = false
  peer : s.peer = peer
  card : files s.fs = contents
  blknum : s.blknum = BitVec.ofNat 16 n
  pos : 0 < n
  le : n ≤ count TFTP_MAX_PAYLOAD_SIZE data
  file : (s.last_data =
      some (packet TFTP_DATA (BitVec.ofNat 16 n) (block TFTP_MAX_PAYLOAD_SIZE data (n - 1))) ∧
    ReadTo fname data n s.fs) ∨ (s.last_data = none ∧ ReadTo fname data (n - 1) s.fs)

/-- Block numbers up to `n` are sent with their blocks. -/
def SendsBlocks (peer : Endpoint) (data : List Byte) (n : ℕ) (x : List (Endpoint × List Byte)) :
    Prop :=
  ∀ dst num body, (dst, packet TFTP_DATA num body) ∈ x →
    dst = peer ∧ ∃ k < n, num = BitVec.ofNat 16 (k + 1) ∧ body = block TFTP_MAX_PAYLOAD_SIZE data k

theorem SendsBlocks.mono {x : List (Endpoint × List Byte)} (h : SendsBlocks peer data n x)
    (hnm : n ≤ m) : SendsBlocks peer data m x := by
  intro dst num body hmem
  obtain ⟨hdst, k, hk, hnum⟩ := h dst num body hmem
  exact ⟨hdst, k, hk.trans_le hnm, hnum⟩

theorem SendsBlocks.append {x y : List (Endpoint × List Byte)} (hx : SendsBlocks peer data n x)
    (hy : SendsBlocks peer data n y) : SendsBlocks peer data n (x ++ y) := by
  intro dst num body hmem
  rcases List.mem_append.mp hmem with h | h
  · exact hx dst num body h
  · exact hy dst num body h

theorem sendsBlocks_of_isError {x : List (Endpoint × List Byte)} (h : ∀ y ∈ x, IsError y.2) :
    SendsBlocks peer data n x := by
  intro dst num body hmem
  exact absurd (h _ hmem) (not_isError (by decide))

theorem sendsBlocks_of_block {x : List (Endpoint × List Byte)} (hn : 0 < n)
    (h : ∀ y ∈ x, IsError y.2 ∨ y = (peer, packet TFTP_DATA (BitVec.ofNat 16 n)
      (block TFTP_MAX_PAYLOAD_SIZE data (n - 1)))) : SendsBlocks peer data n x := by
  intro dst num body hmem
  rcases h _ hmem with herr | heq
  · exact absurd herr (not_isError (by decide))
  · obtain ⟨rfl, hp⟩ := Prod.mk.inj heq
    obtain ⟨-, hnum, hbody⟩ := packet_inj hp
    refine ⟨rfl, n - 1, Nat.sub_lt hn Nat.one_pos, ?_, hbody⟩
    rw [hnum, Nat.sub_add_cancel hn]

theorem advances_eq_false {s : TftpState σ Counts} (hno : NoAdvance s e) :
    advances s e = false := by
  cases e with
  | tmr a => rfl
  | recv d a =>
    by_contra hadv
    simp only [advances, Bool.not_eq_false, Bool.and_eq_true, Bool.not_eq_true', beq_iff_eq] at hadv
    obtain ⟨⟨⟨hf, hop⟩, hblk⟩, hlast⟩ := hadv
    cases (hno d a rfl hf hop hblk).symm.trans hlast

variable {contents : String → Option (List Byte)}

/-- After a call of `send_data` the download is on with block `n`, or has ended. -/
theorem downloading_of_send {s₁ s₂ : TftpState φ Counts} (hsend : SendData ctxt s₁ a s₂)
    (hset : Settled 0 (pbuf_free s₂)) (hh : s₁.handle = true) (hw : s₁.mode_write = false)
    (hpeer : s₁.peer = peer) (hfiles : files s₁.fs = contents)
    (hnum : s₁.blknum = BitVec.ofNat 16 n) (hpos : 0 < n)
    (hle : n ≤ count TFTP_MAX_PAYLOAD_SIZE data) (hread : ReadTo fname data (n - 1) s₁.fs) :
    (Downloading peer contents fname data n (pbuf_free s₂) ∨
      (pbuf_free s₂).handle = false ∧ files (pbuf_free s₂).fs = contents ∧
        n ≤ count TFTP_MAX_PAYLOAD_SIZE data) ∧
    ∃ x, (pbuf_free s₂).net.sent = s₁.net.sent ++ x ∧ SendsBlocks peer data n x := by
  have ⟨hfiles', hblock⟩ := hread.read (show n - 1 < count TFTP_MAX_PAYLOAD_SIZE data by omega)
  cases hsend with
  | noBuffer =>
    refine ⟨.inl ⟨hset, hh, hw, hpeer, hfiles, hnum, hpos, hle, .inr ⟨rfl, hread⟩⟩, [], ?_, ?_⟩
    · exact (List.append_nil _).symm
    · intro dst num body hmem
      cases hmem
  | @readError fs p hfail =>
    have hfs : files fs = contents := by
      change tftp_sdcard_read s₁.fs TFTP_MAX_PAYLOAD_SIZE = (none, fs) at hfail
      rw [hfail] at hfiles'
      exact hfiles'.trans hfiles
    refine ⟨.inr ⟨rfl, ?_, hle⟩, _, rfl, sendsBlocks_of_isError fun y hy => isError_of_mem hy⟩
    simp only [pbuf_free, hh, if_true]
    exact (close_files fs).trans hfs
  | @block fs bytes hok =>
    change tftp_sdcard_read s₁.fs TFTP_MAX_PAYLOAD_SIZE = (some bytes, fs) at hok
    rw [hok] at hfiles' hblock
    obtain ⟨rfl, hread'⟩ := hblock bytes rfl
    rw [Nat.sub_add_cancel hpos] at hread'
    constructor
    · left
      refine ⟨hset, hh, hw, hpeer, hfiles'.trans hfiles, hnum, hpos, hle, .inl ⟨?_, hread'⟩⟩
      simp only [pbuf_free, hnum]
    · refine ⟨_, rfl, sendsBlocks_of_block hpos fun y hy => .inr ?_⟩
      rw [mem_out hy, hpeer, hnum]

/-- An event of a download: it goes on or has ended, and blocks are sent under their numbers. -/
theorem Downloading.step (h : Downloading peer contents fname data n s) (he : Acknowledges s e)
    {n' : ℕ} (hn' : n' = if advances s e then n + 1 else n) :
    (Downloading peer contents fname data n' (step ctxt s e) ∨
      (step ctxt s e).handle = false ∧ files (step ctxt s e).fs = contents ∧
        n' ≤ count TFTP_MAX_PAYLOAD_SIZE data) ∧
    ∃ x, (step ctxt s e).net.sent = s.net.sent ++ x ∧ SendsBlocks peer data n' x := by
  have hset := h.settled.step ctxt e
  have hcases := step_reading ctxt h.settled h.handle h.mode_write e
  generalize TftpServer.step ctxt s e = s' at hset hcases ⊢
  cases hcases with
  | @stays _ _ x hno hcore hsent hx =>
    rw [advances_eq_false hno, if_neg Bool.false_ne_true] at hn'
    subst hn'
    obtain ⟨hh, hlast, hpeer, hnum, hmode, hfs⟩ := core_eq hcore
    constructor
    · left
      refine ⟨hset, hh.trans h.handle, hmode.trans h.mode_write, hpeer.trans h.peer, ?_,
        hnum.trans h.blknum, h.pos, h.le, ?_⟩
      · rw [hfs]
        exact h.card
      · rw [hlast, hfs]
        exact h.file
    · refine ⟨x, hsent, sendsBlocks_of_block h.pos fun y hy => ?_⟩
      rcases hx y hy with herr | ⟨p, hp, heq⟩
      · exact .inl herr
      · rcases h.file with ⟨hblock, -⟩ | ⟨hnone, -⟩
        · right
          rw [heq, h.peer, ← Option.some.inj (hblock.symm.trans hp)]
        · cases hnone.symm.trans hp
  | ends hno hh hfs hsent =>
    rw [advances_eq_false hno, if_neg Bool.false_ne_true] at hn'
    subst hn'
    constructor
    · refine .inr ⟨hh, ?_, h.le⟩
      rw [hfs]
      exact (close_files s.fs).trans h.card
    · exact ⟨[], by rw [hsent, List.append_nil], fun _ _ _ hmem => by cases hmem⟩
  | @advances d a s₁ s₂ hf hop hblk hlast hcore hsent hsend =>
    have hadv : advances s (.recv d a) = true := by
      simp [TftpServer.advances, hf, hop, hblk, hlast]
    rw [hadv, if_pos rfl] at hn'
    subst hn'
    obtain ⟨hh, -, hpeer, hnum, hmode, hfs⟩ := core_eq hcore
    have hsome := he d a rfl hf hop hblk
    rcases h.file with ⟨hblock, hread⟩ | ⟨hnone, -⟩
    · -- the block that was sent is a full one, so it is not the last
      have hlen : (block TFTP_MAX_PAYLOAD_SIZE data (n - 1)).length = TFTP_MAX_PAYLOAD_SIZE := by
        simp only [lastpkt, hblock, packet, toBe16, List.length_append, List.length_cons,
          List.length_nil, TFTP_HEADER_LENGTH, decide_eq_false_iff_not, not_not] at hlast
        omega
      have hpos := h.pos
      have hle := h.le
      have hprev : n - 1 < count TFTP_MAX_PAYLOAD_SIZE data := by omega
      have hnext := length_block_lt_iff (by decide) hprev
      have hlt : n < count TFTP_MAX_PAYLOAD_SIZE data := by
        rw [Nat.sub_add_cancel hpos, hlen] at hnext
        have hne := mt hnext.mpr (lt_irrefl _)
        omega
      have hnum' : s₁.blknum = BitVec.ofNat 16 (n + 1) := by
        rw [hnum]
        change s.blknum + 1 = _
        rw [h.blknum, BitVec.ofNat_add]
        rfl
      have hfiles : files s₁.fs = contents := by
        rw [hfs]
        exact h.card
      have hread₁ : ReadTo fname data (n + 1 - 1) s₁.fs := by
        rw [hfs]
        exact hread
      obtain ⟨hstate, x, hx, hsends⟩ := downloading_of_send hsend hset (hh.trans h.handle)
        (hmode.trans h.mode_write) (hpeer.trans h.peer) hfiles hnum' n.succ_pos hlt hread₁
      exact ⟨hstate, x, by rw [hx, hsent], hsends⟩
    · rw [hnone] at hsome
      cases hsome

/-- A read request that is accepted starts a download. -/
theorem downloading_start {s : TftpState φ Counts} (hs : Settled 0 s) (hidle : s.handle = false)
    (hop : d.sbuf 0 = TFTP_RRQ) (hopen : (TftpServer.step ctxt s (.recv d a)).handle = true) :
    Downloading d.endpoint (files s.fs) (str (d.filename Counts)) (requested s d) 1
        (TftpServer.step ctxt s (.recv d a)) ∧
      ∃ x, (TftpServer.step ctxt s (.recv d a)).net.sent = s.net.sent ++ x ∧
        SendsBlocks d.endpoint (requested s d) 1 x := by
  have hset := hs.step ctxt (.recv d a)
  have hstep : TftpServer.step ctxt s (.recv d a) = pbuf_free
      (recvRequest ctxt { pbuf_alloc s with last_pkt := s.timer, retries := 0 } d false a) :=
    step_request false hs hidle hop
  rw [hstep] at hopen hset ⊢
  have hidle₁ : ({ pbuf_alloc s with last_pkt := s.timer, retries := 0 } :
      TftpState φ Counts).handle = false := hidle
  obtain ⟨heq, hfile⟩ := recvRequest_open hidle₁ hopen
  rw [heq] at hopen hset ⊢
  change (tftp_sdcard_open s.fs (str (d.filename Counts)) (str (d.mode Counts)) false).1 =
    true at hfile
  have hmode := (Tftp.open_of_handle hfile).1
  rw [hmode] at hfile
  obtain ⟨c, hctx, hfiles, hread⟩ := readTo_open hfile
  have hctx' : ctxt.open s.fs (d.filename Counts) (d.mode Counts) false = (true, c) := by
    change tftp_sdcard_open s.fs (str (d.filename Counts)) (str (d.mode Counts)) false = _
    rw [hmode, hctx]
  obtain ⟨s₁, hs₁⟩ : ∃ s₁ : TftpState φ Counts, s₁ =
      { s with
        last_pkt := s.timer, retries := 0
        net.timeouts := s.net.timeouts + 1, net.pbufs := s.net.pbufs + 1
        handle := true, fs := c, blknum := 1, addr := d.addr, port := d.port
        mode_write := false } := ⟨_, rfl⟩
  have hopened : openFile ctxt
      (sys_timeout { pbuf_alloc s with last_pkt := s.timer, retries := 0 }) d false a =
      send_data ctxt s₁ a := by
    rw [hs₁]
    unfold openFile
    simp only [sys_timeout, pbuf_alloc, hctx', Bool.not_true, Bool.false_eq_true, if_false]
    rfl
  rw [hopened] at hopen hset ⊢
  obtain ⟨hstate, hsent⟩ := downloading_of_send (send_data_cases ctxt s₁ a) hset
    (by rw [hs₁]) (by rw [hs₁]) (show s₁.peer = d.endpoint by rw [hs₁]; rfl)
    (show files s₁.fs = files s.fs by rw [hs₁]; exact hfiles) (n := 1) (by rw [hs₁]; rfl)
    Nat.one_pos (Nat.succ_pos _)
    (show ReadTo (str (d.filename Counts)) (requested s d) 0 s₁.fs by rw [hs₁]; exact hread)
  have hsent₁ : s₁.net.sent = s.net.sent := by rw [hs₁]
  rw [hsent₁] at hsent
  refine ⟨?_, hsent⟩
  rcases hstate with hdown | ⟨hclosed, -⟩
  · exact hdown
  · cases hclosed.symm.trans hopen

theorem Download.inv {s₀ t : TftpState φ Counts} (h : Download s₀ n t)
    (h₀ : Downloading peer contents fname data 1 s₀) :
    (Downloading peer contents fname data n t ∨
      t.handle = false ∧ files t.fs = contents ∧ n ≤ count TFTP_MAX_PAYLOAD_SIZE data) ∧
    ∃ x, t.net.sent = s₀.net.sent ++ x ∧ SendsBlocks peer data n x := by
  induction h with
  | start => exact ⟨.inl h₀, [], (List.append_nil _).symm, fun _ _ _ hmem => by cases hmem⟩
  | @event n s e h hopen hpeer ih =>
    obtain ⟨hstate, x, hx, hsends⟩ := ih
    rcases hstate with hdown | ⟨hclosed, -⟩
    · obtain ⟨hnext, y, hy, hsends'⟩ := hdown.step hpeer rfl
      refine ⟨hnext, x ++ y, by rw [hy, hx, List.append_assoc], ?_⟩
      refine SendsBlocks.append (hsends.mono ?_) hsends'
      split <;> omega
    · cases hclosed.symm.trans hopen

/-- What a download sends, over the counts. -/
theorem download_sent {s t : TftpState φ Counts} (hs : Reachable ctxt s) (hidle : s.handle = false)
    (hop : d.sbuf 0 = TFTP_RRQ) (hopen : (TftpServer.step ctxt s (.recv d a)).handle = true)
    (h : Download (TftpServer.step ctxt s (.recv d a)) n t) :
    files t.fs = files s.fs ∧ n ≤ count TFTP_MAX_PAYLOAD_SIZE (requested s d) ∧
      ∃ x, t.net.sent = s.net.sent ++ x ∧ SendsBlocks d.endpoint (requested s d) n x := by
  obtain ⟨h₀, x, hx, hsends⟩ := downloading_start hs.settled hidle hop hopen
  obtain ⟨hstate, y, hy, hsends'⟩ := h.inv h₀
  have hn : 1 ≤ n := by
    clear hstate hy hsends'
    induction h with
    | start => exact le_rfl
    | event _ _ _ ih => split <;> omega
  refine ⟨?_, ?_, x ++ y, ?_, (hsends.mono hn).append hsends'⟩
  · rcases hstate with hdown | ⟨-, hfiles, -⟩
    · exact hdown.card
    · exact hfiles
  · rcases hstate with hdown | ⟨-, -, hle⟩
    · exact hdown.le
    · exact hle
  · rw [hy, hx, List.append_assoc]

/-- Over every order of datagrams and timeouts, a download sends the peer the blocks of the file,
each under its number and none before the one before it was acknowledged, and leaves the card as it
was. -/
theorem download_sends_blocks {ν : Type} [Stack ν] {s t : TftpState φ ν} (hs : Reachable ctxt s)
    (hidle : s.handle = false) (hop : d.sbuf 0 = TFTP_RRQ)
    (hopen : (TftpServer.step ctxt s (.recv d a)).handle = true)
    (h : Download (TftpServer.step ctxt s (.recv d a)) n t) :
    files t.fs = files s.fs ∧ n ≤ count TFTP_MAX_PAYLOAD_SIZE (requested s d) ∧
    ∃ x, t.sent = s.sent ++ x ∧ ∀ dst num body, (dst, packet TFTP_DATA num body) ∈ x →
      dst = d.endpoint ∧ ∃ k < n, num = BitVec.ofNat 16 (k + 1) ∧
        body = block TFTP_MAX_PAYLOAD_SIZE (requested s d) k := by
  have hopen' := (handle_step_seen ctxt s (.recv d a)).trans hopen
  have hsent := download_sent hs.seen hidle hop hopen' h.seen_step
  rw [requested_seen] at hsent
  exact hsent

/-- Two blocks are sent, though the first acknowledgement comes twice and a stranger sends one. -/
theorem download_sends_two :
    let s := step ctxt (tftp_init card Counts.zero)
      (.recv (requestFor someone TFTP_RRQ [0x47]) buffers)
    let s₁ := step ctxt s (arrives stranger (packet TFTP_ACK 1 []))
    let s₂ := step ctxt s₁ (arrives someone (packet TFTP_ACK 1 []))
    let t := step ctxt s₂ (arrives someone (packet TFTP_ACK 1 []))
    sentTo someone t.sent =
        [packet TFTP_DATA 1 (List.replicate 512 0x31), packet TFTP_DATA 2 [0x32],
          packet TFTP_ERROR TFTP_ERROR_UNKNOWN_TRFR_ID (cstring "Wrong block number")] ∧
      t.fs.files = card.files ∧
      ∀ dst num body, (dst, packet TFTP_DATA num body) ∈ t.sent → dst = someone := by
  intro s s₁ s₂ t
  have hs : Reachable ctxt (tftp_init card Counts.zero) := ⟨card, Counts.zero, [], rfl, rfl⟩
  have hacks : ∀ (peer : Endpoint) (u : TftpState Card Counts), u.last_data.isSome = true →
      Acknowledges u (arrives peer (packet TFTP_ACK 1 [])) := fun _ _ hu _ _ _ _ _ _ => hu
  have h0 : Download s 1 s := .start
  have h1 : Download s _ s₁ := h0.event (by decide +kernel) (hacks stranger s (by decide +kernel))
  have h2 : Download s _ s₂ := h1.event (by decide +kernel) (hacks someone s₁ (by decide +kernel))
  have h3 : Download s _ t := h2.event (by decide +kernel) (hacks someone s₂ (by decide +kernel))
  obtain ⟨hfiles, -, x, hx, hsends⟩ := download_sends_blocks hs rfl rfl (by decide +kernel) h3
  refine ⟨by decide +kernel, hfiles, fun dst num body hmem => ?_⟩
  rw [hx] at hmem
  exact (hsends dst num body hmem).1

end Download

end Zpsc.TftpServer
