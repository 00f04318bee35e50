import Zpsc.Net.Proofs.TftpTransferProofs

/-!
# What is uploaded is downloaded

A peer that follows the protocol over a network that loses nothing gets every block acknowledged
(`run_upload`), and with a read request the blocks of the file (`run_download`).
-/

namespace Zpsc.TftpServer

open Bits Clocked
open Lwip (Counts Endpoint Stack)
open Protocol.Blocks
open Tftp (Card FatFs TFTP_MAX_PAYLOAD_SIZE tot_len tftp_sdcard_open tftp_sdcard_close
  tftp_sdcard_read tftp_sdcard_write)
open Tftp.FatFs

variable {φ : Type} [FatFs φ] {peer : Endpoint} {name data : List Byte} {n : ℕ} {c : φ}
  {s : TftpState φ Counts}

/-! ## Packets -/

theorem not_foreign_of_peer {σ : Type} {s : TftpState σ Counts} (h : s.peer = peer)
    (bytes : List Byte) : foreign s (datagram peer bytes) = false := by
  subst h
  simp [foreign, datagram, TftpState.peer]

/-- A string before a 0 ends there. -/
theorem memfind_append (pre str post : List Byte) (hstr : (0 : Byte) ∉ str) :
    Stack.pbuf_memfind Counts (pre ++ (str ++ 0 :: post)) pre.length =
      BitVec.ofNat 16 (pre.length + str.length) := by
  have hfind : (str ++ 0 :: post).findIdx? (· == 0) = some str.length := by
    rw [List.findIdx?_append]
    have hnone : str.findIdx? (· == 0) = none := by
      rw [List.findIdx?_eq_none_iff]
      intro b hb
      simp only [beq_eq_false_iff_ne]
      rintro rfl
      exact hstr hb
    rw [hnone]
    simp [List.findIdx?_cons]
  exact Stack.memfind_some _ _ _ (by rw [List.drop_left, hfind])

/-- The string before the 0 is what is copied. -/
theorem untilNull_append (pre str post : List Byte) (hstr : (0 : Byte) ∉ str) :
    untilNull (((pre ++ (str ++ 0 :: post)).drop pre.length).take (str.length + 1)) = str := by
  have htake : (str ++ 0 :: post).take (str.length + 1) = str ++ [0] := by
    rw [List.take_length_add_append]
    rfl
  rw [List.drop_left, htake, untilNull, List.takeWhile_append_of_pos]
  · simp
  · intro b hb
    simp only [ne_eq, decide_eq_true_eq]
    rintro rfl
    exact hstr hb

/-- The strings of a request. -/
structure Parsed (d : Datagram) (name mode : List Byte) : Prop where
  name_fits : ¬ TFTP_MAX_FILENAME_LEN + 1 < (d.filename_end_offset Counts - 1).toNat
  mode_fits : ¬ TFTP_MAX_MODE_LEN + 1 <
    (d.mode_end_offset Counts - d.filename_end_offset Counts).toNat
  filename : d.filename Counts = name
  mode : d.mode Counts = mode

/-- The mode, without the 0 at its end. -/
def octetBytes : List Byte := [0x6F, 0x63, 0x74, 0x65, 0x74]

theorem parsed_request (peer : Endpoint) (op : BitVec 16) (hname : (0 : Byte) ∉ name)
    (hlen : name.length ≤ TFTP_MAX_FILENAME_LEN) :
    Parsed (requestFor peer op name) name octetBytes := by
  unfold TFTP_MAX_FILENAME_LEN at hlen
  have hbytes : (requestFor peer op name).payloads.flatten =
      toBe16 op ++ (name ++ 0 :: (octetBytes ++ [0])) := by
    simp [requestFor, datagram, Datagram.payloads, cstring, octetBytes]
  have hend : (requestFor peer op name).filename_end_offset Counts =
      BitVec.ofNat 16 (2 + name.length) := by
    rw [Datagram.filename_end_offset, hbytes]
    exact memfind_append (toBe16 op) name _ hname
  have hendNat : ((requestFor peer op name).filename_end_offset Counts).toNat =
      2 + name.length := by
    rw [hend, BitVec.toNat_ofNat, Nat.mod_eq_of_lt (by omega)]
  -- the mode comes after the name and its 0
  have hbytes' : (requestFor peer op name).payloads.flatten =
      (toBe16 op ++ name ++ [0]) ++ (octetBytes ++ 0 :: []) := by
    rw [hbytes]
    simp
  have hpre : (toBe16 op ++ name ++ [0]).length = 2 + name.length + 1 := by
    simp only [List.length_append, toBe16, List.length_cons, List.length_nil]
  have hmode : (requestFor peer op name).mode_end_offset Counts =
      BitVec.ofNat 16 (2 + name.length + 1 + 5) := by
    rw [Datagram.mode_end_offset, hendNat, hbytes', ← hpre]
    exact memfind_append _ octetBytes [] (by decide)
  have hmodeLen : ((requestFor peer op name).mode_end_offset Counts -
      (requestFor peer op name).filename_end_offset Counts).toNat = 5 + 1 := by
    rw [hmode, hend, BitVec.toNat_sub, BitVec.toNat_ofNat, BitVec.toNat_ofNat]
    omega
  have hnameLen : ((requestFor peer op name).filename_end_offset Counts - 1).toNat =
      name.length + 1 := by
    have hone : (1 : BitVec 16).toNat = 1 := rfl
    rw [hend, BitVec.toNat_sub, hone, BitVec.toNat_ofNat]
    omega
  refine ⟨?_, ?_, ?_, ?_⟩
  · rw [hnameLen, TFTP_MAX_FILENAME_LEN]
    omega
  · rw [hmodeLen]
    decide
  · rw [Datagram.filename, hnameLen, hbytes]
    exact untilNull_append (toBe16 op) name _ hname
  · rw [Datagram.mode, hmodeLen, hendNat, hbytes', ← hpre]
    exact untilNull_append _ octetBytes [] (by decide)

section Request

variable {σ : Type} {ctx : TftpContext σ} {s : TftpState σ Counts} {d : Datagram} {fs : σ}
  {mode : List Byte}

/-- A request for a file that can be opened starts a transfer. -/
theorem recvRequest_opens (write : Bool) (a : Alloc) (hidle : s.handle = false)
    (hd : Parsed d name mode) (hfile : ctx.open s.fs name mode write = (true, fs)) :
    ∃ s₁, s₁.fs = fs ∧ s₁.peer = d.endpoint ∧ s₁.blknum = 1 ∧ s₁.net.sent = s.net.sent ∧
      s₁.handle = true ∧
      recvRequest ctx s d write a =
        if write then send_ack s₁ 0 a.first else send_data ctx s₁ a := by
  have hidle' : ¬ s.handle = true := by simp [hidle]
  rw [recvRequest, if_neg hidle', if_neg hd.name_fits, if_neg hd.mode_fits, openFile]
  simp only [sys_timeout, hd.filename, hd.mode, hfile, Bool.not_true, Bool.false_eq_true, if_false]
  refine ⟨_, ?_, ?_, ?_, ?_, ?_, rfl⟩ <;> rfl

theorem step_opens (write : Bool) (a : Alloc) (hs : Settled 0 s) (hidle : s.handle = false)
    (hop : d.sbuf 0 = if write then TFTP_WRQ else TFTP_RRQ) (hd : Parsed d name mode)
    (hfile : ctx.open s.fs name mode write = (true, fs)) :
    ∃ s₁, s₁.fs = fs ∧ s₁.peer = d.endpoint ∧ s₁.blknum = 1 ∧ s₁.net.sent = s.net.sent ∧
      s₁.handle = true ∧
      step ctx s (.recv d a) =
        pbuf_free (if write then send_ack s₁ 0 a.first else send_data ctx s₁ a) := by
  obtain ⟨s₁, hfs, hpeer, hnum, hsent, hh, hreq⟩ := recvRequest_opens
    (s := { pbuf_alloc s with last_pkt := s.timer, retries := 0 }) write a hidle hd hfile
  refine ⟨s₁, hfs, hpeer, hnum, hsent, hh, ?_⟩
  rw [step_request write hs hidle hop, hreq]

end Request

/-! ## The upload -/

variable {fname : String} {old written : List Byte}

/-- A disk without errors opens a file for writing, and makes it when it is not there. -/
theorem open_write_ok (hsound : Sound c) (fname : String) :
    ∃ c', tftp_sdcard_open c fname "octet" true = (true, c') ∧ Sound c' := by
  obtain ⟨hok, hsound'⟩ := sound_open c fname true true hsound (.inl rfl)
  refine ⟨_, ?_, hsound'⟩
  simp [tftp_sdcard_open, hok]

/-- The strings of a request, as the callbacks get them. -/
theorem str_octet : str octetBytes = "octet" := by decide

/-- A write request is acknowledged. -/
theorem upload_request (peer : Endpoint) (data : List Byte) (hs : Settled 0 s)
    (hidle : s.handle = false)
    (hsound : Sound s.fs) (hname : (0 : Byte) ∉ name)
    (hlen : name.length ≤ TFTP_MAX_FILENAME_LEN) :
    ∃ t, step ctxt s (.recv (requestFor peer TFTP_WRQ name) buffers) = t ∧
      Uploading peer (str name) ((files s.fs (str name)).getD []) data 0 t ∧
      t.net.sent = s.net.sent ++ [(peer, packet TFTP_ACK 0 [])] ∧ Sound t.fs := by
  have hd := parsed_request peer TFTP_WRQ hname hlen
  have hop : (requestFor peer TFTP_WRQ name).sbuf 0 = TFTP_WRQ := be16_extract TFTP_WRQ
  have hpeer : (requestFor peer TFTP_WRQ name).endpoint = peer := rfl
  generalize requestFor peer TFTP_WRQ name = d at hd hop hpeer ⊢
  obtain ⟨c', hopen, hsound'⟩ := open_write_ok hsound (str name)
  have hfile : ctxt.open s.fs name octetBytes true = (true, c') := by
    change tftp_sdcard_open s.fs (str name) (str octetBytes) true = _
    rw [str_octet, hopen]
  obtain ⟨s₁, hfs, hpeer₁, -, hsent, hh, hstep⟩ := step_opens true buffers hs hidle hop hd hfile
  rw [if_pos rfl, send_ack, sendPacket_eq] at hstep
  obtain ⟨hup, -⟩ := uploading_start (a := buffers) data hs hidle hop (by rw [hstep]; exact hh)
  rw [hpeer, hd.filename, requested, hd.filename] at hup
  refine ⟨_, rfl, hup, ?_, ?_⟩
  · rw [hstep, ← hpeer, ← hpeer₁, ← hsent]
    rfl
  · rw [hstep]
    exact hfs ▸ hsound'

/-- A disk without errors takes a block. -/
theorem write_ok (h : Tftp.Writing c fname old written) (hsound : Sound c) (body : List Byte) :
    (tftp_sdcard_write c [body]).1 = 0 ∧ Sound (tftp_sdcard_write c [body]).2 := by
  obtain ⟨hres, hlen, hsound'⟩ := sound_write c body hsound h.opened h.write
  rw [tftp_sdcard_write]
  split_ifs with htot hempty
  · exact ⟨rfl, hsound⟩
  · exact ⟨rfl, hsound⟩
  · simp only [hres, hlen, ne_eq, not_true_eq_false, if_false, tftp_sdcard_write]
    exact ⟨trivial, hsound'⟩

/-- The block that an upload waits for is stored and acknowledged. -/
theorem upload_block (h : Uploading peer fname old data n s) (hsound : Sound s.fs) :
    ∃ s', step ctxt s (arrives peer (packet TFTP_DATA (BitVec.ofNat 16 (n + 1))
        (block TFTP_MAX_PAYLOAD_SIZE data n))) = s' ∧
      s'.net.sent = s.net.sent ++ [(peer, packet TFTP_ACK (BitVec.ofNat 16 (n + 1)) [])] ∧
      Sound s'.fs ∧
      (Uploading peer fname old data (n + 1) s' ∨
        n + 1 = count TFTP_MAX_PAYLOAD_SIZE data ∧ s'.handle = false ∧
          Stored fname old data (n + 1) s'.fs) := by
  obtain ⟨hop, hnum⟩ := sbuf_packet peer TFTP_DATA (BitVec.ofNat 16 (n + 1))
    (block TFTP_MAX_PAYLOAD_SIZE data n)
  have hbody := data_packet peer TFTP_DATA (BitVec.ofNat 16 (n + 1))
    (block TFTP_MAX_PAYLOAD_SIZE data n)
  have hf := not_foreign_of_peer h.peer (packet TFTP_DATA (BitVec.ofNat 16 (n + 1))
    (block TFTP_MAX_PAYLOAD_SIZE data n))
  have ht : Timely 65536 n n := ⟨by omega, by omega⟩
  have hoffers := offersBlocks_block h.lt ht s peer
  unfold arrives at hoffers ⊢
  generalize datagram peer (packet TFTP_DATA (BitVec.ofNat 16 (n + 1))
    (block TFTP_MAX_PAYLOAD_SIZE data n)) = d at hop hnum hbody hf hoffers ⊢
  have hblk : d.sbuf 1 = s.blknum := hnum.trans h.blknum.symm
  obtain ⟨hok, hsound'⟩ := write_ok h.file hsound (block TFTP_MAX_PAYLOAD_SIZE data n)
  rw [← hbody] at hok hsound'
  have hst : stores s (.recv d buffers) = true := by
    simp [stores, hf, hop, hblk, hok]
  obtain ⟨hstate, -⟩ := h.step hoffers rfl
  rw [hst, if_pos rfl] at hstate
  refine ⟨_, rfl, ?_⟩
  have hcases := step_writing ctxt h.settled h.handle h.mode_write (.recv d buffers)
  generalize step ctxt s (.recv d buffers) = s' at hstate hcases ⊢
  cases hcases with
  | stays hno hcore hsent hx => exact absurd hblk (hno d buffers rfl hf hop)
  | ends hno hh hfs hsent => exact absurd hblk (hno d buffers rfl hf hop)
  | fails _ _ _ hret hh hfs hsent hx =>
    change (tftp_sdcard_write s.fs (d.data Counts)).1 < 0 at hret
    omega
  | stores _ _ _ hret hshort hfull hsent =>
    refine ⟨?_, ?_, ?_⟩
    · rw [hsent, h.peer, h.blknum]
      rfl
    · rcases lt_or_ge (tot_len (d.data Counts)).toNat TFTP_MAX_PAYLOAD_SIZE with hlen | hlen
      · rw [(hshort hlen).2]
        exact sound_close _ hsound'
      · obtain ⟨-, -, -, -, -, hfs⟩ := core_eq (hfull hlen)
        rw [hfs]
        exact hsound'
    · rcases hstate with hup | ⟨hclosed, hle, hst'⟩
      · exact .inl hup
      · refine .inr ⟨?_, hclosed, hst'⟩
        by_contra hne
        have hnot := mt (length_block_lt_iff (by decide) h.lt).mp hne
        have hlen : TFTP_MAX_PAYLOAD_SIZE ≤ (tot_len (d.data Counts)).toNat := by
          rw [hbody, tot_len, BitVec.toNat_ofNat, List.flatten_cons, List.flatten_nil,
            List.append_nil, length_block, TFTP_MAX_PAYLOAD_SIZE] at *
          omega
        obtain ⟨hh, -⟩ := core_eq (hfull hlen)
        cases hclosed.symm.trans (hh.trans h.handle)

/-- The first `n` blocks are stored and acknowledged. -/
theorem run_blocks (h : Uploading peer fname old data 0 s) (hsound : Sound s.fs)
    (hn : n ≤ count TFTP_MAX_PAYLOAD_SIZE data) :
    ∃ t, run (step ctxt) s ((List.range n).map fun k =>
        arrives peer (packet TFTP_DATA (BitVec.ofNat 16 (k + 1))
          (block TFTP_MAX_PAYLOAD_SIZE data k))) = t ∧
      t.net.sent = s.net.sent ++ (List.range n).map (fun k =>
        (peer, packet TFTP_ACK (BitVec.ofNat 16 (k + 1)) [])) ∧
      Sound t.fs ∧
      (Uploading peer fname old data n t ∨
        n = count TFTP_MAX_PAYLOAD_SIZE data ∧ t.handle = false ∧
          Stored fname old data n t.fs) := by
  induction n with
  | zero => exact ⟨s, rfl, (List.append_nil _).symm, hsound, .inl h⟩
  | succ n ih =>
    obtain ⟨t, hrun, hsent, hsound', hstate⟩ := ih (by omega)
    rcases hstate with hup | ⟨hlast, -⟩
    · obtain ⟨t', hstep, hsent', hsound'', hstate'⟩ := upload_block hup hsound'
      refine ⟨t', ?_, ?_, hsound'', hstate'⟩
      · rw [List.range_succ, List.map_append, run_append, hrun]
        exact hstep
      · rw [hsent', hsent, List.range_succ, List.map_append, List.append_assoc]
        rfl
    · omega

theorem run_upload (peer : Endpoint) (data : List Byte) (hs : Settled 0 s)
    (hidle : s.handle = false)
    (hsound : Sound s.fs) (hname : (0 : Byte) ∉ name)
    (hlen : name.length ≤ TFTP_MAX_FILENAME_LEN) :
    ∃ t, run (step ctxt) s (uploadEvents peer name data) = t ∧ t.handle = false ∧ Sound t.fs ∧
      files t.fs (str name) =
        some (data ++ ((files s.fs (str name)).getD []).drop data.length) ∧
      t.net.sent = s.net.sent ++ uploadAnswers peer (count TFTP_MAX_PAYLOAD_SIZE data) := by
  obtain ⟨t, hstep, hup, hsent, hsound'⟩ := upload_request peer data hs hidle hsound hname hlen
  obtain ⟨t', hrun, hsent', hsound'', hstate⟩ := run_blocks hup hsound' le_rfl
  rcases hstate with hup' | ⟨-, hclosed, written, hpre, hdata, hfile⟩
  · exact absurd hup'.lt (lt_irrefl _)
  · rw [before_eq_data (by decide) le_rfl] at hpre
    rw [hdata.eq_of_length_le hpre.length_le] at hfile
    refine ⟨t', ?_, hclosed, hsound'', hfile, ?_⟩
    · rw [uploadEvents, run_cons, hstep, hrun]
    · rw [hsent', hsent, uploadAnswers, List.range_succ_eq_map, List.map_cons, List.map_map,
        List.append_assoc]
      rfl

/-! ## The download -/

variable {contents : String → Option (List Byte)}

/-- A disk without errors opens a file that is there for reading. -/
theorem open_read_ok (hsound : Sound c) (hfile : files c fname = some data) :
    ∃ c', tftp_sdcard_open c fname "octet" false = (true, c') ∧ Sound c' ∧
      files c' = files c ∧ ReadTo fname data 0 c' := by
  obtain ⟨hok, hsound'⟩ := sound_open c fname false false hsound (.inr (by rw [hfile]; rfl))
  have hopen : tftp_sdcard_open c fname "octet" false = (true, (f_open c fname false false).2) := by
    simp [tftp_sdcard_open, hok]
  obtain ⟨c', heq, hfiles, hread⟩ := readTo_open (congrArg Prod.fst hopen)
  rw [hfile, Option.getD_some] at hread
  obtain rfl := (Prod.mk.inj (hopen.symm.trans heq)).2
  exact ⟨_, heq, hsound', hfiles, hread⟩

/-- A disk without errors gives the next block. -/
theorem read_ok (h : ReadTo fname data n c) (hsound : Sound c)
    (hn : n < count TFTP_MAX_PAYLOAD_SIZE data) :
    ∃ c', tftp_sdcard_read c TFTP_MAX_PAYLOAD_SIZE =
        (some (block TFTP_MAX_PAYLOAD_SIZE data n), c') ∧
      Sound c' := by
  obtain ⟨hres, hsound'⟩ := sound_read c TFTP_MAX_PAYLOAD_SIZE hsound h.opened h.write
  have hread : tftp_sdcard_read c TFTP_MAX_PAYLOAD_SIZE =
      (some (f_read c TFTP_MAX_PAYLOAD_SIZE).2.1, (f_read c TFTP_MAX_PAYLOAD_SIZE).2.2) := by
    simp [tftp_sdcard_read, hres]
  obtain ⟨-, hblock⟩ := h.read hn
  rw [hread] at hblock
  refine ⟨_, ?_, hsound'⟩
  rw [hread, (hblock _ rfl).1]

/-- A download that is on, has sent block `n` and meets no errors. -/
structure Sending (peer : Endpoint) (contents : String → Option (List Byte)) (fname : String)
    (data : List Byte) (n : ℕ) (s : TftpState φ Counts) : Prop
    extends Downloading peer contents fname data n s where
  sent_block : s.last_data.isSome = true
  sound : Sound s.fs

/-- A call of `send_data` sends the block. -/
theorem sending_of_send {t : TftpState φ Counts} (hfs : Sound t.fs) (hpeer : t.peer = peer)
    (hnum : t.blknum = BitVec.ofNat 16 (n + 1)) (hn : n < count TFTP_MAX_PAYLOAD_SIZE data)
    (hread : ReadTo fname data n t.fs)
    (hdown : (pbuf_free (send_data ctxt t buffers)).handle = true →
      Downloading peer contents fname data (n + 1) (pbuf_free (send_data ctxt t buffers)))
    (hh : t.handle = true) :
    Sending peer contents fname data (n + 1) (pbuf_free (send_data ctxt t buffers)) ∧
      (pbuf_free (send_data ctxt t buffers)).net.sent = t.net.sent ++
        [(peer, packet TFTP_DATA (BitVec.ofNat 16 (n + 1))
          (block TFTP_MAX_PAYLOAD_SIZE data n))] := by
  obtain ⟨c', hc, hsound⟩ := read_ok hread hfs hn
  have hsend : send_data ctxt t buffers = _ := send_data_block rfl hc
  rw [hsend] at hdown ⊢
  refine ⟨⟨hdown hh, rfl, hsound⟩, ?_⟩
  rw [← hpeer, ← hnum]
  rfl

/-- A read request is answered with the first block. -/
theorem download_request (peer : Endpoint) (hs : Settled 0 s) (hidle : s.handle = false)
    (hsound : Sound s.fs) (hname : (0 : Byte) ∉ name)
    (hlen : name.length ≤ TFTP_MAX_FILENAME_LEN) (hfile : files s.fs (str name) = some data) :
    ∃ t, step ctxt s (.recv (requestFor peer TFTP_RRQ name) buffers) = t ∧
      Sending peer (files s.fs) (str name) data 1 t ∧
      t.net.sent = s.net.sent ++
        [(peer, packet TFTP_DATA 1 (block TFTP_MAX_PAYLOAD_SIZE data 0))] := by
  have hd := parsed_request peer TFTP_RRQ hname hlen
  have hop : (requestFor peer TFTP_RRQ name).sbuf 0 = TFTP_RRQ := be16_extract TFTP_RRQ
  have hpeer : (requestFor peer TFTP_RRQ name).endpoint = peer := rfl
  generalize requestFor peer TFTP_RRQ name = d at hd hop hpeer ⊢
  obtain ⟨c', hopen, hsound', -, hread⟩ := open_read_ok hsound hfile
  have hctx : ctxt.open s.fs name octetBytes false = (true, c') := by
    change tftp_sdcard_open s.fs (str name) (str octetBytes) false = _
    rw [str_octet, hopen]
  obtain ⟨s₁, hfs, hpeer₁, hnum, hsent, hh, hstep⟩ := step_opens false buffers hs hidle hop hd hctx
  rw [if_neg Bool.false_ne_true] at hstep
  have hdown : (pbuf_free (send_data ctxt s₁ buffers)).handle = true →
      Downloading peer (files s.fs) (str name) data (0 + 1)
        (pbuf_free (send_data ctxt s₁ buffers)) := by
    intro hon
    rw [← hstep] at hon ⊢
    obtain ⟨h, -⟩ := downloading_start hs hidle hop hon
    rwa [hpeer, hd.filename, requested, hd.filename, hfile, Option.getD_some] at h
  obtain ⟨hsending, hsent'⟩ := sending_of_send (hfs ▸ hsound') (hpeer₁.trans hpeer) hnum
    (Nat.succ_pos _) (hfs ▸ hread) hdown hh
  refine ⟨_, hstep, hsending, ?_⟩
  rw [hsent', hsent]
  rfl

/-- An acknowledgement of the last block that was sent. -/
theorem step_ack {σ : Type} (ctx : TftpContext σ) {s : TftpState σ Counts} {d : Datagram}
    {a : Alloc} (hh : s.handle = true) (hw : s.mode_write = false) (hf : foreign s d = false)
    (hop : d.sbuf 0 = TFTP_ACK) (hnum : d.sbuf 1 = s.blknum) :
    ∃ s₁, core s₁ = core s ∧ s₁.net.sent = s.net.sent ∧
      step ctx s (.recv d a) = pbuf_free
        (if lastpkt s then close_handle ctx s₁
          else send_data ctx { s₁ with blknum := s.blknum + 1 } a) := by
  obtain ⟨s₁, hs₁⟩ : ∃ s₁, s₁ = { pbuf_alloc s with last_pkt := s.timer, retries := 0 } := ⟨_, rfl⟩
  have hcore : core s₁ = core s := by
    rw [hs₁]
    rfl
  obtain ⟨hh₁, hl₁, -, hnum₁, hw₁, -⟩ := core_eq hcore
  have hlast : lastpkt s₁ = lastpkt s := by
    rw [lastpkt, lastpkt, hl₁]
  refine ⟨s₁, hcore, by rw [hs₁]; rfl, ?_⟩
  have hopen : ¬ (!s₁.handle) = true := by simp [hh₁, hh]
  have hread : ¬ s₁.mode_write = true := by simp [hw₁, hw]
  have hblk : ¬ d.sbuf 1 ≠ s.blknum := not_not.mpr hnum
  rw [step_recv hf, ← hs₁, dispatch, hop, recvAck, if_neg hopen, if_neg hread, hlast, hnum₁,
    if_neg hblk]
  cases lastpkt s with
  | false => rfl
  | true => rfl

/-- The acknowledgement of a block before the last is answered with the next block. -/
theorem download_block (h : Sending peer contents fname data (n + 1) s)
    (hn : n + 1 < count TFTP_MAX_PAYLOAD_SIZE data) :
    ∃ t, step ctxt s (arrives peer (packet TFTP_ACK (BitVec.ofNat 16 (n + 1)) [])) = t ∧
      Sending peer contents fname data (n + 2) t ∧
      t.net.sent = s.net.sent ++ [(peer, packet TFTP_DATA (BitVec.ofNat 16 (n + 2))
        (block TFTP_MAX_PAYLOAD_SIZE data (n + 1)))] := by
  obtain ⟨hop, hnum⟩ := sbuf_packet peer TFTP_ACK (BitVec.ofNat 16 (n + 1)) []
  have hf := not_foreign_of_peer h.peer (packet TFTP_ACK (BitVec.ofNat 16 (n + 1)) [])
  unfold arrives
  generalize datagram peer (packet TFTP_ACK (BitVec.ofNat 16 (n + 1)) []) = d at hop hnum hf ⊢
  have hblk : d.sbuf 1 = s.blknum := hnum.trans h.blknum.symm
  obtain ⟨hlast, hread⟩ : s.last_data = some (packet TFTP_DATA (BitVec.ofNat 16 (n + 1))
      (block TFTP_MAX_PAYLOAD_SIZE data n)) ∧ ReadTo fname data (n + 1) s.fs := by
    rcases h.file with hfile | ⟨hnone, -⟩
    · exact hfile
    · cases hnone ▸ h.sent_block
  have hfull : lastpkt s = false := by
    have hlen := mt (length_block_lt_iff (by decide) (by omega)).mp (ne_of_lt hn)
    have hle := length_block TFTP_MAX_PAYLOAD_SIZE data n
    simp only [lastpkt, hlast, packet, toBe16, List.length_append, List.length_cons,
      List.length_nil, TFTP_HEADER_LENGTH, decide_eq_false_iff_not, not_not]
    omega
  obtain ⟨s₁, hcore, hsent, hstep⟩ :=
    step_ack ctxt (a := buffers) h.handle h.mode_write hf hop hblk
  rw [hfull, if_neg Bool.false_ne_true] at hstep
  obtain ⟨hh, -, hpeer, -, -, hfs⟩ := core_eq hcore
  have hacks : Acknowledges s (.recv d buffers) := fun _ _ _ _ _ _ => h.sent_block
  have hadv : advances s (.recv d buffers) = true := by
    simp [advances, hf, hop, hblk, hfull]
  obtain ⟨hstate, -⟩ := h.step hacks rfl
  rw [hadv, if_pos rfl, hstep] at hstate
  obtain ⟨hsending, hsent'⟩ := sending_of_send (n := n + 1)
    (t := { s₁ with blknum := s.blknum + 1 }) (by rw [hfs]; exact h.sound) (hpeer.trans h.peer)
    (by rw [h.blknum, BitVec.ofNat_add (n + 1) 1]; rfl) hn (by rw [hfs]; exact hread)
    (fun hon => hstate.resolve_right fun hend => by cases hend.1.symm.trans hon) (hh.trans h.handle)
  refine ⟨_, hstep, hsending, ?_⟩
  rw [hsent', hsent]

/-- The acknowledgement of the last block ends the download. -/
theorem download_last (h : Sending peer contents fname data (n + 1) s)
    (hn : n + 1 = count TFTP_MAX_PAYLOAD_SIZE data) :
    ∃ t, step ctxt s (arrives peer (packet TFTP_ACK (BitVec.ofNat 16 (n + 1)) [])) = t ∧
      t.handle = false ∧ files t.fs = contents ∧ t.net.sent = s.net.sent := by
  obtain ⟨hop, hnum⟩ := sbuf_packet peer TFTP_ACK (BitVec.ofNat 16 (n + 1)) []
  have hf := not_foreign_of_peer h.peer (packet TFTP_ACK (BitVec.ofNat 16 (n + 1)) [])
  unfold arrives
  generalize datagram peer (packet TFTP_ACK (BitVec.ofNat 16 (n + 1)) []) = d at hop hnum hf ⊢
  have hlast : s.last_data = some (packet TFTP_DATA (BitVec.ofNat 16 (n + 1))
      (block TFTP_MAX_PAYLOAD_SIZE data n)) := by
    rcases h.file with ⟨hfile, -⟩ | ⟨hnone, -⟩
    · exact hfile
    · cases hnone ▸ h.sent_block
  have hshort : lastpkt s = true := by
    have hlen := (length_block_lt_iff (by decide) (by omega)).mpr hn
    simp only [lastpkt, hlast, packet, toBe16, List.length_append, List.length_cons,
      List.length_nil, TFTP_HEADER_LENGTH, decide_eq_true_eq]
    omega
  obtain ⟨s₁, hcore, hsent, hstep⟩ :=
    step_ack ctxt (a := buffers) h.handle h.mode_write hf hop (hnum.trans h.blknum.symm)
  rw [hshort, if_pos rfl, close_handle_eq] at hstep
  obtain ⟨hh, -, -, -, -, hfs⟩ := core_eq hcore
  refine ⟨_, hstep, rfl, ?_, hsent⟩
  simp only [pbuf_free, hh, h.handle, if_true, hfs]
  exact (close_files s.fs).trans h.card

/-- The first `n + 1` blocks are sent. -/
theorem run_acks (h : Sending peer contents fname data 1 s)
    (hn : n < count TFTP_MAX_PAYLOAD_SIZE data) :
    ∃ t, run (step ctxt) s ((List.range n).map fun k =>
        arrives peer (packet TFTP_ACK (BitVec.ofNat 16 (k + 1)) [])) = t ∧
      t.net.sent = s.net.sent ++ (List.range n).map (fun k =>
        (peer, packet TFTP_DATA (BitVec.ofNat 16 (k + 2))
          (block TFTP_MAX_PAYLOAD_SIZE data (k + 1)))) ∧
      Sending peer contents fname data (n + 1) t := by
  induction n with
  | zero => exact ⟨s, rfl, (List.append_nil _).symm, h⟩
  | succ n ih =>
    obtain ⟨t, hrun, hsent, hsending⟩ := ih (by omega)
    obtain ⟨t', hstep, hsending', hsent'⟩ := download_block hsending hn
    refine ⟨t', ?_, ?_, hsending'⟩
    · rw [List.range_succ, List.map_append, run_append, hrun]
      exact hstep
    · rw [hsent', hsent, List.range_succ, List.map_append, List.append_assoc]
      rfl

theorem run_download (peer : Endpoint) (hs : Settled 0 s) (hidle : s.handle = false)
    (hsound : Sound s.fs) (hname : (0 : Byte) ∉ name)
    (hlen : name.length ≤ TFTP_MAX_FILENAME_LEN) (hfile : files s.fs (str name) = some data) :
    ∃ t, run (step ctxt) s (downloadEvents peer name (count TFTP_MAX_PAYLOAD_SIZE data)) = t ∧
      t.handle = false ∧ files t.fs = files s.fs ∧
      t.net.sent = s.net.sent ++ downloadAnswers peer data := by
  obtain ⟨t, hstep, hsending, hsent⟩ :=
    download_request peer hs hidle hsound hname hlen hfile
  obtain ⟨n, hn⟩ : ∃ n, count TFTP_MAX_PAYLOAD_SIZE data = n + 1 := ⟨_, rfl⟩
  obtain ⟨t', hrun, hsent', hsending'⟩ := run_acks hsending (n := n) (by omega)
  obtain ⟨t'', hstep', hclosed, hfiles, hsent''⟩ := download_last hsending' hn.symm
  refine ⟨t'', ?_, hclosed, hfiles, ?_⟩
  · rw [downloadEvents, run_cons, hstep, hn, List.range_succ, List.map_append, run_append, hrun]
    exact hstep'
  · rw [hsent'', hsent', hsent, downloadAnswers, hn, List.range_succ_eq_map, List.map_cons,
      List.map_map, List.append_assoc]
    rfl

/-! ## Both -/

/-- Both, over the counts. -/
theorem run_both (peer : Endpoint) (hs : Reachable ctxt s) (hidle : s.handle = false)
    (hsound : Sound s.fs) (hname : (0 : Byte) ∉ name)
    (hlen : name.length ≤ TFTP_MAX_FILENAME_LEN) {stored : List Byte}
    (hstored : stored = data ++ ((files s.fs (str name)).getD []).drop data.length) :
    ∃ t, run (step ctxt) s (uploadEvents peer name data ++
        downloadEvents peer name (count TFTP_MAX_PAYLOAD_SIZE stored)) = t ∧
      t.handle = false ∧ files t.fs (str name) = some stored ∧
      t.net.sent = s.net.sent ++ uploadAnswers peer (count TFTP_MAX_PAYLOAD_SIZE data) ++
        downloadAnswers peer stored := by
  obtain ⟨t, hrun, hidle', hsound', hfile, hsent⟩ :=
    run_upload peer data hs.settled hidle hsound hname hlen
  rw [← hstored] at hfile
  have hset : Settled 0 t := hrun ▸ hs.settled.run _
  obtain ⟨t', hrun', hclosed, hfiles, hsent'⟩ :=
    run_download peer hset hidle' hsound' hname hlen hfile
  refine ⟨t', ?_, hclosed, ?_, ?_⟩
  · rw [run_append, hrun, hrun']
  · rw [hfiles, hfile]
  · rw [hsent', hsent]

/-- What a peer uploads it can download, with the end of the old file after it when that was longer:
without losses and without errors of the disk, the server acknowledges every block, has closed the
file, and sends the blocks of the file when they are asked for. -/
theorem upload_then_download {ν : Type} [Stack ν] {s : TftpState φ ν} (peer : Endpoint)
    (hs : Reachable ctxt s) (hidle : s.handle = false) (hsound : Sound s.fs)
    (hname : (0 : Byte) ∉ name) (hlen : name.length ≤ TFTP_MAX_FILENAME_LEN) {stored : List Byte}
    (hstored : stored = data ++ ((files s.fs (str name)).getD []).drop data.length) :
    ∃ t, run (step ctxt) s (uploadEvents peer name data ++
        downloadEvents peer name (count TFTP_MAX_PAYLOAD_SIZE stored)) = t ∧
      t.handle = false ∧ files t.fs (str name) = some stored ∧
      t.sent = s.sent ++ uploadAnswers peer (count TFTP_MAX_PAYLOAD_SIZE data) ++
        downloadAnswers peer stored := by
  obtain ⟨t, hrun, hclosed, hfile, hsent⟩ :=
    run_both peer hs.seen hidle hsound hname hlen hstored
  rw [← seen_run] at hrun
  subst hrun
  exact ⟨_, rfl, hclosed, hfile, hsent⟩

/-- Three bytes over a file of one. -/
theorem upload_then_download_bytes :
    ∃ t, run (step ctxt) (tftp_init card Counts.zero) (uploadEvents someone [0x46] [1, 2, 3] ++
        downloadEvents someone [0x46] 1) = t ∧
      t.sent = uploadAnswers someone 1 ++ downloadAnswers someone [1, 2, 3] := by
  have hs : Reachable ctxt (tftp_init card Counts.zero) := ⟨card, Counts.zero, [], rfl, rfl⟩
  obtain ⟨t, hrun, -, -, hsent⟩ := upload_then_download someone hs rfl rfl
    (show (0 : Byte) ∉ [0x46] by decide) (by decide) rfl
  exact ⟨t, hrun, hsent⟩

end Zpsc.TftpServer
