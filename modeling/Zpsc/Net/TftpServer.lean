import Zpsc.Clocked.Run
import Zpsc.Net.Lwip
import Zpsc.Net.Tftp
import Zpsc.Protocol.Blocks

/-!
# The TFTP server (`tftp_server.c`)

One transfer at a time. lwIP calls `recv` for each datagram on the port and `tftp_tmr` when a
timeout that `sys_timeout` has set expires. What `pbuf_alloc` makes of the calls for packets to send
is an input; the server ignores what `udp_sendto` returns. lwIP is a parameter (`Lwip.Stack`), and
the file system is behind the callbacks of a `tftp_context`.
-/

namespace Zpsc.TftpServer

open Bits Clocked
open Lwip (Counts Endpoint Stack)
open Tftp (TFTP_MAX_PAYLOAD_SIZE tot_len)

/-! ## The source -/

def TFTP_HEADER_LENGTH : ℕ := 4

def TFTP_RRQ : BitVec 16 := 1

def TFTP_WRQ : BitVec 16 := 2

def TFTP_DATA : BitVec 16 := 3

def TFTP_ACK : BitVec 16 := 4

def TFTP_ERROR : BitVec 16 := 5

def TFTP_ERROR_FILE_NOT_FOUND : BitVec 16 := 1

def TFTP_ERROR_ACCESS_VIOLATION : BitVec 16 := 2

def TFTP_ERROR_ILLEGAL_OPERATION : BitVec 16 := 4

def TFTP_ERROR_UNKNOWN_TRFR_ID : BitVec 16 := 5

def TFTP_MAX_FILENAME_LEN : ℕ := 20

def TFTP_MAX_MODE_LEN : ℕ := 7

def TFTP_MAX_RETRIES : ℕ := 5

/-- `TFTP_TIMEOUT_MSECS / TFTP_TIMER_MSECS`. -/
def TIMEOUT_TICKS : ℤ := 10

/-- The callbacks over a file system `σ`. The handle is `NULL` when `open` returns `false`, and a
negative `ret` of `read` is `none`. -/
structure TftpContext (σ : Type) where
  «open» : σ → List Byte → List Byte → Bool → Bool × σ
  close : σ → σ
  read : σ → ℕ → Option (List Byte) × σ
  write : σ → List (List Byte) → ℤ × σ

/-- `tftp_state`, the file system and lwIP. -/
structure TftpState (σ ν : Type) where
  /-- There is a transfer. -/
  handle : Bool
  /-- The packet with the block of a read transfer that was sent last. -/
  last_data : Option (List Byte)
  /-- The peer of the transfer, 0 without one. -/
  addr : BitVec 32
  port : BitVec 16
  /-- The calls of `tftp_tmr`. -/
  timer : ℤ
  /-- `timer` at the last datagram of the peer. -/
  last_pkt : ℤ
  /-- The block that was sent last or is waited for. -/
  blknum : BitVec 16
  /-- How often `last_data` has been sent again since then. -/
  retries : ℕ
  /-- The transfer is an upload. -/
  mode_write : Bool
  fs : σ
  net : ν

/-- A datagram as a chain of at least one buffer. -/
structure Datagram where
  addr : BitVec 32
  port : BitVec 16
  /-- The payload of the first buffer. -/
  first : List Byte
  /-- What the memory has after that payload. -/
  stale : List Byte
  /-- The payloads of the other buffers. -/
  rest : List (List Byte)

/-- The outcomes of the first and the second call of `pbuf_alloc`. -/
structure Alloc where
  first : Bool
  second : Bool

variable {σ ν : Type} [Stack ν]

def Datagram.endpoint (d : Datagram) : Endpoint := ⟨d.addr, d.port⟩

def Datagram.payloads (d : Datagram) : List (List Byte) := d.first :: d.rest

/-- `lwip_ntohs(sbuf[i])`. -/
def Datagram.sbuf (d : Datagram) (i : ℕ) : BitVec 16 :=
  let mem := d.first ++ d.stale
  be16 (mem.getD (2 * i) 0) (mem.getD (2 * i + 1) 0)

def TftpState.peer (s : TftpState σ ν) : Endpoint := ⟨s.addr, s.port⟩

/-- What was sent, oldest first. -/
def TftpState.sent (s : TftpState σ ν) : List (Endpoint × List Byte) := (Stack.counts s.net).sent

/-- A packet: the operation, a block number or an error code, and the rest. -/
def packet (opcode x : BitVec 16) (body : List Byte) : List Byte :=
  toBe16 opcode ++ toBe16 x ++ body

/-- The bytes of a string, with the 0 at its end. -/
def cstring (str : String) : List Byte := (str.toList.map fun c => BitVec.ofNat 8 c.toNat) ++ [0]

/-- The string in a buffer. -/
def untilNull (buf : List Byte) : List Byte := buf.takeWhile (· ≠ 0)

def pbuf_alloc (s : TftpState σ ν) : TftpState σ ν := { s with net := Stack.pbuf_alloc s.net }

def pbuf_free (s : TftpState σ ν) : TftpState σ ν := { s with net := Stack.pbuf_free s.net }

def udp_sendto (s : TftpState σ ν) (dst : Endpoint) (p : List Byte) : TftpState σ ν :=
  { s with net := Stack.udp_sendto s.net dst p }

/-- A packet is sent in a buffer of its own. -/
def sendPacket (s : TftpState σ ν) (dst : Endpoint) (p : List Byte) (alloc : Bool) :
    TftpState σ ν :=
  if alloc then pbuf_free (udp_sendto (pbuf_alloc s) dst p) else s

def sys_timeout (s : TftpState σ ν) : TftpState σ ν := { s with net := Stack.sys_timeout s.net }

def sys_untimeout (s : TftpState σ ν) : TftpState σ ν :=
  { s with net := Stack.sys_untimeout s.net }

variable (ctx : TftpContext σ)

def close_handle (s : TftpState σ ν) : TftpState σ ν :=
  let s := { s with port := 0, addr := 0 }
  let s := if s.last_data.isSome then { pbuf_free s with last_data := none } else s
  let s := sys_untimeout s
  if s.handle then { s with fs := ctx.close s.fs, handle := false } else s

def send_error (s : TftpState σ ν) (dst : Endpoint) (code : BitVec 16) (str : String)
    (alloc : Bool) : TftpState σ ν :=
  sendPacket s dst (packet TFTP_ERROR code (cstring str)) alloc

def send_ack (s : TftpState σ ν) (blknum : BitVec 16) (alloc : Bool) : TftpState σ ν :=
  sendPacket s s.peer (packet TFTP_ACK blknum []) alloc

/-- Only called when there is `last_data`. -/
def resend_data (s : TftpState σ ν) (alloc : Bool) : TftpState σ ν :=
  sendPacket s s.peer (s.last_data.getD []) alloc

/-- Of the buffer that an error of `read` leaves only the header is known. -/
def send_data (s : TftpState σ ν) (a : Alloc) : TftpState σ ν :=
  let s := if s.last_data.isSome then pbuf_free s else s
  if !a.first then { s with last_data := none }
  else
    let s := { pbuf_alloc s with last_data := some (packet TFTP_DATA s.blknum []) }
    match ctx.read s.fs TFTP_MAX_PAYLOAD_SIZE with
    | (none, fs) =>
      close_handle ctx (send_error { s with fs } s.peer TFTP_ERROR_ACCESS_VIOLATION
        "Error occurred while reading the file." a.second)
    | (some data, fs) =>
      resend_data { s with fs, last_data := some (packet TFTP_DATA s.blknum data) } a.second

/-- The datagram does not come from the peer of the transfer. -/
def foreign (s : TftpState σ ν) (d : Datagram) : Bool :=
  (s.port != 0 && d.port != s.port) || (s.addr != 0 && s.addr != d.addr)

section Request

variable (ν : Type) [Stack ν]

/-- `filename_end_offset` of a request. -/
def Datagram.filename_end_offset (d : Datagram) : BitVec 16 :=
  Stack.pbuf_memfind ν d.payloads.flatten 2

def Datagram.mode_end_offset (d : Datagram) : BitVec 16 :=
  Stack.pbuf_memfind ν d.payloads.flatten ((d.filename_end_offset ν).toNat + 1)

def Datagram.filename (d : Datagram) : List Byte :=
  untilNull ((d.payloads.flatten.drop 2).take (d.filename_end_offset ν - 1).toNat)

def Datagram.mode (d : Datagram) : List Byte :=
  untilNull ((d.payloads.flatten.drop ((d.filename_end_offset ν).toNat + 1)).take
    (d.mode_end_offset ν - d.filename_end_offset ν).toNat)

/-- The rest of a data packet. -/
def Datagram.data (d : Datagram) : List (List Byte) :=
  Stack.pbuf_remove_header ν d.payloads TFTP_HEADER_LENGTH

end Request

/-- A request whose strings fit: the file is opened. -/
def openFile (s : TftpState σ ν) (d : Datagram) (write : Bool) (a : Alloc) : TftpState σ ν :=
  let (handle, fs) := ctx.open s.fs (d.filename ν) (d.mode ν) write
  let s := { s with handle, fs, blknum := 1 }
  if !handle then
    send_error s d.endpoint TFTP_ERROR_FILE_NOT_FOUND "Unable to open requested file." a.first
  else
    let s := { s with addr := d.addr, port := d.port, mode_write := write }
    if write then send_ack s 0 a.first else send_data ctx s a

/-- The cases `TFTP_RRQ` and `TFTP_WRQ`. -/
def recvRequest (s : TftpState σ ν) (d : Datagram) (write : Bool) (a : Alloc) : TftpState σ ν :=
  if s.handle then
    send_error s d.endpoint TFTP_ERROR_ACCESS_VIOLATION
      "Only one connection at a time is supported" a.first
  else if TFTP_MAX_FILENAME_LEN + 1 < (d.filename_end_offset ν - 1).toNat then
    send_error (sys_timeout s) d.endpoint TFTP_ERROR_ACCESS_VIOLATION
      "Filename too long/not NULL terminated" a.first
  else if TFTP_MAX_MODE_LEN + 1 < (d.mode_end_offset ν - d.filename_end_offset ν).toNat then
    send_error (sys_timeout s) d.endpoint TFTP_ERROR_ACCESS_VIOLATION
      "Mode too long/not NULL terminated" a.first
  else openFile ctx (sys_timeout s) d write a

/-- The answer to a block, by what `write` has returned. -/
def answerBlock (s : TftpState σ ν) (d : Datagram) (ret : ℤ) (a : Alloc) : TftpState σ ν :=
  if ret < 0 then
    close_handle ctx
      (send_error s d.endpoint TFTP_ERROR_ACCESS_VIOLATION "error writing file" a.first)
  else send_ack s (d.sbuf 1) a.first

/-- The block that the transfer waits for. -/
def recvBlock (s : TftpState σ ν) (d : Datagram) (a : Alloc) : TftpState σ ν :=
  let p := d.data ν
  let s := answerBlock ctx { s with fs := (ctx.write s.fs p).2 } d (ctx.write s.fs p).1 a
  if (tot_len p).toNat < TFTP_MAX_PAYLOAD_SIZE then close_handle ctx s
  else { s with blknum := s.blknum + 1 }

/-- The case `TFTP_DATA`. -/
def recvData (s : TftpState σ ν) (d : Datagram) (a : Alloc) : TftpState σ ν :=
  if !s.handle then
    send_error s d.endpoint TFTP_ERROR_ACCESS_VIOLATION "No connection" a.first
  else if !s.mode_write then
    send_error s d.endpoint TFTP_ERROR_ACCESS_VIOLATION "Not a write connection" a.first
  else if d.sbuf 1 = s.blknum then recvBlock ctx s d a
  else if d.sbuf 1 + 1 = s.blknum then send_ack s (d.sbuf 1) a.first
  else send_error s d.endpoint TFTP_ERROR_UNKNOWN_TRFR_ID "Wrong block number" a.first

/-- `last_data` is a block shorter than the others. -/
def lastpkt (s : TftpState σ ν) : Bool :=
  match s.last_data with
  | some p => p.length ≠ TFTP_MAX_PAYLOAD_SIZE + TFTP_HEADER_LENGTH
  | none => false

/-- The case `TFTP_ACK`. -/
def recvAck (s : TftpState σ ν) (d : Datagram) (a : Alloc) : TftpState σ ν :=
  if !s.handle then
    send_error s d.endpoint TFTP_ERROR_ACCESS_VIOLATION "No connection" a.first
  else if s.mode_write then
    send_error s d.endpoint TFTP_ERROR_ACCESS_VIOLATION "Not a read connection" a.first
  else if d.sbuf 1 ≠ s.blknum then
    send_error s d.endpoint TFTP_ERROR_UNKNOWN_TRFR_ID "Wrong block number" a.first
  else if !lastpkt s then send_data ctx { s with blknum := s.blknum + 1 } a
  else close_handle ctx s

/-- The `switch` over the operation. -/
def dispatch (s : TftpState σ ν) (d : Datagram) (a : Alloc) : TftpState σ ν :=
  if d.sbuf 0 = TFTP_RRQ then recvRequest ctx s d false a
  else if d.sbuf 0 = TFTP_WRQ then recvRequest ctx s d true a
  else if d.sbuf 0 = TFTP_DATA then recvData ctx s d a
  else if d.sbuf 0 = TFTP_ACK then recvAck ctx s d a
  else send_error s d.endpoint TFTP_ERROR_ILLEGAL_OPERATION "Unknown operation" a.first

def recv (s : TftpState σ ν) (d : Datagram) (a : Alloc) : TftpState σ ν :=
  if foreign s d then
    pbuf_free (send_error s d.endpoint TFTP_ERROR_ACCESS_VIOLATION
      "Only one connection at a time is supported" a.first)
  else pbuf_free (dispatch ctx { s with last_pkt := s.timer, retries := 0 } d a)

/-- `tftp_tmr` during a transfer. -/
def timeout (s : TftpState σ ν) (a : Alloc) : TftpState σ ν :=
  if s.timer - s.last_pkt > TIMEOUT_TICKS then
    if s.last_data.isSome && s.retries < TFTP_MAX_RETRIES then
      { resend_data s a.first with retries := s.retries + 1 }
    else close_handle ctx s
  else s

def tftp_tmr (s : TftpState σ ν) (a : Alloc) : TftpState σ ν :=
  let s := { s with timer := s.timer + 1 }
  if !s.handle then s else timeout ctx (sys_timeout s) a

/-- The state at the start: what `tftp_init` does not set is 0. -/
def tftp_init (fs : σ) (net : ν) : TftpState σ ν where
  handle := false
  last_data := none
  addr := 0
  port := 0
  timer := 0
  last_pkt := 0
  blknum := 0
  retries := 0
  mode_write := false
  fs := fs
  net := net

inductive Event where
  | recv (d : Datagram) (a : Alloc)
  | tmr (a : Alloc)

/-- One call from lwIP, which hands over a datagram or calls `tftp_tmr` when a timeout expires. -/
def step (s : TftpState σ ν) : Event → TftpState σ ν
  | .recv d a => recv ctx { s with net := Stack.receive s.net } d a
  | .tmr a =>
    if (Stack.counts s.net).timeouts = 0 then s
    else tftp_tmr ctx { s with net := Stack.expire s.net } a

/-- A state that the server gets into after `tftp_init`, with the calls counted from there. -/
def Reachable (s : TftpState σ ν) : Prop :=
  ∃ fs net evs, Stack.counts net = Counts.zero ∧ s = run (step ctx) (tftp_init fs net) evs

/-! ## What the server holds -/

/-- The state with lwIP seen as the counts. -/
def TftpState.seen (s : TftpState σ ν) : TftpState σ Counts where
  handle := s.handle
  last_data := s.last_data
  addr := s.addr
  port := s.port
  timer := s.timer
  last_pkt := s.last_pkt
  blknum := s.blknum
  retries := s.retries
  mode_write := s.mode_write
  fs := s.fs
  net := Stack.counts s.net

/-- The number of buffers that the server keeps between two calls. -/
def held (s : TftpState σ ν) : ℤ := if s.last_data.isSome then 1 else 0

/-- What the server has taken, when a call works on `k` buffers. A transfer has a timeout that will
end it, and without a transfer there is no peer. Only the block of a read transfer that may be sent
again is kept in a buffer, and it is the block with the number `blknum`. -/
structure Settled (k : ℤ) (s : TftpState σ Counts) : Prop where
  pbufs : s.net.pbufs = held s + k
  timeout : s.handle = true → 0 < s.net.timeouts
  clock : s.last_pkt ≤ s.timer
  retries : s.retries ≤ TFTP_MAX_RETRIES
  idle : s.handle = false → s.peer = ⟨0, 0⟩ ∧ s.last_data = none
  block : ∀ p, s.last_data = some p →
    s.mode_write = false ∧ ∃ data, p = packet TFTP_DATA s.blknum data

/-- What the callbacks do to the file: `opened` tells whether it is open. -/
structure Files (opened : σ → Bool) : Prop where
  open_file : ∀ fs fname mode write, opened fs = false →
    opened (ctx.open fs fname mode write).2 = (ctx.open fs fname mode write).1
  close : ∀ fs, opened (ctx.close fs) = false
  read : ∀ fs n, opened (ctx.read fs n).2 = opened fs
  write : ∀ fs p, opened (ctx.write fs p).2 = opened fs

/-! ## Silence -/

/-- The timer since the last datagram of the peer. -/
def silence (s : TftpState σ ν) : ℤ := s.timer - s.last_pkt

/-- The number of timeouts among the events. -/
def ticks (evs : List Event) : ℕ :=
  evs.countP fun e => match e with
    | .tmr _ => true
    | .recv _ _ => false

/-- None of the datagrams comes from the peer of the transfer. -/
def Foreign (s : TftpState σ ν) (evs : List Event) : Prop :=
  ∀ d a, Event.recv d a ∈ evs → foreign s d = true

/-- What is sent to an endpoint. -/
def sentTo (peer : Endpoint) (sent : List (Endpoint × List Byte)) : List (List Byte) :=
  (sent.filter fun x => x.1 = peer).map Prod.snd

/-- The transfer is on before each of the events. -/
def OpenThroughout (s : TftpState σ ν) (evs : List Event) : Prop :=
  ∀ pre e post, evs = pre ++ e :: post → (run (step ctx) s pre).handle = true

end Zpsc.TftpServer
