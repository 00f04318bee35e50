import Mathlib.Logic.Function.Basic
import Zpsc.Net.PscMsg

/-!
# The single-client PSC server (`listener.c`)

`psc_run` owns the listening socket and one client socket. One turn of its loop is `turn`: select,
accept, receive, heartbeat check and the periodic sends of `pscdata_poll`. Everything the server
does not decide is answered by a `Stack`: the result of each call, by the number of calls made
before it, and the messages each poll has to send.

The stack knows connections, the server only descriptors: `World.table` is the stack's table of the
accepted connections behind the open descriptors, and a descriptor that was closed may come back
from a later `accept` for another connection. The calls of a run are recorded in `World.log`, each
with the tick it was made at; an entry that names a descriptor carries the connection the stack
finds behind it.
-/

namespace Zpsc.Listener

open Bits PscMsg

/-- `psc_event`. -/
inductive PscEvent where
  | PSC_CONN
  | PSC_DIS
  deriving DecidableEq

/-- The reasons `disconnect_client` is called with. -/
inductive Reason where
  | newConnection
  | receiveError
  | heartbeatTimeout
  | sendError
  deriving DecidableEq

/-- What the server does, as the stack and the callbacks see it. -/
inductive Event where
  /-- `select`, with the client descriptor in its set. -/
  | select (client : Option (ℤ × Option ℕ))
  /-- `accept` returned `fd` for a new connection. -/
  | accept (fd : ℤ) (conn : ℕ)
  /-- `psc_sendmsg` is called. -/
  | sendmsg (fd : ℤ) (conn : Option ℕ) (m : Msg)
  /-- One `send` call and the bytes it took; `ok` is false if it returned 0 or -1. -/
  | send (fd : ℤ) (conn : Option ℕ) (bytes : List Byte) (ok : Bool)
  /-- One `recv` call. -/
  | recv (fd : ℤ) (conn : Option ℕ)
  /-- A message was received and the `recv` callback is called. -/
  | message (fd : ℤ) (conn : Option ℕ) (msgid : BitVec 16) (msglen : BitVec 32)
  /-- `shutdown` and `close`. -/
  | close (fd : ℤ) (conn : Option ℕ) (reason : Reason)
  /-- The `conn` callback is called. -/
  | callback (evt : PscEvent)
  deriving DecidableEq

/-- A call and the tick it was made at, counted without wrapping. -/
structure Entry where
  ev : Event
  time : ℕ
  deriving DecidableEq

/-- What is outside the server. Answers are indexed by the number of calls made before. -/
structure Stack where
  /-- The descriptor of the listening socket. -/
  listen_sock : ℤ
  /-- The word of the greeting. -/
  git_hash : BitVec 32
  configTICK_RATE_HZ : BitVec 32
  /-- `none` is an error; else whether the listening and the client descriptor are readable. -/
  select : ℕ → Option (Bool × Bool)
  /-- The descriptor `accept` returns, given which are in use. -/
  accept : ℕ → (ℤ → Bool) → Option ℤ
  /-- The answers to `send`. -/
  send : ℕ → Answer
  /-- The results of `recv`. -/
  recv : ℕ → RecvRet
  /-- The tick count without the wrap of `TickType_t`. -/
  tick : ℕ → ℕ
  /-- The messages of one `pscdata_poll`. -/
  poll : ℕ → List Msg
  accept_nonneg : ∀ {k inUse fd}, accept k inUse = some fd → 0 ≤ fd
  /-- A new descriptor is not in use. -/
  accept_free : ∀ {k inUse fd}, accept k inUse = some fd → inUse fd = false
  send_errno : ErrnoSet send
  recv_errno : ∀ {k e}, recv k = .failed e → e ≠ 0
  tick_mono : ∀ {j k}, j ≤ k → tick j ≤ tick k

/-- `struct psc_key`, and the stack's side of the run. -/
structure World where
  /-- Negative without a client. -/
  client_sock : ℤ
  /-- The tick of the last message. -/
  last_rx_tick : BitVec 32
  /-- The payload of the last message, over those before. -/
  rxbuf : Buf
  /-- The connection of each descriptor in use. -/
  table : ℤ → Option ℕ
  /-- The number of connections accepted so far, which names the next one. -/
  conns : ℕ
  /-- The number of calls made so far. -/
  calls : ℕ
  /-- The calls and their ticks, oldest first. -/
  log : List Entry

/-- After `mem_calloc` and the setup of the listening socket. -/
def World.init : World where
  client_sock := -1
  last_rx_tick := 0
  rxbuf := fun _ => 0
  table := fun _ => none
  conns := 0
  calls := 0
  log := []

variable (st : Stack)

/-- One call, recorded. -/
def World.emit (w : World) (e : Event) : World :=
  { w with calls := w.calls + 1, log := w.log ++ [⟨e, st.tick w.calls⟩] }

def xTaskGetTickCount (w : World) : BitVec 32 := BitVec.ofNat 32 (st.tick w.calls)

def pdMS_TO_TICKS (ms : BitVec 32) : BitVec 32 := ms * st.configTICK_RATE_HZ / 1000

/-- `PSC_HEARTBEAT_TIMEOUT_MS`. -/
def PSC_HEARTBEAT_TIMEOUT_MS : BitVec 32 := 5000

/-- `send` and `recv` on a descriptor of the stack. -/
def sockets : Sockets World where
  send fd buf w :=
    match st.send w.calls with
    | .moves n =>
      (.sent (min n (buf.length - 1)), w.emit st (.send fd (w.table fd) (buf.take (n + 1)) true))
    | .closed => (.closed, w.emit st (.send fd (w.table fd) [] false))
    | .failed e => (.failed e, w.emit st (.send fd (w.table fd) [] false))
  recv fd buflen w :=
    match st.recv w.calls with
    | .got b bs => (.got b (bs.take (buflen - 1)), w.emit st (.recv fd (w.table fd)))
    | .closed => (.closed, w.emit st (.recv fd (w.table fd)))
    | .failed e => (.failed e, w.emit st (.recv fd (w.table fd)))

/-- `shutdown(sock); close(sock)`. -/
def close (sock : ℤ) (reason : Reason) (w : World) : World :=
  { w.emit st (.close sock (w.table sock) reason) with
    table := Function.update w.table sock none }

/-- `disconnect_client`. `client_event` returns at once for every event but `PSC_CONN`, so the
`PSC_DIS` callback does nothing more. -/
def disconnect_client (reason : Reason) (w : World) : World :=
  if w.client_sock < 0 then
    w
  else
    let sock := w.client_sock
    let w := { w with client_sock := -1 }
    let w := close st sock reason w
    w.emit st (.callback .PSC_DIS)

def psc_send (m : Msg) (w : World) : World :=
  if w.client_sock < 0 then
    w
  else
    let sock := w.client_sock
    let w := w.emit st (.sendmsg sock (w.table sock) m)
    let (ret, w) := psc_sendmsg (sockets st) sock m w
    if !ret.isZero then
      if w.client_sock = sock then disconnect_client st .sendError w else w
    else w

/-- The message `client_event` sends to a new client: `git_hash` and a serial number of 0. -/
def hello : Msg where
  msgid := 0x100
  payload := toBe32 st.git_hash ++ toBe32 0
  fits := by simp [toBe32]

/-- `client_event` for `PSC_CONN`. -/
def client_event (w : World) : World := psc_send st (hello st) w

def accept_client (w : World) : World :=
  match st.accept w.calls (fun fd => fd == st.listen_sock || (w.table fd).isSome) with
  | none => { w with calls := w.calls + 1 }
  | some sock =>
    let w := { w.emit st (.accept sock w.conns) with
      table := Function.update w.table sock (some w.conns)
      conns := w.conns + 1 }
    let w := if 0 ≤ w.client_sock then disconnect_client st .newConnection w else w
    let w := { w with client_sock := sock, last_rx_tick := xTaskGetTickCount st w }
    let w := w.emit st (.callback .PSC_CONN)
    client_event st w

/-- The receive path of the loop. `client_msg` does not use the socket. -/
def receive (selected_client : ℤ) (w : World) : World :=
  let (r, w) :=
    psc_recvmsg (sockets st) selected_client 0 w.rxbuf (BitVec.ofNat 32 PSC_MAX_RX_MSG_LEN) w
  let w := { w with rxbuf := r.buf }
  if !r.ret.isZero then
    disconnect_client st .receiveError w
  else
    let w := { w with last_rx_tick := xTaskGetTickCount st w }
    w.emit st (.message selected_client (w.table selected_client) r.msgid r.msglen)

/-- The heartbeat check. -/
def heartbeat (w : World) : World :=
  if 0 ≤ w.client_sock ∧
      (pdMS_TO_TICKS st PSC_HEARTBEAT_TIMEOUT_MS).toNat ≤
        (xTaskGetTickCount st w - w.last_rx_tick).toNat then
    disconnect_client st .heartbeatTimeout w
  else w

/-- `pscdata_poll`: a `psc_send` for each message of this poll. The senders do not look at the
connection. -/
def pscdata_poll (w : World) : World :=
  (st.poll w.calls).foldl (fun w m => psc_send st m w) w

/-- What follows `select`: nothing on an error, else accept, then receive. -/
def serve (selected_client : ℤ) (ready : Option (Bool × Bool)) (w : World) : World :=
  match ready with
  | none => w
  | some (listenReady, clientReady) =>
    let w := if listenReady then accept_client st w else w
    if 0 ≤ selected_client ∧ w.client_sock = selected_client ∧ clientReady then
      receive st selected_client w
    else w

/-- One turn of the loop of `psc_run`. -/
def turn (w : World) : World :=
  let selected_client := w.client_sock
  let ready := st.select w.calls
  let w := w.emit st (.select
    (if 0 ≤ selected_client then some (selected_client, w.table selected_client) else none))
  let w := serve st selected_client ready w
  let w := heartbeat st w
  pscdata_poll st w

/-- `psc_run` after `n` turns. -/
def psc_run : ℕ → World
  | 0 => World.init
  | n + 1 => turn st (psc_run n)

end Zpsc.Listener
