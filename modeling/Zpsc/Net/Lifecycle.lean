import Zpsc.Net.Listener
import Zpsc.Protocol.Trace

/-!
# The life of a client connection

What the server may do, one entry at a time, as a machine of its own: there is no client, or one
client that has been greeted and is in the middle of at most one frame, or one of the short phases
in between (a connection is accepted and announced, a superseded or failed one is closed and its
end announced). `Step` says which entry each phase admits. The server refines this machine, and
what is promised of its runs is read off the machine.
-/

namespace Zpsc.Lifecycle

open Bits PscMsg Listener

/-- Where the server stands. `fd` and `c` are the descriptor and the connection behind it. -/
inductive Phase where
  /-- No client. -/
  | idle
  /-- A client, last heard of at tick `last`, to which the bytes `left` of a frame are still to be
  sent. -/
  | live (fd : ℤ) (c : ℕ) (last : ℕ) (left : List Byte)
  /-- A connection was accepted while the client `c` is there; `c` is to be closed. -/
  | swap (fd : ℤ) (c : ℕ) (fd' : ℤ) (c' : ℕ)
  /-- The superseded client is closed; its end is to be announced. -/
  | swapped (fd' : ℤ) (c' : ℕ)
  /-- A connection was accepted; it is to be announced. -/
  | accepted (fd : ℤ) (c : ℕ)
  /-- The connection is announced and is to be greeted. -/
  | greeting (fd : ℤ) (c : ℕ) (last : ℕ)
  /-- A `send` failed; the client is to be closed. -/
  | failed (fd : ℤ) (c : ℕ)
  /-- The client is closed; its end is to be announced. -/
  | closed
  deriving DecidableEq

/-- A phase, the number of connections accepted, the client in the last `select` set, and the tick
of the last entry. -/
structure State where
  phase : Phase
  conns : ℕ
  selected : Option (ℤ × ℕ)
  now : ℕ

def State.init : State where
  phase := .idle
  conns := 0
  selected := none
  now := 0

variable (hello : Msg) (timeout : ℕ)

/-- The phases a phase may turn into, and on which entry. -/
inductive Move (conns : ℕ) (selected : Option (ℤ × ℕ)) : Phase → Event → ℕ → Phase → Prop where
  | accept {fd : ℤ} {t : ℕ} : 0 ≤ fd → Move conns selected .idle (.accept fd conns) t
      (.accepted fd conns)
  | supersede {fd fd' : ℤ} {c last t : ℕ} : 0 ≤ fd' → fd' ≠ fd →
      Move conns selected (.live fd c last []) (.accept fd' conns) t (.swap fd c fd' conns)
  | closeOld {fd fd' : ℤ} {c c' t : ℕ} :
      Move conns selected (.swap fd c fd' c') (.close fd (some c) .newConnection) t
        (.swapped fd' c')
  | announceOld {fd' : ℤ} {c' t : ℕ} :
      Move conns selected (.swapped fd' c') (.callback .PSC_DIS) t (.accepted fd' c')
  | announce {fd : ℤ} {c t : ℕ} :
      Move conns selected (.accepted fd c) (.callback .PSC_CONN) t (.greeting fd c t)
  | greet {fd : ℤ} {c last t : ℕ} :
      Move conns selected (.greeting fd c last) (.sendmsg fd (some c) hello) t
        (.live fd c last hello.frame)
  | sendmsg {fd : ℤ} {c last t : ℕ} {m : Msg} :
      Move conns selected (.live fd c last []) (.sendmsg fd (some c) m) t
        (.live fd c last m.frame)
  | send {fd : ℤ} {c last t : ℕ} {bytes left : List Byte} : bytes ≠ [] →
      Move conns selected (.live fd c last (bytes ++ left)) (.send fd (some c) bytes true) t
        (.live fd c last left)
  | fail {fd : ℤ} {c last t : ℕ} {left : List Byte} : left ≠ [] →
      Move conns selected (.live fd c last left) (.send fd (some c) [] false) t (.failed fd c)
  | recv {fd : ℤ} {c last t : ℕ} : selected = some (fd, c) →
      Move conns selected (.live fd c last []) (.recv fd (some c)) t (.live fd c last [])
  | message {fd : ℤ} {c last t : ℕ} {msgid : BitVec 16} {msglen : BitVec 32} :
      Move conns selected (.live fd c last []) (.message fd (some c) msgid msglen) t
        (.live fd c t [])
  | closeReceive {fd : ℤ} {c last t : ℕ} :
      Move conns selected (.live fd c last []) (.close fd (some c) .receiveError) t .closed
  | closeHeartbeat {fd : ℤ} {c last t : ℕ} : last + timeout ≤ t →
      Move conns selected (.live fd c last []) (.close fd (some c) .heartbeatTimeout) t .closed
  | closeFailed {fd : ℤ} {c t : ℕ} :
      Move conns selected (.failed fd c) (.close fd (some c) .sendError) t .closed
  | announceEnd {t : ℕ} : Move conns selected .closed (.callback .PSC_DIS) t .idle

/-- One entry. -/
inductive Step : State → Entry → State → Prop where
  /-- `select` with no client in its set. -/
  | selectIdle {n now t : ℕ} {sel : Option (ℤ × ℕ)} : now ≤ t →
      Step ⟨.idle, n, sel, now⟩ ⟨.select none, t⟩ ⟨.idle, n, none, t⟩
  /-- `select` with the client in its set. -/
  | selectLive {n now t c last : ℕ} {fd : ℤ} {sel : Option (ℤ × ℕ)} : now ≤ t →
      Step ⟨.live fd c last [], n, sel, now⟩ ⟨.select (some (fd, some c)), t⟩
        ⟨.live fd c last [], n, some (fd, c), t⟩
  | move {n now t : ℕ} {sel : Option (ℤ × ℕ)} {p p' : Phase} {e : Event} : now ≤ t →
      Move hello timeout n sel p e t p' →
      Step ⟨p, n, sel, now⟩ ⟨e, t⟩
        ⟨p', n + (match e with | .accept _ _ => 1 | _ => 0), sel, t⟩

/-- The logs of the machine. -/
abbrev Runs : List Entry → State → Prop := Protocol.Trace (Step hello timeout) State.init

/-! ## What is read off a log -/

/-- `e` is the accept of connection `c`. -/
def Accepts (c : ℕ) (e : Entry) : Bool :=
  match e.ev with
  | .accept _ c' => c' == c
  | _ => false

/-- `e` closes connection `c`. -/
def Closes (c : ℕ) (e : Entry) : Bool :=
  match e.ev with
  | .close _ (some c') _ => c' == c
  | _ => false

/-- `e` is a message received on connection `c`. -/
def Hears (c : ℕ) (e : Entry) : Bool :=
  match e.ev with
  | .message _ (some c') _ _ => c' == c
  | _ => false

/-- `e` is a `send` on connection `c`. -/
def Sends (c : ℕ) (e : Entry) : Bool :=
  match e.ev with
  | .send _ (some c') _ _ => c' == c
  | _ => false

/-- `e` is a `send` on connection `c` that returned 0 or -1. -/
def Fails (c : ℕ) (e : Entry) : Bool :=
  match e.ev with
  | .send _ (some c') _ ok => c' == c && !ok
  | _ => false

/-- The bytes `e` sends on connection `c`. -/
def bytesOf (c : ℕ) (e : Entry) : List Byte :=
  match e.ev with
  | .send _ (some c') bytes _ => if c' = c then bytes else []
  | _ => []

/-- The descriptor and the connection that a `send` or a `recv` is issued on. -/
def target (e : Entry) : Option (ℤ × Option ℕ) :=
  match e.ev with
  | .send fd conn _ _ => some (fd, conn)
  | .recv fd conn => some (fd, conn)
  | _ => none

def callbackOf (e : Entry) : Option PscEvent :=
  match e.ev with
  | .callback evt => some evt
  | _ => none

def selectOf (e : Entry) : Option (Option (ℤ × Option ℕ)) :=
  match e.ev with
  | .select set => some set
  | _ => none

/-- Connection `c` was accepted and has not been closed. -/
def Open (log : List Entry) (c : ℕ) : Prop :=
  (∃ e ∈ log, Accepts c e) ∧ ∀ e ∈ log, Closes c e = false

/-- The bytes sent on connection `c`. -/
def bytesOn (log : List Entry) (c : ℕ) : List Byte := log.flatMap (bytesOf c)

/-- The client in the set of the last `select`. -/
def lastSelect (log : List Entry) : Option (Option (ℤ × Option ℕ)) :=
  (log.filterMap selectOf).getLast?

/-- Complete frames `ms`, then a proper beginning of one more frame `m`, which may be empty; the
first of all is `hello`. -/
def WellFormed (bs : List Byte) : Prop :=
  ∃ (ms : List Msg) (m : Msg) (rest : List Byte),
    bs = ms.flatMap Msg.frame ++ rest ∧ rest <+: m.frame ∧ rest ≠ m.frame ∧
      (ms ++ [m]).head? = some hello

end Zpsc.Lifecycle
