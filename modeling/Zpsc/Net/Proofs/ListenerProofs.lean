import Zpsc.Net.Proofs.LifecycleProofs
import Zpsc.Net.Proofs.PscMsgProofs

/-!
# The server keeps the life of a connection

`At st w p sel` says that the log of `w` is a log of `Lifecycle` that ends in phase `p`. Every
function of the server has one lemma that takes it from phase to phase; between two turns the
server is `Settled`: it has no client, or one that owes no byte. The promises of `psc_run` are
those of the machine.
-/

namespace Zpsc.Listener

open Bits PscMsg Lifecycle

variable (st : Stack)

/-- The heartbeat timeout in ticks. -/
def timeoutTicks : ℕ := (pdMS_TO_TICKS st PSC_HEARTBEAT_TIMEOUT_MS).toNat

/-- The log of `w` is a log of the machine that ends in phase `p`. -/
def At (w : World) (p : Phase) (sel : Option (ℤ × ℕ)) : Prop :=
  ∃ now, Runs (hello st) (timeoutTicks st) w.log ⟨p, w.conns, sel, now⟩ ∧ now ≤ st.tick w.calls

/-- Nothing of the server's own state changes. -/
structure Same (w w' : World) : Prop where
  client_sock : w'.client_sock = w.client_sock
  last_rx_tick : w'.last_rx_tick = w.last_rx_tick
  table : w'.table = w.table

variable {st} {w w' w'' : World} {p p' : Phase} {sel : Option (ℤ × ℕ)} {fd : ℤ} {c last : ℕ}

theorem Same.refl : Same w w := ⟨rfl, rfl, rfl⟩

theorem Same.trans (h : Same w w') (h' : Same w' w'') : Same w w'' :=
  ⟨h'.client_sock.trans h.client_sock, h'.last_rx_tick.trans h.last_rx_tick,
    h'.table.trans h.table⟩

theorem same_emit (e : Event) : Same w (w.emit st e) := ⟨rfl, rfl, rfl⟩

/-- One call moves the machine on. -/
theorem At.emit {e : Event} (h : At st w p sel)
    (hm : Move (hello st) (timeoutTicks st) w.conns sel p e (st.tick w.calls) p')
    (hna : ∀ fd c, e ≠ .accept fd c) : At st (w.emit st e) p' sel := by
  obtain ⟨now, hr, hle⟩ := h
  refine ⟨st.tick w.calls, ?_, st.tick_mono (Nat.le_succ _)⟩
  have hs := hr.snoc (Step.move hle hm)
  cases e with
  | accept fd c => exact absurd rfl (hna fd c)
  | _ => exact hs

/-! ## Sending -/

theorem sendall_spec (buf more : List Byte) (w : World)
    (h : At st w (.live fd c last (buf ++ more)) sel) (ht : w.table fd = some c)
    {r : Code × World} (hr : psc_sendall (sockets st) fd buf w = r) :
    Same w r.2 ∧
      ((r.1 = .zero ∧ At st r.2 (.live fd c last more) sel) ∨
        (r.1.isZero = false ∧ At st r.2 (.failed fd c) sel)) := by
  induction hn : buf.length using Nat.strongRecOn generalizing buf w with
  | _ n ih =>
    subst hn
    by_cases hb : buf = []
    · subst hb
      rw [sendall_nil] at hr
      subst hr
      exact ⟨Same.refl, Or.inl ⟨rfl, h⟩⟩
    · have hpos : 0 < buf.length := List.length_pos_iff.mpr hb
      have hne : buf ++ more ≠ [] := List.append_ne_nil_of_left_ne_nil hb more
      cases ha : st.send w.calls with
      | moves m =>
        have htake : buf.take (m + 1) = buf.take (min m (buf.length - 1) + 1) := by
          rw [List.take_eq_take_iff]
          omega
        have hsend : (sockets st).send fd buf w = (.sent (min m (buf.length - 1)),
            w.emit st (.send fd (some c) (buf.take (min m (buf.length - 1) + 1)) true)) := by
          simp only [sockets, ha, ht, htake]
        rw [sendall_sent hb hsend] at hr
        obtain ⟨k, hk⟩ : ∃ k, k = min m (buf.length - 1) + 1 := ⟨_, rfl⟩
        rw [← hk] at hr
        have hmore : buf ++ more = buf.take k ++ (buf.drop k ++ more) := by
          rw [← List.append_assoc, List.take_append_drop]
        have htne : buf.take k ≠ [] := by
          simp only [ne_eq, List.take_eq_nil_iff, hb, or_false]
          omega
        rw [hmore] at h
        have hat : At st (w.emit st (.send fd (some c) (buf.take k) true))
            (.live fd c last (buf.drop k ++ more)) sel :=
          h.emit (.send htne) fun _ _ => Event.noConfusion
        obtain ⟨hsame, hres⟩ := ih (buf.drop k).length (by rw [List.length_drop]; omega)
          (buf.drop k) _ hat ht hr rfl
        exact ⟨(same_emit _).trans hsame, hres⟩
      | closed =>
        rw [psc_sendall, if_neg hb] at hr
        simp only [sockets, ha, ht] at hr
        subst hr
        exact ⟨same_emit _, Or.inr ⟨rfl, h.emit (.fail hne) fun _ _ => Event.noConfusion⟩⟩
      | failed e =>
        rw [psc_sendall, if_neg hb] at hr
        simp only [sockets, ha, ht] at hr
        subst hr
        exact ⟨same_emit _, Or.inr ⟨errno_isZero st.send_errno ha,
          h.emit (.fail hne) fun _ _ => Event.noConfusion⟩⟩

theorem sendmsg_spec (m : Msg) (w : World) (h : At st w (.live fd c last m.frame) sel)
    (ht : w.table fd = some c) {r : Code × World} (hr : psc_sendmsg (sockets st) fd m w = r) :
    Same w r.2 ∧
      ((r.1.isZero = true ∧ At st r.2 (.live fd c last []) sel) ∨
        (r.1.isZero = false ∧ At st r.2 (.failed fd c) sel)) := by
  unfold psc_sendmsg psc_sendhead at hr
  obtain ⟨hsame, hhead⟩ := sendall_spec (header m.msgid m.len) m.payload w h ht rfl
  generalize psc_sendall (sockets st) fd (header m.msgid m.len) w = r1 at hr hsame hhead
  obtain ⟨ret, w1⟩ := r1
  rcases hhead with ⟨rfl, hat⟩ | ⟨hz, hat⟩
  · have ht1 : w1.table fd = some c := by rw [hsame.table, ht]
    have hat' : At st w1 (.live fd c last (m.payload ++ [])) sel := by
      rw [List.append_nil]
      exact hat
    obtain ⟨hsame', hbody⟩ := sendall_spec m.payload [] w1 hat' ht1 hr
    refine ⟨hsame.trans hsame', ?_⟩
    rcases hbody with ⟨hzero, hat⟩ | hbad
    · exact Or.inl ⟨by rw [hzero]; rfl, hat⟩
    · exact Or.inr hbad
  · obtain rfl : (ret, w1) = r := by
      simpa [hz] using hr
    exact ⟨hsame, Or.inr ⟨hz, hat⟩⟩

/-! ## Disconnecting -/

/-- The server has no client. -/
structure Idle (w : World) : Prop where
  client_sock : w.client_sock = -1
  table : ∀ fd, w.table fd = none

/-- The client is connection `c` on descriptor `fd`, and no other connection is open. -/
structure Serving (w : World) (fd : ℤ) (c last : ℕ) : Prop where
  client_sock : w.client_sock = fd
  nonneg : 0 ≤ fd
  table : w.table = Function.update (fun _ => none) fd (some c)
  last_rx_tick : w.last_rx_tick = BitVec.ofNat 32 last

theorem Serving.lookup (h : Serving w fd c last) : w.table fd = some c := by
  rw [h.table, Function.update_self]

theorem Serving.same (h : Serving w fd c last) (hs : Same w w') : Serving w' fd c last :=
  ⟨hs.client_sock.trans h.client_sock, h.nonneg, hs.table.trans h.table,
    hs.last_rx_tick.trans h.last_rx_tick⟩

theorem disconnect_eq (reason : Reason) (hfd : w.client_sock = fd) (hnn : 0 ≤ fd)
    (ht : w.table fd = some c) :
    disconnect_client st reason w =
      { (w.emit st (.close fd (some c) reason)).emit st (.callback .PSC_DIS) with
        client_sock := -1
        table := Function.update w.table fd none } := by
  have hneg : ¬ w.client_sock < 0 := by omega
  unfold disconnect_client
  rw [if_neg hneg]
  simp only [close, hfd, ht]
  rfl

/-- Disconnecting the client from a phase that admits it. -/
theorem disconnect_spec {reason : Reason} (hs : Serving w fd c last) (h : At st w p sel)
    (hc : Move (hello st) (timeoutTicks st) w.conns sel p (.close fd (some c) reason)
      (st.tick w.calls) .closed) :
    Idle (disconnect_client st reason w) ∧ At st (disconnect_client st reason w) .idle sel := by
  rw [disconnect_eq reason hs.client_sock hs.nonneg hs.lookup]
  refine ⟨⟨rfl, ?_⟩, ?_⟩
  · intro fd'
    simp only [hs.table, Function.update_apply]
    split_ifs <;> rfl
  · exact (h.emit hc nofun).emit .announceEnd nofun

/-! ## Between two calls -/

/-- No client, or one that owes no byte. -/
def Settled (st : Stack) (w : World) (sel : Option (ℤ × ℕ)) : Prop :=
  (Idle w ∧ At st w .idle sel) ∨
    ∃ fd c last, Serving w fd c last ∧ At st w (.live fd c last []) sel

/-- `psc_send` from the client's phase `p`, in which the message may be started: the client is
kept or dropped. -/
theorem psc_send_spec {m : Msg} (hs : Serving w fd c last) (h : At st w p sel)
    (hm : Move (hello st) (timeoutTicks st) w.conns sel p (.sendmsg fd (some c) m)
      (st.tick w.calls) (.live fd c last m.frame)) :
    (Idle (psc_send st m w) ∧ At st (psc_send st m w) .idle sel) ∨
      (Serving (psc_send st m w) fd c last ∧ At st (psc_send st m w) (.live fd c last []) sel) := by
  have hneg : ¬ w.client_sock < 0 := by
    have := hs.nonneg
    rw [hs.client_sock]
    omega
  unfold psc_send
  rw [if_neg hneg]
  simp only [hs.client_sock, hs.lookup]
  have hs1 : Serving (w.emit st (.sendmsg fd (some c) m)) fd c last := hs.same (same_emit _)
  obtain ⟨hsame, hres⟩ := sendmsg_spec m _ (h.emit hm nofun) hs1.lookup rfl
  generalize psc_sendmsg (sockets st) fd m (w.emit st (.sendmsg fd (some c) m)) = r at hsame hres ⊢
  obtain ⟨ret, w2⟩ := r
  have hs2 : Serving w2 fd c last := hs1.same hsame
  rcases hres with ⟨hz, hat⟩ | ⟨hz, hat⟩
  · simp only at hz
    simp only [hz, Bool.not_true, Bool.false_eq_true, if_false]
    exact Or.inr ⟨hs2, hat⟩
  · simp only at hz
    simp only [hz, Bool.not_false, if_true]
    rw [if_pos hs2.client_sock]
    exact Or.inl (disconnect_spec hs2 hat .closeFailed)

theorem psc_send_settled (m : Msg) (h : Settled st w sel) : Settled st (psc_send st m w) sel := by
  rcases h with ⟨hi, hat⟩ | ⟨fd, c, last, hs, hat⟩
  · have hneg : w.client_sock < 0 := by
      rw [hi.client_sock]
      decide
    unfold psc_send
    rw [if_pos hneg]
    exact Or.inl ⟨hi, hat⟩
  · rcases psc_send_spec hs hat .sendmsg with hidle | hlive
    · exact Or.inl hidle
    · exact Or.inr ⟨fd, c, last, hlive⟩

theorem pscdata_poll_settled (h : Settled st w sel) : Settled st (pscdata_poll st w) sel := by
  unfold pscdata_poll
  generalize st.poll w.calls = ms
  induction ms generalizing w with
  | nil => exact h
  | cons m ms ih => exact ih (psc_send_settled m h)

/-! ## Accepting -/

/-- The stack and the server after `accept` returned `sock`. -/
def accepting (st : Stack) (sock : ℤ) (w : World) : World :=
  { w.emit st (.accept sock w.conns) with
    table := Function.update w.table sock (some w.conns)
    conns := w.conns + 1 }

theorem At.accept (h : At st w p sel)
    (hm : Move (hello st) (timeoutTicks st) w.conns sel p (.accept fd w.conns)
      (st.tick w.calls) p') : At st (accepting st fd w) p' sel := by
  obtain ⟨now, hr, hle⟩ := h
  exact ⟨st.tick w.calls, hr.snoc (Step.move hle hm), st.tick_mono (Nat.le_succ _)⟩

/-- Announcing and greeting a connection that is alone in the stack's table. -/
theorem greet_settled (hfd : 0 ≤ fd)
    (ht : w.table = Function.update (fun _ => none) fd (some c))
    (h : At st w (.accepted fd c) sel) {w' : World}
    (hw : w' = client_event st (World.emit st
      { w with client_sock := fd, last_rx_tick := xTaskGetTickCount st w }
      (.callback .PSC_CONN))) :
    Settled st w' sel ∧ (w'.client_sock = -1 ∨ w'.client_sock = fd) := by
  have hat : At st (World.emit st
      { w with client_sock := fd, last_rx_tick := xTaskGetTickCount st w }
      (.callback .PSC_CONN)) (.greeting fd c (st.tick w.calls)) sel :=
    At.emit (w := { w with client_sock := fd, last_rx_tick := xTaskGetTickCount st w }) h
      .announce nofun
  subst hw
  rcases psc_send_spec ⟨rfl, hfd, ht, rfl⟩ hat .greet with ⟨hi, hat⟩ | ⟨hs, hat⟩
  · exact ⟨Or.inl ⟨hi, hat⟩, Or.inl hi.client_sock⟩
  · exact ⟨Or.inr ⟨fd, c, _, hs, hat⟩, Or.inr hs.client_sock⟩

theorem accept_client_eq {sock : ℤ}
    (ha : st.accept w.calls (fun fd => fd == st.listen_sock || (w.table fd).isSome) = some sock)
    (hw : (if 0 ≤ w.client_sock then disconnect_client st .newConnection (accepting st sock w)
      else accepting st sock w) = w') :
    accept_client st w = client_event st (World.emit st
      { w' with client_sock := sock, last_rx_tick := xTaskGetTickCount st w' }
      (.callback .PSC_CONN)) := by
  subst hw
  unfold accept_client
  rw [ha]
  rfl

/-- A successful accept replaces the client. The new descriptor is not the old client's, which is
still open when it is handed out. -/
theorem accepted_settled (h : Settled st w sel) {sock : ℤ}
    (ha : st.accept w.calls (fun fd => fd == st.listen_sock || (w.table fd).isSome) = some sock) :
    Settled st (accept_client st w) sel ∧
      (0 ≤ w.client_sock → (accept_client st w).client_sock ≠ w.client_sock) := by
  have hnn := st.accept_nonneg ha
  rcases h with ⟨hi, hat⟩ | ⟨fd, c, last, hs, hat⟩
  · have hneg : ¬ 0 ≤ w.client_sock := by
      rw [hi.client_sock]
      decide
    have ht : (accepting st sock w).table =
        Function.update (fun _ => none) sock (some w.conns) := by
      unfold accepting
      rw [show w.table = fun _ => none from funext hi.table]
    have hg := greet_settled hnn ht (hat.accept (.accept hnn))
      (accept_client_eq ha (if_neg hneg))
    exact ⟨hg.1, fun h0 => absurd h0 hneg⟩
  · have hne : sock ≠ fd := by
      rintro rfl
      have hfree := st.accept_free ha
      rw [hs.lookup] at hfree
      simp at hfree
    have hpos : 0 ≤ w.client_sock := by
      rw [hs.client_sock]
      exact hs.nonneg
    have hlook : (accepting st sock w).table fd = some c := by
      have := hs.lookup
      simp [accepting, Function.update_of_ne hne.symm, this]
    have hdis : disconnect_client st .newConnection (accepting st sock w) = _ :=
      disconnect_eq .newConnection hs.client_sock hs.nonneg hlook
    have hat' : At st (disconnect_client st .newConnection (accepting st sock w))
        (.accepted sock w.conns) sel := by
      rw [hdis]
      exact ((hat.accept (.supersede hnn hne)).emit .closeOld nofun).emit .announceOld nofun
    have ht : (disconnect_client st .newConnection (accepting st sock w)).table =
        Function.update (fun _ => none) sock (some w.conns) := by
      rw [hdis]
      simp only [accepting, hs.table]
      rw [Function.update_comm hne, Function.update_idem]
      congr 1
      exact Function.update_eq_self_iff.mpr rfl
    have hg := greet_settled hnn ht hat' (accept_client_eq ha (if_pos hpos))
    refine ⟨hg.1, ?_⟩
    intro _
    have hfd := hs.nonneg
    rw [hs.client_sock]
    rcases hg.2 with h1 | h1 <;> rw [h1]
    · omega
    · exact hne

theorem accept_client_settled (h : Settled st w sel) :
    Settled st (accept_client st w) sel ∧
      (0 ≤ w.client_sock → (accept_client st w).client_sock = w.client_sock →
        accept_client st w = { w with calls := w.calls + 1 }) := by
  cases ha : st.accept w.calls (fun fd => fd == st.listen_sock || (w.table fd).isSome) with
  | none =>
    have hdef : accept_client st w = { w with calls := w.calls + 1 } := by
      unfold accept_client
      rw [ha]
    have hcalls : ∀ {p}, At st w p sel → At st { w with calls := w.calls + 1 } p sel := by
      rintro p ⟨now, hr, hle⟩
      exact ⟨now, hr, Nat.le_trans hle (st.tick_mono (Nat.le_succ _))⟩
    refine ⟨?_, fun _ _ => hdef⟩
    rw [hdef]
    rcases h with ⟨hi, hat⟩ | ⟨fd, c, last, hs, hat⟩
    · exact Or.inl ⟨⟨hi.client_sock, hi.table⟩, hcalls hat⟩
    · exact Or.inr ⟨fd, c, last, ⟨hs.client_sock, hs.nonneg, hs.table, hs.last_rx_tick⟩,
        hcalls hat⟩
  | some sock =>
    obtain ⟨hset, hne⟩ := accepted_settled h ha
    exact ⟨hset, fun h0 heq => absurd heq (hne h0)⟩

/-! ## Receiving -/

/-- Reading on the selected client moves the machine nowhere, whatever the calls return. -/
def Reads (st : Stack) (w w' : World) (fd : ℤ) (c last : ℕ) : Prop :=
  Same w w' ∧ At st w' (.live fd c last []) (some (fd, c))

theorem recv_reads (ht : w.table fd = some c) (h : At st w (.live fd c last []) (some (fd, c))) :
    Reads st w (w.emit st (.recv fd (w.table fd))) fd c last := by
  rw [ht]
  exact ⟨same_emit _, h.emit (.recv rfl) nofun⟩

theorem recvall_reads (buf : Buf) (off buflen : ℕ) (w : World) (ht : w.table fd = some c)
    (h : At st w (.live fd c last []) (some (fd, c))) :
    Reads st w (psc_recvall (sockets st) fd buf off buflen w).2.2 fd c last := by
  induction buflen using Nat.strongRecOn generalizing buf off w with
  | _ n ih =>
    have hread := recv_reads ht h
    rw [psc_recvall]
    by_cases hb : n = 0
    · rw [if_pos hb]
      exact ⟨Same.refl, h⟩
    · rw [if_neg hb]
      simp only [sockets]
      cases ha : st.recv w.calls with
      | got b bs =>
        have hnext := ih (n - ((bs.take (n - 1)).length + 1)) (by omega)
          (buf.store off (b :: bs.take (n - 1))) (off + ((bs.take (n - 1)).length + 1))
          (w.emit st (.recv fd (w.table fd))) ht hread.2
        exact ⟨hread.1.trans hnext.1, hnext.2⟩
      | closed => exact hread
      | failed e => exact hread

theorem recvmsg_reads (buf : Buf) (cap : BitVec 32) (w : World) (ht : w.table fd = some c)
    (h : At st w (.live fd c last []) (some (fd, c))) :
    Reads st w (psc_recvmsg (sockets st) fd 0 buf cap w).2 fd c last := by
  have hhead : Reads st w (psc_recvhead (sockets st) fd w).2.2.2 fd c last := by
    have hread := recvall_reads (fun _ => 0) 0 8 w ht h
    unfold psc_recvhead
    generalize psc_recvall (sockets st) fd (fun _ => 0) 0 8 w = r at hread ⊢
    obtain ⟨ret, b, w1⟩ := r
    dsimp only
    split_ifs <;> exact hread
  unfold psc_recvmsg
  generalize psc_recvhead (sockets st) fd w = r at hhead ⊢
  obtain ⟨ret, mid, mlen, w1⟩ := r
  have ht1 : w1.table fd = some c := by rw [hhead.1.table, ht]
  have hbody := recvall_reads buf 0 mlen.toNat w1 ht1 hhead.2
  dsimp only
  generalize psc_recvall (sockets st) fd buf 0 mlen.toNat w1 = r2 at hbody ⊢
  obtain ⟨ret2, buf2, w2⟩ := r2
  split_ifs
  · exact hhead
  · exact hhead
  · exact ⟨hhead.1.trans hbody.1, hbody.2⟩
  · exact ⟨hhead.1.trans hbody.1, hbody.2⟩

theorem receive_settled (hs : Serving w fd c last)
    (h : At st w (.live fd c last []) (some (fd, c))) :
    Settled st (receive st fd w) (some (fd, c)) := by
  have hread := recvmsg_reads w.rxbuf (BitVec.ofNat 32 PSC_MAX_RX_MSG_LEN) w hs.lookup h
  unfold receive
  generalize psc_recvmsg (sockets st) fd 0 w.rxbuf (BitVec.ofNat 32 PSC_MAX_RX_MSG_LEN) w = r
    at hread ⊢
  obtain ⟨r, w1⟩ := r
  have hs1 : Serving { w1 with rxbuf := r.buf } fd c last :=
    hs.same ⟨hread.1.1, hread.1.2, hread.1.3⟩
  have hat1 : At st { w1 with rxbuf := r.buf } (.live fd c last []) (some (fd, c)) := hread.2
  dsimp only
  split_ifs with hz
  · exact Or.inl (disconnect_spec hs1 hat1 .closeReceive)
  · have ht1 : w1.table fd = some c := hs1.lookup
    rw [ht1]
    exact Or.inr ⟨fd, c, st.tick w1.calls, ⟨hs1.client_sock, hs1.nonneg, hs1.table, rfl⟩,
      At.emit (w := { w1 with rxbuf := r.buf, last_rx_tick := xTaskGetTickCount st w1 }) hat1
        .message nofun⟩

/-! ## Heartbeat -/

/-- The difference of two readings of the 32-bit tick counter is at most the ticks between them,
also across its wrap. -/
theorem tick_sub_le {a b : ℕ} (h : a ≤ b) :
    (BitVec.ofNat 32 b - BitVec.ofNat 32 a).toNat ≤ b - a := by
  rw [BitVec.toNat_sub, BitVec.toNat_ofNat, BitVec.toNat_ofNat]
  omega

theorem heartbeat_settled (h : Settled st w sel) : Settled st (heartbeat st w) sel := by
  unfold heartbeat
  split_ifs with hdue
  · rcases h with ⟨hi, hat⟩ | ⟨fd, c, last, hs, hat⟩
    · rw [hi.client_sock] at hdue
      exact absurd hdue.1 (by decide)
    · obtain ⟨now, hr, hnow⟩ := hat
      have hlast : last ≤ now := runs_heard_le hr rfl
      have hsub := tick_sub_le (Nat.le_trans hlast hnow)
      have hticks : timeoutTicks st ≤ st.tick w.calls - last := by
        refine Nat.le_trans hdue.2 ?_
        rw [hs.last_rx_tick]
        exact hsub
      exact Or.inl (disconnect_spec hs ⟨now, hr, hnow⟩ (.closeHeartbeat (by
        have := Nat.le_trans hlast hnow
        omega)))
  · exact h

/-! ## The loop -/

theorem serve_settled {ready : Option (Bool × Bool)} (h : Settled st w sel)
    (hsel : ∀ fd c last, Serving w fd c last → sel = some (fd, c)) :
    Settled st (serve st w.client_sock ready w) sel := by
  unfold serve
  rcases ready with _ | ⟨listenReady, clientReady⟩
  · exact h
  · dsimp only
    obtain ⟨hacc, hkeep⟩ := accept_client_settled h
    split_ifs with hl hread hread
    · -- The client after the accept is the selected descriptor: nothing was accepted.
      rw [hkeep hread.1 hread.2.1] at hacc ⊢
      rcases hacc with ⟨hi, hat⟩ | ⟨fd, c, last, hs, hat⟩
      · rw [show w.client_sock = -1 from hi.client_sock] at hread
        exact absurd hread.1 (by decide)
      · obtain rfl := hsel fd c last ⟨hs.client_sock, hs.nonneg, hs.table, hs.last_rx_tick⟩
        obtain rfl : w.client_sock = fd := hs.client_sock
        exact receive_settled hs hat
    · exact hacc
    · rcases h with ⟨hi, hat⟩ | ⟨fd, c, last, hs, hat⟩
      · rw [hi.client_sock] at hread
        exact absurd hread.1 (by decide)
      · obtain rfl := hsel fd c last hs
        rw [hs.client_sock]
        exact receive_settled hs hat
    · exact h

theorem turn_settled (h : Settled st w sel) : ∃ sel', Settled st (turn st w) sel' := by
  unfold turn
  rcases h with ⟨hi, now, hr, hle⟩ | ⟨fd, c, last, hs, now, hr, hle⟩
  · have hneg : ¬ 0 ≤ w.client_sock := by
      rw [hi.client_sock]
      decide
    dsimp only
    rw [if_neg hneg]
    have hset : Settled st (w.emit st (.select none)) none :=
      Or.inl ⟨⟨hi.client_sock, hi.table⟩, st.tick w.calls, hr.snoc (.selectIdle hle),
        st.tick_mono (Nat.le_succ _)⟩
    refine ⟨none, pscdata_poll_settled (heartbeat_settled (serve_settled hset ?_))⟩
    intro fd c last hs
    have h1 := hs.nonneg
    rw [← hs.client_sock] at h1
    exact absurd h1 hneg
  · have hpos : 0 ≤ w.client_sock := by
      rw [hs.client_sock]
      exact hs.nonneg
    dsimp only
    rw [if_pos hpos]
    have hset : Settled st (w.emit st (.select (some (w.client_sock, w.table w.client_sock))))
        (some (fd, c)) := by
      refine Or.inr ⟨fd, c, last, hs.same (same_emit _), st.tick w.calls, ?_,
        st.tick_mono (Nat.le_succ _)⟩
      rw [hs.client_sock, hs.lookup]
      exact hr.snoc (.selectLive hle)
    refine ⟨some (fd, c), pscdata_poll_settled (heartbeat_settled (serve_settled hset ?_))⟩
    intro fd' c' last' hs'
    obtain rfl : fd = fd' := hs.client_sock.symm.trans hs'.client_sock
    have := hs'.lookup.symm.trans hs.lookup
    rw [Option.some.inj this]

theorem psc_run_settled (st : Stack) (n : ℕ) : ∃ sel, Settled st (psc_run st n) sel := by
  induction n with
  | zero => exact ⟨none, Or.inl ⟨⟨rfl, fun _ => rfl⟩, 0, .nil, Nat.zero_le _⟩⟩
  | succ n ih =>
    obtain ⟨sel, h⟩ := ih
    exact turn_settled h

theorem psc_run_runs (st : Stack) (n : ℕ) :
    ∃ s, Runs (hello st) (timeoutTicks st) (psc_run st n).log s ∧
      ∀ fd c, (fd, c) ∈ s.phase.opens →
        (psc_run st n).client_sock = fd ∧ (psc_run st n).table fd = some c := by
  obtain ⟨sel, ⟨hi, now, hr, -⟩ | ⟨fd, c, last, hs, now, hr, -⟩⟩ := psc_run_settled st n
  · exact ⟨_, hr, fun fd c hm => absurd hm List.not_mem_nil⟩
  · refine ⟨_, hr, ?_⟩
    intro fd' c' hm
    obtain ⟨rfl, rfl⟩ : fd' = fd ∧ c' = c := by simpa [Phase.opens] using hm
    exact ⟨hs.client_sock, hs.lookup⟩

/-! ## The promises of `psc_run` -/

/-- The bytes sent on each connection are complete frames, the first of them the 0x100 message,
followed by at most one truncated frame. No message is started after a truncated frame, and a
connection on which a `send` failed is not sent on again. -/
theorem outgoing_wellFormed (st : Stack) (n : ℕ) :
    (∀ c, WellFormed (hello st) (bytesOn (psc_run st n).log c)) ∧
    (∀ c pre fd m t post, (psc_run st n).log = pre ++ ⟨.sendmsg fd (some c) m, t⟩ :: post →
      ∃ ms : List Msg, bytesOn pre c = ms.flatMap Msg.frame) ∧
    (∀ c pre e post, (psc_run st n).log = pre ++ e :: post → Fails c e →
      (∀ e' ∈ post, Sends c e' = false) ∧ bytesOn post c = []) := by
  obtain ⟨s, hr, -⟩ := psc_run_runs st n
  refine ⟨(runs_streamed hr).wellFormed, ?_, ?_⟩
  · intro c pre fd m t post hlog
    rw [hlog] at hr
    exact runs_sendmsg hr
  intro c pre e post hlog hf
  have hsilent := runs_silent hr
  rw [hlog, List.pairwise_append, List.pairwise_cons] at hsilent
  have hnone : ∀ e' ∈ post, Sends c e' = false := fun e' he' => hsilent.2.1.1 e' he' c hf
  refine ⟨hnone, ?_⟩
  rw [bytesOn, List.flatMap_eq_nil_iff]
  intro e' he'
  exact bytesOf_eq_nil (hnone e' he')

/-- A stack with one connection to offer, on descriptor 4, that takes the header of the first
message and then fails. -/
def cutShort : Stack where
  listen_sock := 3
  git_hash := 0
  configTICK_RATE_HZ := 100
  select _ := some (true, false)
  accept _ inUse := if inUse 4 then none else some 4
  send k := if k = 4 then .moves 7 else .failed 104
  recv _ := .closed
  tick k := k
  poll _ := []
  accept_nonneg := by
    intro k inUse fd h
    split_ifs at h
    cases h
    decide
  accept_free := by
    intro k inUse fd h
    split_ifs at h with hf
    cases h
    simpa using hf
  send_errno := by
    intro k e h
    dsimp only at h
    split_ifs at h
    cases h
    decide
  recv_errno := nofun
  tick_mono := id

theorem cutShort_log : (psc_run cutShort 1).log =
    [⟨.select none, 0⟩, ⟨.accept 4 0, 1⟩, ⟨.callback .PSC_CONN, 2⟩,
      ⟨.sendmsg 4 (some 0) (hello cutShort), 3⟩,
      ⟨.send 4 (some 0) (header 0x100 8) true, 4⟩, ⟨.send 4 (some 0) [] false, 5⟩,
      ⟨.close 4 (some 0) .sendError, 6⟩, ⟨.callback .PSC_DIS, 7⟩] := by
  have hsend : ∀ (sock : ℤ) (w : World), sock = 4 → w.calls = 4 → w.table 4 = some 0 →
      psc_sendmsg (sockets cutShort) sock (hello cutShort) w =
        (.errno 104, (w.emit cutShort (.send 4 (some 0) (header 0x100 8) true)).emit cutShort
          (.send 4 (some 0) [] false)) := by
    rintro sock w rfl hw ht
    have hhead : psc_sendall (sockets cutShort) 4 (header 0x100 8) w =
        (.zero, w.emit cutShort (.send 4 (some 0) (header 0x100 8) true)) := by
      have hall : (sockets cutShort).send 4 (header 0x100 8) w =
          (.sent 7, w.emit cutShort (.send 4 (some 0) (header 0x100 8) true)) := by
        simp only [sockets, cutShort, hw, ht]
        rfl
      rw [sendall_sent (by simp [header]) hall]
      exact sendall_nil
    unfold psc_sendmsg psc_sendhead
    rw [show (hello cutShort).len = 8 from rfl, show (hello cutShort).msgid = 0x100 from rfl, hhead]
    simp only [Code.isZero, Bool.not_true, Bool.false_eq_true, if_false]
    rw [psc_sendall, if_neg (by simp [hello, toBe32])]
    simp only [sockets, cutShort, World.emit, hw, ht]
    rfl
  have hacc : accept_client cutShort (World.init.emit cutShort (.select none)) = _ :=
    accept_client_eq (show _ = some 4 from rfl) (if_neg (by decide))
  unfold client_event psc_send at hacc
  rw [if_neg (by decide)] at hacc
  dsimp only at hacc
  rw [hsend] at hacc
  · have hturn : psc_run cutShort 1 = pscdata_poll cutShort (heartbeat cutShort
        (accept_client cutShort (World.init.emit cutShort (.select none)))) := rfl
    rw [hturn, hacc]
    rfl
  · rfl
  · rfl
  · rfl

/-- The header of the greeting is all that connection ever carries. -/
theorem outgoing_wellFormed_cutShort :
    WellFormed (hello cutShort) (bytesOn (psc_run cutShort 1).log 0) ∧
      bytesOn (psc_run cutShort 1).log 0 = header 0x100 8 ∧
      bytesOn [⟨.close 4 (some 0) .sendError, 6⟩, ⟨.callback .PSC_DIS, 7⟩] 0 = [] := by
  obtain ⟨hw, -, hf⟩ := outgoing_wellFormed cutShort 1
  refine ⟨hw 0, by rw [cutShort_log]; rfl, ?_⟩
  exact (hf 0 [⟨.select none, 0⟩, ⟨.accept 4 0, 1⟩, ⟨.callback .PSC_CONN, 2⟩,
    ⟨.sendmsg 4 (some 0) (hello cutShort), 3⟩, ⟨.send 4 (some 0) (header 0x100 8) true, 4⟩]
    ⟨.send 4 (some 0) [] false, 5⟩ _ (by rw [cutShort_log]; rfl) rfl).2

/-- At most one accepted connection is open, apart from the instant after an accept; every accepted
connection is closed exactly once, or is the client; `send` and `recv` are issued on open
descriptors, and `recv` on the one connection of the current `select`; the callbacks alternate; and
a connection is dropped for its heartbeat only if neither its accept nor a message on it is less
than the timeout ago. -/
theorem single_client (st : Stack) (n : ℕ) :
    (∀ pre post, (psc_run st n).log = pre ++ post → ∀ c c', Open pre c → Open pre c' →
      c = c' ∨ ∃ e fd c'', pre.getLast? = some e ∧ e.ev = .accept fd c'') ∧
    (∀ c, (∃ e ∈ (psc_run st n).log, Accepts c e) →
      (psc_run st n).log.countP (Closes c) = 1 ∨
      ((psc_run st n).log.countP (Closes c) = 0 ∧
        (psc_run st n).table (psc_run st n).client_sock = some c)) ∧
    (∀ pre e post, (psc_run st n).log = pre ++ e :: post →
      ∀ fd conn, target e = some (fd, conn) →
        ∃ c, conn = some c ∧ Open pre c ∧ ∃ e' ∈ pre, e'.ev = .accept fd c) ∧
    (∀ pre fd conn t post, (psc_run st n).log = pre ++ ⟨.recv fd conn, t⟩ :: post →
      ∃ c, conn = some c ∧ lastSelect pre = some (some (fd, some c))) ∧
    (∀ i evt, ((psc_run st n).log.filterMap callbackOf)[i]? = some evt →
      evt = if i % 2 = 0 then .PSC_CONN else .PSC_DIS) ∧
    (∀ pre fd conn t post,
      (psc_run st n).log = pre ++ ⟨.close fd conn .heartbeatTimeout, t⟩ :: post →
      ∃ c, conn = some c ∧ ∀ e ∈ pre, Accepts c e ∨ Hears c e →
        e.time + (pdMS_TO_TICKS st PSC_HEARTBEAT_TIMEOUT_MS).toNat ≤ t) := by
  obtain ⟨s, hr, hopen⟩ := psc_run_runs st n
  refine ⟨?_, ?_, ?_, ?_, (runs_callbacks hr).1, ?_⟩
  · intro pre post hlog c c' hc hc'
    rw [hlog] at hr
    obtain ⟨s', hr'⟩ := hr.of_append
    exact runs_single hr' hc hc'
  · intro c hc
    have hcount := runs_counted hr
    rw [← List.countP_pos_iff, hcount.accepts c] at hc
    have hlt : c < s.conns := by
      by_contra hge
      rw [if_neg hge] at hc
      exact absurd hc (Nat.lt_irrefl 0)
    rw [hcount.closes c]
    by_cases hm : c ∈ s.phase.opens.map Prod.snd
    · right
      obtain ⟨⟨fd, c'⟩, hmem, rfl⟩ := List.mem_map.mp hm
      obtain ⟨h1, h2⟩ := hopen fd c' hmem
      rw [h1]
      exact ⟨if_neg (fun hx => hx.2 hm), h2⟩
    · exact Or.inl (if_pos ⟨hlt, hm⟩)
  · intro pre e post hlog fd conn he
    rw [hlog] at hr
    exact runs_target hr he
  · intro pre fd conn t post hlog
    rw [hlog] at hr
    exact runs_recv hr
  · intro pre fd conn t post hlog
    rw [hlog] at hr
    exact runs_heartbeat hr

/-- The connection of `cutShort` is accepted and closed once. -/
theorem single_client_cutShort : (psc_run cutShort 1).log.countP (Closes 0) = 1 := by
  have hacc : ∃ e ∈ (psc_run cutShort 1).log, Accepts 0 e :=
    ⟨⟨.accept 4 0, 1⟩, by rw [cutShort_log]; simp, rfl⟩
  rcases (single_client cutShort 1).2.1 0 hacc with h | ⟨h, -⟩
  · exact h
  · rw [cutShort_log] at h
    exact absurd h (by decide)

end Zpsc.Listener
