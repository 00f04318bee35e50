import Zpsc.Net.PscMsg

/-!
# PSC framing round trip

`psc_sendall` and `psc_recvall` move a whole buffer however the stack fragments it
(`sendall_moves`, `recvall_moves`), and return 0 only if no call failed on the way
(`sendall_ended`, `recvall_ended`). One message is therefore read back from the front of any
stream that starts with its frame (`recvmsg_frame`), and a list of messages by induction on it.
-/

namespace Zpsc.PscMsg

open Bits

/-! ## Buffers -/

theorem Buf.store_append (buf : Buf) (off : ℕ) (as bs : List Byte) :
    (buf.store off as).store (off + as.length) bs = buf.store off (as ++ bs) := by
  funext i
  unfold Buf.store
  by_cases h1 : off + as.length ≤ i
  · have h2 : off ≤ i := by omega
    have h3 : i - (off + as.length) = i - off - as.length := by omega
    rw [if_pos h1, if_pos h2, if_pos h2, List.getElem?_append_right (by omega), h3,
      List.getElem?_eq_none (l := as) (by omega)]
    rfl
  · rw [if_neg h1]
    by_cases h2 : off ≤ i
    · rw [if_pos h2, if_pos h2, List.getElem?_append_left (by omega)]
    · rw [if_neg h2, if_neg h2]

theorem Buf.slice_store (buf : Buf) (bs : List Byte) :
    (buf.store 0 bs).slice bs.length = bs := by
  apply List.ext_getElem
  · simp [Buf.slice]
  · intro i h1 h2
    simp [Buf.slice, Buf.store, h2]

@[simp] theorem Buf.store_nil (buf : Buf) (off : ℕ) : buf.store off [] = buf := by
  funext i
  simp [Buf.store]

/-! ## The loops, one call at a time -/

section Loops

variable {σ : Type} {net : Sockets σ} {sock : ℤ} {s s' : σ}

@[simp] theorem sendall_nil : psc_sendall net sock [] s = (.zero, s) := by
  rw [psc_sendall, if_pos rfl]

theorem sendall_sent {buf : List Byte} {n : ℕ} (hb : buf ≠ [])
    (h : net.send sock buf s = (.sent n, s')) :
    psc_sendall net sock buf s = psc_sendall net sock (buf.drop (n + 1)) s' := by
  rw [psc_sendall, if_neg hb, h]

@[simp] theorem recvall_zero {buf : Buf} {off : ℕ} :
    psc_recvall net sock buf off 0 s = (.zero, buf, s) := by
  rw [psc_recvall, if_pos rfl]

theorem recvall_got {buf : Buf} {off buflen : ℕ} {b : Byte} {bs : List Byte} (hb : buflen ≠ 0)
    (h : net.recv sock buflen s = (.got b bs, s')) :
    psc_recvall net sock buf off buflen s =
      psc_recvall net sock (buf.store off (b :: bs)) (off + (bs.length + 1))
        (buflen - (bs.length + 1)) s' := by
  rw [psc_recvall, if_neg hb, h]

end Loops

/-! ## Whole transfers -/

variable (sock : ℤ)

theorem sendall_moves (f : ℕ → ℕ) (buf : List Byte) (p : Pipe) :
    ∃ k, psc_sendall (Pipe.sockets (moving f)) sock buf p =
      (.zero, ⟨p.wire ++ buf, k, p.faults⟩) := by
  -- The loop's own induction: every call leaves a shorter rest.
  induction h : buf.length using Nat.strongRecOn generalizing buf p with
  | _ n ih =>
    subst h
    by_cases hb : buf = []
    · exact ⟨p.calls, by simp [hb]⟩
    · have hpos : 0 < buf.length := List.length_pos_iff.mpr hb
      obtain ⟨m, hm⟩ : ∃ m, m = min (f p.calls) (buf.length - 1) := ⟨_, rfl⟩
      have htake : buf.take (f p.calls + 1) = buf.take (m + 1) := by
        rw [List.take_eq_take_iff]
        omega
      have hsend : (Pipe.sockets (moving f)).send sock buf p =
          (.sent m, ⟨p.wire ++ buf.take (m + 1), p.calls + 1, p.faults⟩) := by
        rw [← htake, hm]
        rfl
      have hdrop : (buf.drop (m + 1)).length < buf.length := by
        rw [List.length_drop]
        omega
      obtain ⟨k, hk⟩ := ih _ hdrop (buf.drop (m + 1))
        ⟨p.wire ++ buf.take (m + 1), p.calls + 1, p.faults⟩ rfl
      refine ⟨k, ?_⟩
      rw [sendall_sent hb hsend, hk, List.append_assoc, List.take_append_drop]

theorem recvall_moves (f : ℕ → ℕ) (buf : Buf) (off : ℕ) (bs rest : List Byte) (k n : ℕ) :
    ∃ k', psc_recvall (Pipe.sockets (moving f)) sock buf off bs.length ⟨bs ++ rest, k, n⟩ =
      (.zero, buf.store off bs, ⟨rest, k', n⟩) := by
  induction h : bs.length using Nat.strongRecOn generalizing buf off bs k with
  | _ m ih =>
    subst h
    cases bs with
    | nil => exact ⟨k, by simp⟩
    | cons b bs =>
      obtain ⟨m, hm⟩ : ∃ m, m = min (f k) bs.length := ⟨_, rfl⟩
      have hmle : m ≤ bs.length := by omega
      have hlen : (bs.take m).length = m := by
        rw [List.length_take]
        omega
      have hrecv : (Pipe.sockets (moving f)).recv sock (b :: bs).length ⟨b :: bs ++ rest, k, n⟩ =
          (.got b (bs.take m), ⟨bs.drop m ++ rest, k + 1, n⟩) := by
        rw [← List.take_append_of_le_length hmle, ← List.drop_append_of_le_length hmle, hm]
        rfl
      have hdrop : (bs.drop m).length = (b :: bs).length - (m + 1) := by
        rw [List.length_drop, List.length_cons]
        omega
      obtain ⟨k', hk'⟩ := ih (bs.drop m).length (by rw [hdrop, List.length_cons]; omega)
        (buf.store off (b :: bs.take m)) (off + (m + 1)) (bs.drop m) (k + 1) rfl
      have hstore := Buf.store_append buf off (b :: bs.take m) (bs.drop m)
      rw [List.length_cons, hlen, List.cons_append, List.take_append_drop] at hstore
      refine ⟨k', ?_⟩
      rw [recvall_got (by simp) hrecv, hlen, ← hdrop, hk', hstore]

/-! ## Failed calls -/

/-- How one of the two loops ends: with 0 and every call answered, or with a nonzero code after the
one call that was not. -/
def Ended (p : Pipe) (ret : Code) (p' : Pipe) : Prop :=
  (ret = .zero ∧ p'.faults = p.faults) ∨ (ret.isZero = false ∧ p'.faults = p.faults + 1)

variable {sock} {ans : ℕ → Answer}

theorem errno_isZero (hans : ErrnoSet ans) {k : ℕ} {e : ℤ} (h : ans k = .failed e) :
    (Code.errno e).isZero = false := by
  simpa [Code.isZero] using hans k e h

theorem sendall_ended (sock : ℤ) (hans : ErrnoSet ans) (buf : List Byte) (p : Pipe) :
    Ended p (psc_sendall (Pipe.sockets ans) sock buf p).1
      (psc_sendall (Pipe.sockets ans) sock buf p).2 := by
  induction h : buf.length using Nat.strongRecOn generalizing buf p with
  | _ n ih =>
    subst h
    by_cases hb : buf = []
    · exact Or.inl (by simp [hb])
    · have hpos : 0 < buf.length := List.length_pos_iff.mpr hb
      cases ha : ans p.calls with
      | moves m =>
        have hsend : (Pipe.sockets ans).send sock buf p =
            (.sent (min m (buf.length - 1)),
              ⟨p.wire ++ buf.take (m + 1), p.calls + 1, p.faults⟩) := by
          simp only [Pipe.sockets, ha]
        rw [sendall_sent hb hsend]
        refine ih _ ?_ _ ⟨p.wire ++ buf.take (m + 1), p.calls + 1, p.faults⟩ rfl
        rw [List.length_drop]
        omega
      | closed =>
        rw [psc_sendall, if_neg hb]
        simp only [Pipe.sockets, ha]
        exact Or.inr ⟨rfl, rfl⟩
      | failed e =>
        rw [psc_sendall, if_neg hb]
        simp only [Pipe.sockets, ha]
        exact Or.inr ⟨errno_isZero hans ha, rfl⟩

theorem recvall_ended (sock : ℤ) (hans : ErrnoSet ans) (buf : Buf) (off buflen : ℕ) (p : Pipe) :
    Ended p (psc_recvall (Pipe.sockets ans) sock buf off buflen p).1
      (psc_recvall (Pipe.sockets ans) sock buf off buflen p).2.2 := by
  induction buflen using Nat.strongRecOn generalizing buf off p with
  | _ n ih =>
    by_cases hb : n = 0
    · exact Or.inl (by simp [hb])
    · cases ha : ans p.calls with
      | moves m =>
        cases hw : p.wire with
        | nil =>
          rw [psc_recvall, if_neg hb]
          simp only [Pipe.sockets, ha, hw]
          exact Or.inr ⟨rfl, rfl⟩
        | cons b bs =>
          have hrecv : (Pipe.sockets ans).recv sock n p =
              (.got b (bs.take (min m (n - 1))),
                ⟨bs.drop (min m (n - 1)), p.calls + 1, p.faults⟩) := by
            simp only [Pipe.sockets, ha, hw]
          rw [recvall_got hb hrecv]
          exact ih _ (by omega) _ _ ⟨bs.drop (min m (n - 1)), p.calls + 1, p.faults⟩
      | closed =>
        rw [psc_recvall, if_neg hb]
        simp only [Pipe.sockets, ha]
        exact Or.inr ⟨rfl, rfl⟩
      | failed e =>
        rw [psc_recvall, if_neg hb]
        simp only [Pipe.sockets, ha]
        exact Or.inr ⟨errno_isZero hans ha, rfl⟩

theorem isZero_of_ended {p p' : Pipe} {ret : Code} (h : Ended p ret p') :
    ret.isZero = true ↔ p'.faults = p.faults := by
  rcases h with ⟨rfl, hf⟩ | ⟨hr, hf⟩
  · simp [Code.isZero, hf]
  · simp [hr, hf]

theorem sendmsg_faults (hans : ErrnoSet ans) (m : Msg) (p : Pipe)
    (h : (psc_sendmsg (Pipe.sockets ans) sock m p).2.faults ≠ p.faults) :
    (psc_sendmsg (Pipe.sockets ans) sock m p).1.isZero = false := by
  have hhead := isZero_of_ended (sendall_ended sock hans (header m.msgid m.len) p)
  unfold psc_sendmsg psc_sendhead at h ⊢
  generalize psc_sendall (Pipe.sockets ans) sock (header m.msgid m.len) p = r at h hhead ⊢
  obtain ⟨ret, p1⟩ := r
  by_cases hz : ret.isZero = true
  · have hbody := isZero_of_ended (sendall_ended sock hans m.payload p1)
    simp only [hz, Bool.not_true, Bool.false_eq_true, if_false] at h ⊢
    rw [← hhead.mp hz] at h
    rwa [← Bool.not_eq_true, hbody]
  · simp only [hz, Bool.not_false, if_true]

theorem recvhead_faults (sock : ℤ) (hans : ErrnoSet ans) (p : Pipe)
    (h : (psc_recvhead (Pipe.sockets ans) sock p).1.isZero = true) :
    (psc_recvhead (Pipe.sockets ans) sock p).2.2.2.faults = p.faults := by
  have hend := isZero_of_ended (recvall_ended sock hans (fun _ => 0) 0 8 p)
  unfold psc_recvhead at h ⊢
  generalize psc_recvall (Pipe.sockets ans) sock (fun _ => 0) 0 8 p = r at h hend ⊢
  obtain ⟨ret, b, p1⟩ := r
  by_cases hz : ret.isZero = true
  · simp only [hz, Bool.not_true, Bool.false_eq_true, if_false] at h ⊢
    by_cases hm : b 0 ≠ 0x50 ∨ b 1 ≠ 0x53
    · rw [if_pos hm] at h
      exact absurd h (by simp [Code.isZero])
    · rw [if_neg hm]
      exact hend.mp hz
  · dsimp only at h
    rw [if_pos (by simpa using hz)] at h
    exact absurd h hz

theorem recvmsg_faults (hans : ErrnoSet ans) (msgid : BitVec 16) (buf : Buf) (cap : BitVec 32)
    (p : Pipe) (h : (psc_recvmsg (Pipe.sockets ans) sock msgid buf cap p).2.faults ≠ p.faults) :
    (psc_recvmsg (Pipe.sockets ans) sock msgid buf cap p).1.ret.isZero = false := by
  have hhead := recvhead_faults sock hans p
  unfold psc_recvmsg at h ⊢
  generalize psc_recvhead (Pipe.sockets ans) sock p = r at h hhead ⊢
  obtain ⟨ret, mid, mlen, p1⟩ := r
  by_cases hz : ret.isZero = true
  · simp only [hz, Bool.not_true, Bool.false_eq_true, if_false] at h ⊢
    by_cases hlen : cap.toNat < mlen.toNat
    · rw [if_pos hlen]
      rfl
    · have hbody := isZero_of_ended
        (recvall_ended sock hans buf 0 mlen.toNat p1)
      rw [if_neg hlen] at h ⊢
      rw [← hhead hz] at h
      generalize psc_recvall (Pipe.sockets ans) sock buf 0 mlen.toNat p1 = r at h hbody ⊢
      obtain ⟨ret', buf', p2⟩ := r
      by_cases hz' : ret'.isZero = true
      · simp only [hz', Bool.not_true, Bool.false_eq_true, if_false] at h
        exact absurd (hbody.mp hz') h
      · simp only [hz', Bool.not_false, if_true]
  · simp only [hz, Bool.not_false, if_true]

/-! ## One message -/

variable (sock)

theorem sendmsg_moves (f : ℕ → ℕ) (m : Msg) (p : Pipe) :
    ∃ k, psc_sendmsg (Pipe.sockets (moving f)) sock m p =
      (.zero, ⟨p.wire ++ m.frame, k, p.faults⟩) := by
  obtain ⟨k, hk⟩ := sendall_moves sock f (header m.msgid m.len) p
  obtain ⟨k', hk'⟩ := sendall_moves sock f m.payload
    ⟨p.wire ++ header m.msgid m.len, k, p.faults⟩
  refine ⟨k', ?_⟩
  unfold psc_sendmsg psc_sendhead
  simp only [hk, Code.isZero, Bool.not_true, Bool.false_eq_true, if_false, hk', Msg.frame,
    List.append_assoc]

/-- The header is read in any number of pieces, and nothing after it. -/
theorem recvhead_moves (f : ℕ → ℕ) (b0 b1 b2 b3 b4 b5 b6 b7 : Byte) (rest : List Byte)
    (k n : ℕ) :
    ∃ k', psc_recvhead (Pipe.sockets (moving f)) sock
        ⟨[b0, b1, b2, b3, b4, b5, b6, b7] ++ rest, k, n⟩ =
      if b0 ≠ 0x50 ∨ b1 ≠ 0x53 then (.eio, 0, 0, ⟨rest, k', n⟩)
      else (.zero, be16 b2 b3, be32 b4 b5 b6 b7, ⟨rest, k', n⟩) := by
  obtain ⟨k', hk'⟩ := recvall_moves sock f (fun _ => 0) 0 [b0, b1, b2, b3, b4, b5, b6, b7] rest k n
  refine ⟨k', ?_⟩
  unfold psc_recvhead
  simp only [List.length_cons, List.length_nil, Nat.zero_add, Nat.reduceAdd] at hk'
  rw [hk']
  rfl

theorem recvmsg_badMagic (f : ℕ → ℕ) (msgid : BitVec 16) (buf : Buf) (cap : BitVec 32)
    (b0 b1 b2 b3 b4 b5 b6 b7 : Byte) (rest : List Byte) (k n : ℕ)
    (hb : b0 ≠ 0x50 ∨ b1 ≠ 0x53) :
    ∃ k', psc_recvmsg (Pipe.sockets (moving f)) sock msgid buf cap
        ⟨[b0, b1, b2, b3, b4, b5, b6, b7] ++ rest, k, n⟩ =
      (⟨.eio, msgid, cap, buf⟩, ⟨rest, k', n⟩) := by
  obtain ⟨k', hk'⟩ := recvhead_moves sock f b0 b1 b2 b3 b4 b5 b6 b7 rest k n
  refine ⟨k', ?_⟩
  unfold psc_recvmsg
  rw [hk', if_pos hb]
  rfl

theorem recvhead_header (f : ℕ → ℕ) (id : BitVec 16) (len : BitVec 32) (rest : List Byte)
    (k n : ℕ) :
    ∃ k', psc_recvhead (Pipe.sockets (moving f)) sock ⟨header id len ++ rest, k, n⟩ =
      (.zero, id, len, ⟨rest, k', n⟩) := by
  obtain ⟨k', hk'⟩ := recvhead_moves sock f 0x50 0x53 (id.extractLsb' 8 8) (id.extractLsb' 0 8)
    (len.extractLsb' 24 8) (len.extractLsb' 16 8) (len.extractLsb' 8 8) (len.extractLsb' 0 8)
    rest k n
  refine ⟨k', ?_⟩
  rw [if_neg (by simp), be16_extract, be32_extract] at hk'
  exact hk'

theorem recvmsg_tooLong (f : ℕ → ℕ) (msgid : BitVec 16) (buf : Buf) (cap : BitVec 32)
    (id : BitVec 16) (len : BitVec 32) (rest : List Byte) (k n : ℕ) (hlen : cap.toNat < len.toNat) :
    ∃ k', psc_recvmsg (Pipe.sockets (moving f)) sock msgid buf cap
        ⟨header id len ++ rest, k, n⟩ = (⟨.emsgsize, id, len, buf⟩, ⟨rest, k', n⟩) := by
  obtain ⟨k', hk'⟩ := recvhead_header sock f id len rest k n
  refine ⟨k', ?_⟩
  unfold psc_recvmsg
  rw [hk']
  simp only [Code.isZero, Bool.not_true, Bool.false_eq_true, if_false, if_pos hlen]

theorem Msg.len_toNat (m : Msg) : m.len.toNat = m.payload.length := by
  rw [Msg.len, BitVec.toNat_ofNat]
  exact Nat.mod_eq_of_lt m.fits

theorem recvmsg_frame (f : ℕ → ℕ) (msgid : BitVec 16) (buf : Buf) (cap : BitVec 32) (m : Msg)
    (rest : List Byte) (k n : ℕ) (h : m.payload.length ≤ cap.toNat) :
    ∃ k', psc_recvmsg (Pipe.sockets (moving f)) sock msgid buf cap ⟨m.frame ++ rest, k, n⟩ =
      (⟨.zero, m.msgid, m.len, buf.store 0 m.payload⟩, ⟨rest, k', n⟩) := by
  obtain ⟨k1, hk1⟩ := recvhead_header sock f m.msgid m.len (m.payload ++ rest) k n
  obtain ⟨k2, hk2⟩ := recvall_moves sock f buf 0 m.payload rest k1 n
  refine ⟨k2, ?_⟩
  have hle : ¬ cap.toNat < m.payload.length := by omega
  unfold psc_recvmsg Msg.frame
  rw [List.append_assoc, hk1]
  simp only [Code.isZero, Bool.not_true, Bool.false_eq_true, if_false, Msg.len_toNat, if_neg hle,
    hk2]

/-! ## Message lists -/

theorem sendmsgs_moves (f : ℕ → ℕ) (ms : List Msg) (p : Pipe) :
    ∃ k, sendmsgs (Pipe.sockets (moving f)) sock ms p =
      (ms.map fun _ => .zero, ⟨p.wire ++ ms.flatMap Msg.frame, k, p.faults⟩) := by
  induction ms generalizing p with
  | nil => exact ⟨p.calls, by simp [sendmsgs]⟩
  | cons m ms ih =>
    obtain ⟨k1, hk1⟩ := sendmsg_moves sock f m p
    obtain ⟨k2, hk2⟩ := ih ⟨p.wire ++ m.frame, k1, p.faults⟩
    refine ⟨k2, ?_⟩
    simp only [sendmsgs, hk1, hk2, List.map_cons, List.flatMap_cons, List.append_assoc]

theorem recvmsgs_frames (f : ℕ → ℕ) (cap : BitVec 32) (ms : List Msg) (msgid : BitVec 16)
    (buf : Buf) (rest : List Byte) (k n : ℕ) (h : ∀ m ∈ ms, m.payload.length ≤ cap.toNat) :
    ∃ k', recvmsgs (Pipe.sockets (moving f)) sock cap ms.length msgid buf
        ⟨ms.flatMap Msg.frame ++ rest, k, n⟩ =
      (ms.map fun m => (.zero, m.msgid, m.len, m.payload), ⟨rest, k', n⟩) := by
  induction ms generalizing msgid buf k with
  | nil => exact ⟨k, by simp [recvmsgs]⟩
  | cons m ms ih =>
    have hm : m.payload.length ≤ cap.toNat := h m (List.mem_cons_self ..)
    obtain ⟨k1, hk1⟩ := recvmsg_frame sock f msgid buf cap m (ms.flatMap Msg.frame ++ rest) k n hm
    obtain ⟨k2, hk2⟩ := ih m.msgid (buf.store 0 m.payload) k1
      (fun m' hm' => h m' (List.mem_cons_of_mem m hm'))
    refine ⟨k2, ?_⟩
    simp only [List.length_cons, recvmsgs, List.flatMap_cons, List.append_assoc, hk1, hk2,
      List.map_cons, Msg.len_toNat, Buf.slice_store]

/-! ## The stream as a whole -/

/-- Whatever the counts `tx` and `rx` that each `send` and `recv` moves, the messages written by
successive `psc_sendmsg` calls are the ones successive `psc_recvmsg` calls return. A `recv` that
returned early because the rest had not been sent yet is one that moved fewer bytes. A bad header is
rejected having consumed its 8 bytes and touched nothing else, and a call that fails or finds the
end of the stream makes the code nonzero. -/
theorem framing_roundTrip (sock peer : ℤ) :
    (∀ (msgs : List Msg) (tx rx : ℕ → ℕ) (cap : BitVec 32) (msgid : BitVec 16) (buf : Buf),
      (∀ m ∈ msgs, m.payload.length ≤ cap.toNat) →
      ∃ p p', sendmsgs (Pipe.sockets (moving tx)) sock msgs ⟨[], 0, 0⟩ =
          (msgs.map fun _ => .zero, p) ∧
        recvmsgs (Pipe.sockets (moving rx)) peer cap msgs.length msgid buf ⟨p.wire, 0, 0⟩ =
          (msgs.map fun m =>
            (.zero, m.msgid, BitVec.ofNat 32 m.payload.length, m.payload), p') ∧
        p'.wire = []) ∧
    (∀ (rx : ℕ → ℕ) (cap : BitVec 32) (msgid : BitVec 16) (buf : Buf)
      (b0 b1 b2 b3 b4 b5 b6 b7 : Byte) (rest : List Byte), b0 ≠ 0x50 ∨ b1 ≠ 0x53 →
      ∃ r p, psc_recvmsg (Pipe.sockets (moving rx)) peer msgid buf cap
          ⟨[b0, b1, b2, b3, b4, b5, b6, b7] ++ rest, 0, 0⟩ = (r, p) ∧
        r.ret = .eio ∧ r.buf = buf ∧ p.wire = rest) ∧
    (∀ (rx : ℕ → ℕ) (cap : BitVec 32) (msgid : BitVec 16) (buf : Buf)
      (id : BitVec 16) (len : BitVec 32) (rest : List Byte), cap.toNat < len.toNat →
      ∃ r p, psc_recvmsg (Pipe.sockets (moving rx)) peer msgid buf cap
          ⟨header id len ++ rest, 0, 0⟩ = (r, p) ∧
        r.ret = .emsgsize ∧ r.buf = buf ∧ p.wire = rest) ∧
    (∀ (ans : ℕ → Answer) (p : Pipe), ErrnoSet ans →
      (∀ m : Msg, (psc_sendmsg (Pipe.sockets ans) sock m p).2.faults ≠ p.faults →
        (psc_sendmsg (Pipe.sockets ans) sock m p).1.isZero = false) ∧
      (∀ (cap : BitVec 32) (msgid : BitVec 16) (buf : Buf),
        (psc_recvmsg (Pipe.sockets ans) peer msgid buf cap p).2.faults ≠ p.faults →
        (psc_recvmsg (Pipe.sockets ans) peer msgid buf cap p).1.ret.isZero = false)) := by
  refine ⟨?_, ?_, ?_, ?_⟩
  · intro msgs tx rx cap msgid buf hlen
    obtain ⟨k, hk⟩ := sendmsgs_moves sock tx msgs ⟨[], 0, 0⟩
    obtain ⟨k', hk'⟩ := recvmsgs_frames peer rx cap msgs msgid buf [] 0 0 hlen
    refine ⟨_, ⟨[], k', 0⟩, hk, ?_, rfl⟩
    rw [List.append_nil] at hk'
    exact hk'
  · intro rx cap msgid buf b0 b1 b2 b3 b4 b5 b6 b7 rest hb
    obtain ⟨k, hk⟩ := recvmsg_badMagic peer rx msgid buf cap b0 b1 b2 b3 b4 b5 b6 b7 rest 0 0 hb
    exact ⟨_, _, hk, rfl, rfl, rfl⟩
  · intro rx cap msgid buf id len rest hlen
    obtain ⟨k, hk⟩ := recvmsg_tooLong peer rx msgid buf cap id len rest 0 0 hlen
    exact ⟨_, _, hk, rfl, rfl, rfl⟩
  · intro ans p hans
    exact ⟨fun m => sendmsg_faults hans m p,
      fun cap msgid buf => recvmsg_faults hans msgid buf cap p⟩

/-- A message with a payload and an empty one, both sides moving one byte per call, into a buffer of
two bytes. -/
theorem framing_roundTrip_two :
    ∃ p p', sendmsgs (Pipe.sockets (moving fun _ => 0)) 5
          [{ msgid := 1, payload := [7, 8] }, { msgid := 2, payload := [] }] ⟨[], 0, 0⟩ =
        ([.zero, .zero], p) ∧
      recvmsgs (Pipe.sockets (moving fun _ => 0)) 6 2 2 0 (fun _ => 0) ⟨p.wire, 0, 0⟩ =
        ([(.zero, 1, 2, [7, 8]), (.zero, 2, 0, [])], p') ∧ p'.wire = [] :=
  (framing_roundTrip 5 6).1 [{ msgid := 1, payload := [7, 8] }, { msgid := 2, payload := [] }]
    (fun _ => 0) (fun _ => 0) 2 0 (fun _ => 0) (by decide)

end Zpsc.PscMsg
