import Mathlib.Tactic.FinCases
import Zpsc.Fofb.Proofs.UdpRxProofs
import Zpsc.Fofb.Truncated

/-!
# Recovery from truncated FOFB frames

`recovers_iff_clean` characterises the cuts after which the next frame is parsed. In one direction
the receiver is shown to be waiting again when the next frame starts; what it then makes of that
frame depends only on `fofb_stat` (`sameParse_of_waiting`). In the other direction it is either deaf
to the start of the next frame (`Deaf`), or still counting header bytes (`header_misparse`), or has
applied a record made up from idle bytes.
-/

namespace Zpsc.UdpRx

open Bits Clocked

variable {p : FofbParams}

/-! ## A waiting receiver -/

/-- What a waiting receiver makes of a frame depends on `fofb_stat` only. -/
theorem sameParse_of_waiting {s s' : Rx} (h : Waiting s) (h' : Waiting s')
    (he : s.fofb_stat = s'.fofb_stat) (f : Frame p) {idle : List Byte} (hlen : 2 ≤ idle.length) :
    SameParse s s' f idle := by
  match idle, hlen with
  | i0 :: i1 :: rest, _ =>
    obtain ⟨h1, h2, h3, -⟩ := run_frame h f i0 i1 rest
    obtain ⟨h1', h2', h3', -⟩ := run_frame h' f i0 i1 rest
    exact ⟨h1.trans h1'.symm, by rw [h2, h2', he], h3.trans h3'.symm⟩

theorem waiting_restart (s : Rx) : Waiting (restart s) := ⟨rfl, rfl⟩

theorem waiting_run_idle {s : Rx} (hs : s.state = .IDLE) {bs : List Byte} (hb : bs ≠ []) :
    Waiting (run step s (bytesIn p false bs)) :=
  ⟨(run_idle hs bs).1, (run_idle hs bs).2.2 hb⟩

/-! ## A deaf receiver -/

/-- The states in which record bytes are received. -/
def RecordState (s : Rx) : Prop :=
  s.state = .RX_ADDRHI ∨ s.state = .RX_ADDRLO ∨ s.state = .RX_SETPT_BYTE3 ∨
    s.state = .RX_SETPT_BYTE2 ∨ s.state = .RX_SETPT_BYTE1 ∨ s.state = .RX_SETPT_BYTE0

/-- The receiver does not notice the start of a frame: it is reading records, or it is in `IDLE`
without having seen `rx_dv` low. -/
def Deaf (s : Rx) : Prop := (s.state = .IDLE ∧ s.rx_dv_prev = true) ∨ RecordState s

/-- The part of `fofb_stat` that only a header changes. -/
def headerRegs (s : Rx) : BitVec 32 × BitVec 32 × BitVec 32 :=
  (s.fofb_stat.packets_rcvd, s.fofb_stat.command, s.fofb_stat.nonce)

theorem step_deaf {s : Rx} (h : Deaf s) (b : Byte) :
    Deaf (step s (byteIn p true b)) ∧ headerRegs (step s (byteIn p true b)) = headerRegs s := by
  rcases h with ⟨h1, h2⟩ | h | h | h | h | h | h
  · simp [Deaf, RecordState, headerRegs, step, byteIn, h1, h2]
  all_goals simp [Deaf, RecordState, headerRegs, step, byteIn, h]

theorem step_deaf_idle {s : Rx} (h : s.state = .IDLE ∨ RecordState s) (b : Byte) :
    ((step s (byteIn p false b)).state = .IDLE ∨ RecordState (step s (byteIn p false b))) ∧
      headerRegs (step s (byteIn p false b)) = headerRegs s := by
  rcases h with h | h | h | h | h | h | h
  all_goals simp [RecordState, headerRegs, step, byteIn, h]

theorem run_deaf {s : Rx} (h : Deaf s) (bs : List Byte) :
    Deaf (run step s (bytesIn p true bs)) ∧
      headerRegs (run step s (bytesIn p true bs)) = headerRegs s := by
  refine run_inv (fun t => Deaf t ∧ headerRegs t = headerRegs s) (fun t ht i hi => ?_)
    ⟨h, rfl⟩
  obtain ⟨b, -, rfl⟩ := List.mem_map.mp hi
  obtain ⟨h1, h2⟩ := step_deaf (p := p) ht.1 b
  exact ⟨h1, h2.trans ht.2⟩

theorem run_deaf_idle {s : Rx} (h : s.state = .IDLE ∨ RecordState s) (bs : List Byte) :
    headerRegs (run step s (bytesIn p false bs)) = headerRegs s := by
  refine (run_inv
    (fun t => (t.state = .IDLE ∨ RecordState t) ∧ headerRegs t = headerRegs s)
    (fun t ht i hi => ?_) ⟨h, rfl⟩).2
  obtain ⟨b, -, rfl⟩ := List.mem_map.mp hi
  obtain ⟨h1, h2⟩ := step_deaf_idle (p := p) ht.1 b
  exact ⟨h1, h2.trans ht.2⟩

/-- From the first byte at which it is deaf, a receiver keeps packet count and nonce to the end of
the frame. -/
theorem headerRegs_deaf {s : Rx} (h : Deaf s) (bs idle : List Byte) :
    headerRegs (run step s (bytesIn p true bs ++ bytesIn p false idle)) = headerRegs s := by
  obtain ⟨h1, h2⟩ := run_deaf (p := p) h bs
  rw [run_append, run_deaf_idle (h1.imp_left And.left), h2]

/-- The header of a frame for this unit, all other bytes zero. -/
def plainHeader (p : FofbParams) : Header := fun i => (wanted p i).getD 0

theorem plainHeader_accepted : (plainHeader p).Accepted p :=
  ⟨byteOf_be32 p.ipaddr, show be16 0x76#8 0x31#8 = 0x7631#16 by decide⟩

theorem plainHeader_nonceLo : (plainHeader p).nonceLo = 0 :=
  show be32 0 0 0 0 = 0 by decide

theorem plainHeader_readbackCmd : (plainHeader p).readbackCmd = 0 :=
  show be16 0 0 = 0 by decide

def plainFrame (p : FofbParams) (n : ℕ) : Frame p where
  pre := n
  hdr := plainHeader p
  accepted := plainHeader_accepted
  recs := []
  fcs := fun _ => 0

theorem headerRegs_restart (s : Rx) (n : ℕ) :
    headerRegs (run step (restart s) ((plainFrame p n).inputs [0, 0])) =
      (s.fofb_stat.packets_rcvd + 1, 0, 0) := by
  obtain ⟨-, h, -⟩ := run_frame (p := p) (waiting_restart s) (plainFrame p n) 0 0 []
  have hn : (plainFrame p n).hdr.nonceLo = 0 := plainHeader_nonceLo
  have hc : (plainFrame p n).hdr.readbackCmd = 0 := plainHeader_readbackCmd
  rw [headerRegs, h]
  simp only [expectedStat, hn, hc]
  rfl

/-- A receiver whose packet count does not move, or whose nonce is not that of the frame, has not
parsed the plain frame. -/
theorem not_sameParse {s : Rx} {n : ℕ}
    (h : headerRegs (run step s ((plainFrame p n).inputs [0, 0])) ≠
      (s.fofb_stat.packets_rcvd + 1, 0, 0)) :
    ¬ SameParse s (restart s) (plainFrame p n) [0, 0] := by
  rintro ⟨-, he, -⟩
  apply h
  rw [← headerRegs_restart (p := p) s n, headerRegs, headerRegs, he]

theorem packets_ne (x : BitVec 32) : x ≠ x + 1 := by
  intro h
  simp at h

theorem not_sameParse_of_deaf {s : Rx} (h : Deaf s) :
    ¬ SameParse s (restart s) (plainFrame p 0) [0, 0] := by
  apply not_sameParse
  rw [Frame.inputs, headerRegs_deaf h]
  intro he
  exact packets_ne _ (congrArg Prod.fst he)

/-! ## Cuts in the preamble -/

/-- A delimiter among the idle bytes is taken for the start of a header. -/
theorem run_preamble_cut {s : Rx} (h : Waiting s) (n m : ℕ) :
    let s' := run step (run step s (bytesIn p true (List.replicate (n + 1) 0x55#8)))
      (bytesIn p false (List.replicate m 0 ++ [0xD5#8]))
    s'.state = .RX_HEADER ∧ s'.framebytenum = 0 ∧ s'.rx_dv_prev = true := by
  intro s'
  have h1 := run_preamble_wait (p := p) (s := step s (byteIn p true 0x55#8))
    (by rw [step_start h]) true _ (delimiter_not_mem n)
  have h2 := run_preamble_wait (p := p) (s := step s (byteIn p true 0x55#8))
    (by rw [step_start h]) false (List.replicate m 0)
    (fun hm => absurd (List.eq_of_mem_replicate hm) (by decide))
  have hs' : s' = step (step s (byteIn p true 0x55#8)) (byteIn p false 0xD5#8) := by
    simp only [s', List.replicate_succ, bytesIn_cons, run_cons, h1, bytesIn_append, run_append, h2,
      bytesIn_nil, run_nil]
  rw [hs', step_start h, step_preamble rfl]
  exact ⟨rfl, rfl, rfl⟩

/-! ## Cuts in the header -/

theorem storeUpTo_congr {g g' : ℕ → Byte} (u : UdpPkt) {n : ℕ} (h : ∀ i < n, g i = g' i) :
    storeUpTo g u n = storeUpTo g' u n := by
  induction n with
  | zero => rfl
  | succ n ih => rw [storeUpTo, storeUpTo, ih fun i hi => h i (by omega), h n (by omega)]

theorem run_header_cut {s : Rx} (h : Waiting s) (n : ℕ) {g : ℕ → Byte} (bs : List Byte)
    (hlen : bs.length ≤ 53) (hb : ∀ i, (hi : i < bs.length) → bs[i] = g i) :
    run step s (bytesIn p true (preamble n ++ bs)) =
      { s with
        state := .RX_HEADER, framebytenum := bs.length, databytenum := 0, rx_dv_prev := true
        udp_pkt_buf_rx := storeUpTo g s.udp_pkt_buf_rx bs.length
        fofb_packet := false, rx_done := false } := by
  have hhdr := run_header (p := p) (s := run step s (bytesIn p true (preamble n))) (k := 0)
    (h := g) (u := s.udp_pkt_buf_rx) (by rw [run_preamble h]) (by rw [run_preamble h])
    (by rw [run_preamble h]; rfl) true bs (by omega)
    (fun i hi => by rw [Nat.zero_add]; exact hb i hi)
  rw [bytesIn_append, run_append, hhdr, run_preamble h, Nat.zero_add]

/-- The last byte of a header that was received up to position `k`: the receiver is deaf at once,
and has taken up the nonce if it accepted the header. -/
theorem run_header_end {s : Rx} {g : ℕ → Byte} {u : UdpPkt} {k : ℕ} (hs : s.state = .RX_HEADER)
    (hk : s.framebytenum = k) (hu : s.udp_pkt_buf_rx = storeUpTo g u k) (hdv : s.rx_dv_prev = true)
    (dv : Bool) (bs : List Byte) (hlen : k + bs.length = 54)
    (hb : ∀ i, (hi : i < bs.length) → bs[i] = g (k + i)) (hk54 : k < 54) :
    let s' := run step s (bytesIn p dv bs)
    (AcceptedBytes p g ∧ s'.state = .RX_ADDRHI ∧ s'.fofb_stat = headerStat s.fofb_stat g ∨
      ¬ AcceptedBytes p g ∧ s'.state = .IDLE ∧ s'.fofb_stat = s.fofb_stat) ∧
    s'.rx_dv_prev = true := by
  intro s'
  obtain ⟨init, last, rfl⟩ : ∃ init last, bs = init ++ [last] := by
    refine ⟨bs.dropLast, bs.getLast (by rintro rfl; simp at hlen; omega), ?_⟩
    rw [List.dropLast_append_getLast]
  rw [List.length_append, List.length_singleton] at hlen
  have hlast : last = g 53 := by
    have := hb init.length (by simp)
    rw [List.getElem_append_right (le_refl _)] at this
    simpa [show k + init.length = 53 by omega] using this
  have hinit := run_header (p := p) hs hk hu dv init (by omega)
    (fun i hi => by
      rw [← hb i (by rw [List.length_append]; omega), List.getElem_append_left hi])
  rw [show k + init.length = 53 by omega] at hinit
  have hs' : s' = step (run step s (bytesIn p dv init)) (byteIn p dv (g 53)) := by
    simp only [s', bytesIn_append, run_append, bytesIn_cons, bytesIn_nil, run_cons, run_nil, hlast]
  by_cases ha : AcceptedBytes p g
  · have hstep := step_header_last (p := p) (h := g) (u := u)
      (s := run step s (bytesIn p dv init)) (by rw [hinit]; exact hs) (by rw [hinit])
      (by rw [hinit]) dv ha
    rw [hs', hstep, hinit]
    exact ⟨Or.inl ⟨ha, rfl, rfl⟩, hdv⟩
  · have hstep := step_header_reject (p := p) (h := g) (u := u)
      (s := run step s (bytesIn p dv init)) (by rw [hinit]; exact hs) (by rw [hinit])
      (by rw [hinit]) dv ha
    rw [hs', hstep, hinit]
    exact ⟨Or.inr ⟨ha, rfl, rfl⟩, hdv⟩

/-- A receiver that is still counting header bytes when the next frame starts misses it: with a
preamble long enough the header is completed by preamble bytes. -/
theorem header_misparse {s : Rx} {g : ℕ → Byte} {u : UdpPkt} {k : ℕ} (hs : s.state = .RX_HEADER)
    (hk : s.framebytenum = k) (hu : s.udp_pkt_buf_rx = storeUpTo g u k) (hdv : s.rx_dv_prev = true)
    (hk54 : k < 54) : ¬ SameParse s (restart s) (plainFrame p 60) [0, 0] := by
  -- the preamble bytes that complete the header
  set g' : ℕ → Byte := fun i => if i < k then g i else 0x55#8 with hg'
  have hu' : s.udp_pkt_buf_rx = storeUpTo g' u k := by
    rw [hu, storeUpTo_congr u fun i hi => ?_]
    rw [hg']
    simp only [hi, if_true]
  set first := List.replicate (54 - k) 0x55#8 with hfirst
  obtain ⟨rest, hrest⟩ : ∃ rest, (plainFrame p 60).bytes = first ++ rest := by
    refine ⟨List.replicate (7 + k) 0x55#8 ++ ([0xD5#8] ++ List.ofFn (plainHeader p) ++
      recordBytes [] ++ List.ofFn (plainFrame p 60).fcs), ?_⟩
    have hsum : 60 + 1 = (54 - k) + (7 + k) := by omega
    simp only [Frame.bytes, preamble, hfirst, plainFrame, hsum, List.replicate_add,
      List.append_assoc]
  have hend := run_header_end (p := p) (g := g') (u := u) hs hk hu' hdv true first
    (by rw [hfirst, List.length_replicate]; omega)
    (fun i hi => by simp [hfirst, hg']) hk54
  obtain ⟨hcase, hdv'⟩ := hend
  apply not_sameParse
  rw [Frame.inputs, hrest, bytesIn_append, List.append_assoc, run_append]
  rcases hcase with ⟨-, h1, h2⟩ | ⟨-, h1, h2⟩
  · rw [headerRegs_deaf (Or.inr (Or.inl h1))]
    intro he
    have hn := congrArg (fun t : BitVec 32 × BitVec 32 × BitVec 32 => t.2.2) he
    simp only [headerRegs, h2, headerStat, hg', show ¬ 53 < k by omega, if_false] at hn
    exact be32_ne_of_last (show (0x55 : Byte) ≠ 0 by decide) _ _ _ 0 0 0
      (hn.trans (show (0 : BitVec 32) = be32 0 0 0 0 by decide))
  · rw [headerRegs_deaf (Or.inl ⟨h1, hdv'⟩)]
    intro he
    have hp := congrArg (fun t : BitVec 32 × BitVec 32 × BitVec 32 => t.1) he
    simp only [headerRegs, h2] at hp
    exact packets_ne _ hp

theorem acceptedBytes_iff_wanted {g : ℕ → Byte} :
    AcceptedBytes p g ↔ ∀ i b, wanted p i = some b → g i = b := by
  rw [AcceptedBytes, ← byteOf_be32 p.ipaddr, be32_inj,
    show 0x7631#16 = be16 0x76#8 0x31#8 by decide, be16_inj]
  constructor
  · rintro ⟨⟨h30, h31, h32, h33⟩, h42, h43⟩ i b hw
    unfold wanted at hw
    split at hw <;> simp_all
  · intro h
    exact ⟨⟨h 30 _ rfl, h 31 _ rfl, h 32 _ rfl, h 33 _ rfl⟩, h 42 _ rfl, h 43 _ rfl⟩

/-- The header bytes seen when the header `h` is cut after `k` bytes and `w` follows. -/
def cutBytes (h : Header) (k : ℕ) (w : List Byte) (i : ℕ) : Byte :=
  if i < k then h.seq i else w.getD (i - k) 0

theorem run_inHeader {s : Rx} (hs : Waiting s) (n : ℕ) (h : Header) (k : Fin 54) (w : List Byte) :
    let s' := run step s (bytesIn p true (Cut.inHeader n h k).bytes)
    s'.state = .RX_HEADER ∧ s'.framebytenum = k ∧
      s'.udp_pkt_buf_rx = storeUpTo (cutBytes h k w) s.udp_pkt_buf_rx k ∧ s'.rx_dv_prev = true ∧
      s'.fofb_stat = s.fofb_stat := by
  intro s'
  have hlen : ((List.ofFn h).take k).length = k := by
    rw [List.length_take, List.length_ofFn]
    omega
  have hrun := run_header_cut (p := p) hs n (g := cutBytes h k w) ((List.ofFn h).take k)
    (by omega) (fun i hi => by
      have hik : i < k := hlen ▸ hi
      have hi54 : i < 54 := by omega
      rw [List.getElem_take, List.getElem_ofFn, cutBytes, if_pos hik, Header.seq, dif_pos hi54])
  rw [hlen] at hrun
  have hs' : s' = _ := hrun
  rw [hs']
  exact ⟨rfl, rfl, rfl, rfl, rfl⟩

theorem cutBytes_add (h : Header) (k : ℕ) (w : List Byte) {i : ℕ} (hi : i < w.length) :
    w[i] = cutBytes h k w (k + i) := by
  rw [cutBytes, if_neg (by omega), Nat.add_sub_cancel_left]
  simp [List.getD, hi]

/-- The rest of a cut header made up from idle bytes, to the clock after which the header is
complete. -/
theorem run_inHeader_end {s : Rx} (hs : Waiting s) (n : ℕ) (h : Header) (k : Fin 54)
    {w : List Byte} (hw : k + w.length = 54) :
    let s' := run step (run step s (bytesIn p true (Cut.inHeader n h k).bytes)) (bytesIn p false w)
    (AcceptedBytes p (cutBytes h k w) ∧ s'.state = .RX_ADDRHI ∨
      ¬ AcceptedBytes p (cutBytes h k w) ∧ s'.state = .IDLE) ∧
    s'.rx_dv_prev = true ∧ s'.fofb_stat.setpt_flt = s.fofb_stat.setpt_flt := by
  intro s'
  obtain ⟨h1, h2, h3, h4, h5⟩ := run_inHeader (p := p) hs n h k w
  obtain ⟨hcase, hdv⟩ := run_header_end (p := p) h1 h2 h3 h4 false _ hw
    (fun i hi => cutBytes_add h k w hi) k.isLt
  rw [h5] at hcase
  refine ⟨hcase.imp (fun hc => ⟨hc.1, hc.2.1⟩) (fun hc => ⟨hc.1, hc.2.1⟩), hdv, ?_⟩
  rcases hcase with ⟨-, -, hc⟩ | ⟨-, -, hc⟩
  · exact (congrArg FofbStat.setpt_flt hc).trans rfl
  · exact congrArg FofbStat.setpt_flt hc

theorem step_addrhi_idle {s : Rx} (hs : s.state = .RX_ADDRHI) (b : Byte) :
    step s (byteIn p false b) =
      { s with state := .IDLE, fofb_packet := false, rx_done := true } := by
  simp [step, byteIn, hs]

/-- Idle clocks after a header: two of them make the receiver wait again, one does if the header
was not for this unit. -/
theorem waiting_after_header {s : Rx} {rest : List Byte}
    (hs : s.state = .RX_ADDRHI ∧ 2 ≤ rest.length ∨ s.state = .IDLE ∧ 1 ≤ rest.length) :
    Waiting (run step s (bytesIn p false rest)) ∧
      (run step s (bytesIn p false rest)).fofb_stat = s.fofb_stat := by
  rcases hs with ⟨hs, hlen⟩ | ⟨hs, hlen⟩
  · match rest, hlen with
    | b :: b' :: rest, _ =>
      have hb := step_addrhi_idle (p := p) hs b
      have hidle : (step s (byteIn p false b)).state = .IDLE := by rw [hb]
      rw [bytesIn_cons, run_cons]
      refine ⟨waiting_run_idle hidle (by simp), ?_⟩
      rw [(run_idle hidle _).2.1, hb]
  · have hne : rest ≠ [] := by
      rintro rfl
      simp at hlen
    exact ⟨waiting_run_idle hs hne, (run_idle hs rest).2.1⟩

theorem recovers_of_waiting {s : Rx} {c : Cut} {m : ℕ}
    (h : ∀ idle : List Byte, idle.length = m →
      Waiting (run step (run step s (bytesIn p true c.bytes)) (bytesIn p false idle)) ∧
      (run step (run step s (bytesIn p true c.bytes)) (bytesIn p false idle)).fofb_stat.setpt_flt =
        (run step s (bytesIn p true c.bytes)).fofb_stat.setpt_flt) :
    Recovers p s c m := by
  intro idle hlen
  obtain ⟨hw, hset⟩ := h idle hlen
  exact ⟨hset, fun f idle' hlen' => sameParse_of_waiting hw (waiting_restart _) rfl f hlen'⟩

theorem not_recovers_of_deaf {s : Rx} {c : Cut} {idle : List Byte}
    (h : Deaf (run step (run step s (bytesIn p true c.bytes)) (bytesIn p false idle))) :
    ¬ Recovers p s c idle.length := fun hr =>
  not_sameParse_of_deaf h ((hr idle rfl).2 (plainFrame p 0) [0, 0] (by simp))

theorem not_recovers_preamble {s : Rx} (hs : Waiting s) (n : ℕ) {m : ℕ} (hm : 2 ≤ m) :
    ¬ Recovers p s (.inPreamble n) m := by
  intro hr
  obtain ⟨h1, h2, h3⟩ := run_preamble_cut (p := p) hs n (m - 1)
  have hlen : (List.replicate (m - 1) 0 ++ [0xD5#8]).length = m := by
    simp
    omega
  exact header_misparse (g := fun _ => 0) h1 h2 rfl h3 (by omega)
    ((hr _ hlen).2 (plainFrame p 60) [0, 0] (by simp))

theorem not_recovers_header_short {s : Rx} (hs : Waiting s) (n : ℕ) (h : Header) (k : Fin 54)
    {m : ℕ} (hm : k + m ≤ 53) : ¬ Recovers p s (.inHeader n h k) m := by
  intro hr
  have hlen : (List.replicate m (0 : Byte)).length = m := List.length_replicate
  obtain ⟨h1, h2, h3, h4, -⟩ := run_inHeader (p := p) hs n h k (List.replicate m 0)
  have hrun := run_header (p := p) h1 h2 h3 false (List.replicate m 0)
    (by rw [hlen]; exact hm) (fun i hi => cutBytes_add h k _ hi)
  refine header_misparse (p := p) (g := cutBytes h k (List.replicate m 0))
    (u := s.udp_pkt_buf_rx) (k := k + m) ?_ ?_ ?_ ?_ ?_
    ((hr (List.replicate m 0) hlen).2 (plainFrame p 60) [0, 0] (by simp))
  · rw [hrun]
    exact h1
  · rw [hrun, hlen]
  · rw [hrun, hlen]
  · rw [hrun]
    exact h4
  · omega

theorem not_recovers_header_end {s : Rx} (hs : Waiting s) (n : ℕ) (h : Header) (k : Fin 54)
    {m : ℕ} (hm : k + m = 54) : ¬ Recovers p s (.inHeader n h k) m := by
  have hlen : (List.replicate m (0 : Byte)).length = m := List.length_replicate
  obtain ⟨hcase, hdv, -⟩ := run_inHeader_end (p := p) hs n h k (w := List.replicate m 0)
    (by rw [hlen]; exact hm)
  rw [← hlen]
  apply not_recovers_of_deaf
  rcases hcase with ⟨-, h1⟩ | ⟨-, h1⟩
  · exact Or.inr (Or.inl h1)
  · exact Or.inl ⟨h1, hdv⟩

/-- One idle clock after a header that still may be accepted: `IDLE` is reached, but `rx_dv` is not
seen low there. -/
theorem not_recovers_header_accepted {s : Rx} (hs : Waiting s) (n : ℕ) (h : Header) (k : Fin 54)
    {m : ℕ} (hm : k + m = 55) (hf : ¬ Foreign p h k) : ¬ Recovers p s (.inHeader n h k) m := by
  -- idle bytes that complete the header to an accepted one
  set w := (List.range (54 - k)).map fun i => (wanted p (k + i)).getD 0 with hw
  have hwlen : w.length = 54 - k := by rw [hw, List.length_map, List.length_range]
  have hacc : AcceptedBytes p (cutBytes h k w) := by
    rw [acceptedBytes_iff_wanted]
    intro i b hb
    have hi : i < 54 := by
      unfold wanted at hb
      split at hb <;> simp_all
    unfold cutBytes
    split
    · next hik =>
      rw [Header.seq, dif_pos hi]
      by_contra hne
      exact hf ⟨⟨i, hi⟩, hik, b, hb, hne⟩
    · next hik =>
      have hlt : i - k < w.length := by omega
      simp [hw, show i - k < 54 - k by omega, show k + (i - k) = i by omega, hb]
  obtain ⟨hcase, hdv, -⟩ := run_inHeader_end (p := p) hs n h k (w := w) (by omega)
  have h1 := (hcase.resolve_right fun hc => hc.1 hacc).2
  have hlen : (w ++ [0]).length = m := by
    rw [List.length_append, hwlen, List.length_singleton]
    omega
  rw [← hlen]
  apply not_recovers_of_deaf
  rw [bytesIn_append, run_append, bytesIn_cons, run_cons, step_addrhi_idle h1]
  exact Or.inl ⟨rfl, hdv⟩

theorem recovers_header {s : Rx} (hs : Waiting s) (n : ℕ) (h : Header) (k : Fin 54) {m : ℕ}
    (hm : 56 ≤ k + m ∨ k + m = 55 ∧ Foreign p h k) : Recovers p s (.inHeader n h k) m := by
  apply recovers_of_waiting
  intro idle hlen
  have hsplit : idle = idle.take (54 - k) ++ idle.drop (54 - k) := (List.take_append_drop ..).symm
  have hwlen : (idle.take (54 - k)).length = 54 - k := by
    rw [List.length_take]
    omega
  have hrest : (idle.drop (54 - k)).length = m - (54 - k) := by rw [List.length_drop, hlen]
  obtain ⟨hcase, -, hset⟩ := run_inHeader_end (p := p) hs n h k (w := idle.take (54 - k))
    (by omega)
  set s1 := run step (run step s (bytesIn p true (Cut.inHeader n h k).bytes))
    (bytesIn p false (idle.take (54 - k))) with hs1
  have hnext : s1.state = .RX_ADDRHI ∧ 2 ≤ (idle.drop (54 - k)).length ∨
      s1.state = .IDLE ∧ 1 ≤ (idle.drop (54 - k)).length := by
    rcases hcase with ⟨hacc, h1⟩ | ⟨-, h1⟩
    · refine Or.inl ⟨h1, ?_⟩
      rcases hm with hm | ⟨-, i, hik, b, hb, hne⟩
      · omega
      · have hi := acceptedBytes_iff_wanted.mp hacc i b hb
        rw [cutBytes, if_pos hik, Header.seq, dif_pos i.isLt] at hi
        exact absurd hi hne
    · exact Or.inr ⟨h1, by omega⟩
  obtain ⟨hw, hstat⟩ := waiting_after_header (p := p) hnext
  rw [hsplit, bytesIn_append, run_append, ← hs1]
  refine ⟨hw, ?_⟩
  rw [hstat, hset, (run_inHeader (p := p) hs n h k []).2.2.2.2]

/-! ## Cuts in a record -/

/-- The number of bytes of the current record that have been received. -/
def recordPos : State → ℕ
  | .RX_ADDRLO => 1
  | .RX_SETPT_BYTE3 => 2
  | .RX_SETPT_BYTE2 => 3
  | .RX_SETPT_BYTE1 => 4
  | .RX_SETPT_BYTE0 => 5
  | _ => 0

theorem deaf_of_recordPos {s : Rx} (h : 1 ≤ recordPos s.state) : Deaf s := by
  refine Or.inr ?_
  unfold recordPos at h
  split at h <;> simp_all [RecordState]

theorem step_recordPos {s : Rx} (h : 1 ≤ recordPos s.state) (h5 : recordPos s.state < 5)
    (dv : Bool) (b : Byte) :
    recordPos (step s (byteIn p dv b)).state = recordPos s.state + 1 ∧
    (step s (byteIn p dv b)).rx_dv_prev = s.rx_dv_prev ∧
    (step s (byteIn p dv b)).fofb_stat = s.fofb_stat := by
  cases hs : s.state <;> simp_all [recordPos, step, byteIn]

theorem run_recordPos {s : Rx} (h : 1 ≤ recordPos s.state) (dv : Bool) (bs : List Byte)
    (hlen : recordPos s.state + bs.length ≤ 5) :
    recordPos (run step s (bytesIn p dv bs)).state = recordPos s.state + bs.length ∧
    (run step s (bytesIn p dv bs)).rx_dv_prev = s.rx_dv_prev ∧
    (run step s (bytesIn p dv bs)).fofb_stat = s.fofb_stat := by
  induction bs generalizing s with
  | nil => exact ⟨rfl, rfl, rfl⟩
  | cons b bs ih =>
    rw [List.length_cons] at hlen
    obtain ⟨h1, h2, h3⟩ := step_recordPos (p := p) h (by omega) dv b
    obtain ⟨h1', h2', h3'⟩ := ih (s := step s (byteIn p dv b)) (by omega) (by omega)
    rw [bytesIn_cons, run_cons, List.length_cons]
    exact ⟨by rw [h1', h1]; omega, h2'.trans h2, h3'.trans h3⟩

/-- The last byte of a record with `rx_dv` low: `IDLE`, without a look at `rx_dv_prev`. -/
theorem step_record_last {s : Rx} (h : recordPos s.state = 5) (b : Byte) :
    (step s (byteIn p false b)).state = .IDLE ∧
    (step s (byteIn p false b)).rx_dv_prev = s.rx_dv_prev := by
  cases hs : s.state <;> simp_all [recordPos, step, byteIn]

theorem run_inRecord {s : Rx} (hs : Waiting s) (n : ℕ) {h : Header} (ha : h.Accepted p)
    (rs : List Record) (r : Record) (k : Fin 5) :
    let s' := run step s (bytesIn p true (Cut.inRecord n h rs r k).bytes)
    recordPos s'.state = k + 1 ∧ s'.rx_dv_prev = true ∧
      s'.fofb_stat = bodyStat p s.fofb_stat h rs := by
  intro s'
  obtain ⟨h1, -, h3, h4⟩ := run_body hs n ha rs
  set s1 := run step s (bytesIn p true (preamble n ++ List.ofFn h ++ recordBytes rs)) with hs1
  set tail := [byteOf r.1 0, byteOf r.2 3, byteOf r.2 2, byteOf r.2 1, byteOf r.2 0].take k
    with htail
  have hfirst : recordPos (step s1 (byteIn p true (byteOf r.1 1))).state = 1 ∧
      (step s1 (byteIn p true (byteOf r.1 1))).rx_dv_prev = s1.rx_dv_prev ∧
      (step s1 (byteIn p true (byteOf r.1 1))).fofb_stat = s1.fofb_stat := by
    simp [step, byteIn, h1, recordPos]
  obtain ⟨f1, f2, f3⟩ := hfirst
  have hlen : tail.length = k := by
    rw [htail, List.length_take]
    exact Nat.min_eq_left (by simp)
  obtain ⟨t1, t2, t3⟩ := run_recordPos (p := p) (s := step s1 (byteIn p true (byteOf r.1 1)))
    (by omega) true tail (by omega)
  have hs' : s' = run step (step s1 (byteIn p true (byteOf r.1 1))) (bytesIn p true tail) := by
    simp only [s', Cut.bytes, Record.bytes, List.take_succ_cons, bytesIn_append true _ (_ :: _),
      run_append, bytesIn_cons, run_cons, ← hs1, ← htail]
  rw [hs']
  exact ⟨by rw [t1, f1, hlen, Nat.add_comm], by rw [t2, f2, h3], by rw [t3, f3, h4]⟩

/-- The record made up of the bytes received of a cut record and of the idle bytes `w`. -/
def cutRecord (r : Record) (k : Fin 5) (w : List Byte) : Record :=
  let l := (Record.bytes r).take (k + 1) ++ w
  (be16 (l.getD 0 0) (l.getD 1 0), be32 (l.getD 2 0) (l.getD 3 0) (l.getD 4 0) (l.getD 5 0))

/-- A cut record completed by idle bytes is applied. -/
theorem run_record_cut {s : Rx} (hs : s.state = .RX_ADDRHI) (r : Record) (k : Fin 5)
    {w : List Byte} (hw : k + w.length = 5) :
    let s' := run step s (bytesIn p true ((Record.bytes r).take (k + 1)) ++ bytesIn p false w)
    s'.state = .IDLE ∧ s'.rx_dv_prev = s.rx_dv_prev ∧
      s'.fofb_stat = { s.fofb_stat with
        setpt_flt := applyRecord p s.fofb_stat.setpt_flt (cutRecord r k w).1
          (cutRecord r k w).2 } := by
  intro s'
  have hrec : ∃ d1 d2 d3 d4 b0 b1 b2 b3 b4 b5,
      bytesIn p true ((Record.bytes r).take (k + 1)) ++ bytesIn p false w =
        [byteIn p true b0, byteIn p d1 b1, byteIn p d2 b2, byteIn p d3 b3, byteIn p d4 b4,
          byteIn p false b5] ∧ cutRecord r k w = (be16 b0 b1, be32 b2 b3 b4 b5) := by
    obtain ⟨v, rfl⟩ : ∃ v : Fin (5 - k) → Byte, w = List.ofFn v := by
      refine ⟨fun i => w.get ⟨i, by omega⟩, ?_⟩
      apply List.ext_getElem
      · rw [List.length_ofFn]
        omega
      · intro i _ _
        simp
    fin_cases k <;> exact ⟨_, _, _, _, _, _, _, _, _, _, rfl, rfl⟩
  obtain ⟨d1, d2, d3, d4, b0, b1, b2, b3, b4, b5, hin, hcut⟩ := hrec
  have hrun := run_record (p := p) hs d1 d2 d3 d4 false b0 b1 b2 b3 b4 b5
  simp only [s', hin, hrun, hcut]
  exact ⟨rfl, trivial, trivial⟩

/-- Too few idle clocks to run through the rest of the record and to see `rx_dv` low after it. -/
theorem not_recovers_record_short {s : Rx} (hs : Waiting s) (n : ℕ) {h : Header}
    (ha : h.Accepted p) (rs : List Record) (r : Record) (k : Fin 5) {m : ℕ} (hm : k + m ≤ 5)
    (hm0 : 1 ≤ m) : ¬ Recovers p s (.inRecord n h rs r k) m := by
  obtain ⟨h1, h2, -⟩ := run_inRecord hs n ha rs r k
  have hlen : ∀ j, (List.replicate j (0 : Byte)).length = j := fun j => List.length_replicate
  rw [← hlen m]
  apply not_recovers_of_deaf
  obtain ⟨t1, t2, -⟩ := run_recordPos (p := p) (by rw [h1]; omega) false
    (List.replicate (m - 1) 0) (by rw [h1, hlen]; omega)
  rw [h1, hlen] at t1
  rw [show m = (m - 1) + 1 by omega, List.replicate_succ', bytesIn_append, run_append, bytesIn_cons,
    run_cons, bytesIn_nil, run_nil]
  by_cases h5 : k + 1 + (m - 1) = 5
  · obtain ⟨l1, l2⟩ := step_record_last (p := p) (t1.trans h5) 0
    exact Or.inl ⟨l1, by rw [l2, t2, h2]⟩
  · obtain ⟨l1, -⟩ := step_recordPos (p := p) (by rw [t1]; omega) (by rw [t1]; omega) false 0
    exact deaf_of_recordPos (by rw [l1, t1]; omega)

/-- The setpoint registers after the idle clocks that complete a cut record, and that the receiver
waits if there is one more of them. -/
theorem run_inRecord_end {s : Rx} (hs : Waiting s) (n : ℕ) {h : Header} (ha : h.Accepted p)
    (rs : List Record) (r : Record) (k : Fin 5) {w rest : List Byte} (hw : k + w.length = 5)
    (hrest : rest ≠ []) :
    let s' := run step (run step s (bytesIn p true (Cut.inRecord n h rs r k).bytes))
      (bytesIn p false (w ++ rest))
    Waiting s' ∧ s'.fofb_stat.setpt_flt =
      applyRecord p (bodyStat p s.fofb_stat h rs).setpt_flt (cutRecord r k w).1
        (cutRecord r k w).2 := by
  intro s'
  obtain ⟨h1, -, -, h4⟩ := run_body hs n ha rs
  set s1 := run step s (bytesIn p true (preamble n ++ List.ofFn h ++ recordBytes rs)) with hs1
  obtain ⟨c1, -, c3⟩ := run_record_cut (p := p) h1 r k hw
  set s2 := run step s1 (bytesIn p true ((Record.bytes r).take (k + 1)) ++ bytesIn p false w)
    with hs2
  have hs' : s' = run step s2 (bytesIn p false rest) := by
    simp only [s', Cut.bytes, hs2, hs1, bytesIn_append, run_append]
  rw [hs']
  refine ⟨waiting_run_idle c1 hrest, ?_⟩
  rw [(run_idle c1 rest).2.1, c3, h4]

/-- A record that cannot address a channel is dropped, however it is completed. -/
theorem cutRecord_addr_ne {r : Record} {k : Fin 5} {c : Chan} (h : ¬ MayAddress p r k c)
    {w : List Byte} (hw : k + w.length = 5) : (cutRecord r k w).1 ≠ p.addr c := by
  intro he
  apply h
  unfold MayAddress
  split
  · next hk =>
    subst hk
    rw [← byteOf_be16 (p.addr c)] at he
    exact (be16_inj.mp he).1
  · next hk =>
    rw [← he, ← byteOf_be16 r.1]
    fin_cases k
    · exact absurd rfl hk
    all_goals rfl

/-- A record that may address a channel can be completed to one that changes its setpoint. -/
theorem exists_cutRecord {r : Record} {k : Fin 5} {c : Chan} (h : MayAddress p r k c)
    (v : BitVec 32) : ∃ w : List Byte, k + w.length = 5 ∧
      (cutRecord r k w).1 = p.addr c ∧ (cutRecord r k w).2 ≠ v := by
  -- the low address byte, when it is still missing, and a last byte that is not that of `v`
  set x := byteOf (p.addr c) 0
  set y := ~~~ byteOf v 0
  have hne : ∀ b0 b1 b2, be32 b0 b1 b2 y ≠ v := fun b0 b1 b2 => be32_ne_of_not_last b0 b1 b2 v
  fin_cases k
  · refine ⟨[x, 0, 0, 0, y], rfl, ?_, hne _ _ _⟩
    have h1 : byteOf r.1 1 = byteOf (p.addr c) 1 := h
    exact (congrArg (be16 · x) h1).trans (byteOf_be16 _)
  · exact ⟨[0, 0, 0, y], rfl, (byteOf_be16 r.1).trans h, hne _ _ _⟩
  · exact ⟨[0, 0, y], rfl, (byteOf_be16 r.1).trans h, hne _ _ _⟩
  · exact ⟨[0, y], rfl, (byteOf_be16 r.1).trans h, hne _ _ _⟩
  · exact ⟨[y], rfl, (byteOf_be16 r.1).trans h, hne _ _ _⟩

/-- A frame for another unit leaves the receiver in `IDLE`, wherever it is cut. -/
theorem run_inRecord_reject {s : Rx} (hs : Waiting s) (n : ℕ) {h : Header} (ha : ¬ h.Accepted p)
    (rs : List Record) (r : Record) (k : Fin 5) :
    (run step s (bytesIn p true (Cut.inRecord n h rs r k).bytes)).state = .IDLE := by
  have hpre := run_preamble (p := p) hs n
  have hlast := run_header_end (p := p) (g := h.seq) (u := s.udp_pkt_buf_rx) (k := 0)
    (s := run step s (bytesIn p true (preamble n))) (by rw [hpre]) (by rw [hpre])
    (by rw [hpre]; rfl) (by rw [hpre]) true (List.ofFn h) (by rw [List.length_ofFn])
    (fun i hi => by
      have hi54 : i < 54 := by simpa using hi
      rw [List.getElem_ofFn, Nat.zero_add, Header.seq, dif_pos hi54]) (by omega)
  obtain ⟨hcase, hdv⟩ := hlast
  have hidle := (hcase.resolve_left fun hc => ha (acceptedBytes_seq.mp hc.1)).2.1
  -- in `IDLE` with `rx_dv_prev` set, the rest of the frame is ignored
  have hstay := run_inv (fun t : Rx => t.state = .IDLE ∧ t.rx_dv_prev = true)
    (fun t ht i (hi : i ∈ bytesIn p true (recordBytes rs ++ (Record.bytes r).take (k + 1))) => by
      obtain ⟨b, -, rfl⟩ := List.mem_map.mp hi
      show (step t _).state = .IDLE ∧ (step t _).rx_dv_prev = true
      simp [step, byteIn, ht.1, ht.2]) ⟨hidle, hdv⟩
  rw [Cut.bytes, List.append_assoc, List.append_assoc, bytesIn_append, run_append, bytesIn_append,
    run_append]
  exact hstay.1

/-! ## Which cuts are recovered from -/

/-- The receiver recovers from a cut frame exactly from the clean cuts. -/
theorem recovers_iff_clean {s : Rx} (hs : Waiting s) (c : Cut) {m : ℕ} (hm : 2 ≤ m) :
    Recovers p s c m ↔ Clean p c m := by
  cases c with
  | inPreamble n => exact iff_of_false (not_recovers_preamble hs n hm) id
  | inHeader n h k =>
    refine ⟨?_, recovers_header hs n h k⟩
    intro hr
    by_contra hc
    simp only [Clean, not_or, not_le, not_and] at hc
    obtain ⟨h56, h55⟩ := hc
    by_cases h1 : k + m ≤ 53
    · exact not_recovers_header_short hs n h k h1 hr
    by_cases h2 : k + m = 54
    · exact not_recovers_header_end hs n h k h2 hr
    · have h3 : k + m = 55 := by omega
      exact not_recovers_header_accepted hs n h k h3 (h55 h3) hr
  | inRecord n h rs r k =>
    by_cases ha : h.Accepted p
    · have hbody := (run_inRecord hs n ha rs r k).2.2
      constructor
      · intro hr
        refine Or.inr ⟨?_, ?_⟩
        · by_contra hlt
          exact not_recovers_record_short hs n ha rs r k (by omega) (by omega) hr
        · intro c hc
          obtain ⟨w, hw, haddr, hval⟩ :=
            exists_cutRecord hc ((bodyStat p s.fofb_stat h rs).setpt_flt c)
          by_cases hlt : k + m ≤ 5
          · exact not_recovers_record_short hs n ha rs r k hlt (by omega) hr
          have hrest : List.replicate (m - w.length) (0 : Byte) ≠ [] := by
            simp
            omega
          have hend := (run_inRecord_end hs n ha rs r k hw hrest).2
          have hset := (hr (w ++ List.replicate (m - w.length) 0) (by simp; omega)).1
          rw [hend, hbody] at hset
          have hc' := congrFun hset c
          rw [applyRecord, if_pos haddr] at hc'
          exact hval hc'
      · rintro (hn | ⟨hlen, hno⟩)
        · exact absurd ha hn
        apply recovers_of_waiting
        intro idle hidle
        have hsplit : idle = idle.take (5 - k) ++ idle.drop (5 - k) :=
          (List.take_append_drop ..).symm
        have hw : k + (idle.take (5 - k)).length = 5 := by
          rw [List.length_take]
          omega
        have hrest : idle.drop (5 - k) ≠ [] := by
          intro he
          have := congrArg List.length he
          rw [List.length_drop, List.length_nil] at this
          omega
        obtain ⟨hwait, hset⟩ := run_inRecord_end hs n ha rs r k hw hrest
        rw [← hsplit] at hwait hset
        refine ⟨hwait, ?_⟩
        rw [hset, hbody]
        funext c
        rw [applyRecord, if_neg (cutRecord_addr_ne (hno c) hw)]
    · refine iff_of_true ?_ (Or.inl ha)
      have hidle := run_inRecord_reject hs n ha rs r k
      apply recovers_of_waiting
      intro idle hlen
      have hne : idle ≠ [] := by
        rintro rfl
        rw [List.length_nil] at hlen
        omega
      exact ⟨waiting_run_idle hidle hne, by rw [(run_idle hidle idle).2.1]⟩

/-- The simulated frame, cut after four bytes of its first record, for the address `a`. -/
def simCut (a : BitVec 16) : Cut := .inRecord 6 simHeader [] (a, 0x3F000000#32) ⟨3, by decide⟩

/-- A cut record for an address of no channel, followed by eight idle clocks. -/
theorem simCut_recovers :
    Waiting restRx ∧ Clean simParams (simCut 0x5A5B#16) 8 ∧
      Recovers simParams restRx (simCut 0x5A5B#16) 8 := by
  have hclean : Clean simParams (simCut 0x5A5B#16) 8 := by
    refine Or.inr ⟨by decide, ?_⟩
    intro c
    cases c <;> decide
  exact ⟨by decide, hclean, (recovers_iff_clean (by decide) _ (by decide)).mpr hclean⟩

/-- A cut record for channel 1 is completed by two idle bytes and changes its setpoint. -/
theorem simCut_not_recovers : ¬ Recovers simParams restRx (simCut 0x0A0B#16) 2 := by
  intro h
  have h1 := congrFun (h [0x00, 0x01] rfl).1 .ps1
  revert h1
  decide +kernel

end Zpsc.UdpRx
