import Mathlib.Data.Fin.VecNotation
import Zpsc.Fofb.UdpRx

/-!
# Parsing FOFB frames

What `udp_rx` makes of each part of a frame, as one equation per part: the preamble, the header
bytes before the last, the last header byte, six record bytes, idle clocks. From these,
`run_frame` gives the result of a whole frame: the four frame check bytes and the first two idle
bytes are taken for one more record.
-/

namespace Zpsc.UdpRx

open Bits Clocked

variable {p : FofbParams}

@[simp] theorem bytesIn_nil (dv : Bool) : bytesIn p dv [] = [] := rfl

@[simp] theorem bytesIn_cons (dv : Bool) (b : Byte) (bs : List Byte) :
    bytesIn p dv (b :: bs) = byteIn p dv b :: bytesIn p dv bs := rfl

theorem bytesIn_append (dv : Bool) (bs cs : List Byte) :
    bytesIn p dv (bs ++ cs) = bytesIn p dv bs ++ bytesIn p dv cs := by
  simp [bytesIn]

/-! ## Preamble -/

theorem step_start {s : Rx} (h : Waiting s) (b : Byte) :
    step s (byteIn p true b) =
      { s with
        state := .RX_PREAMBLE, framebytenum := 0, databytenum := 0, rx_dv_prev := true
        fofb_packet := false, rx_done := false } := by
  simp [step, byteIn, h.1, h.2]

theorem step_preamble {s : Rx} (h : s.state = .RX_PREAMBLE) (dv : Bool) (b : Byte) :
    step s (byteIn p dv b) = if b = 0xD5#8 then { s with state := .RX_HEADER } else s := by
  by_cases hb : b = 0xD5#8 <;> simp [step, byteIn, h, hb]

theorem run_preamble_wait {s : Rx} (h : s.state = .RX_PREAMBLE) (dv : Bool) (bs : List Byte)
    (hb : 0xD5#8 ∉ bs) : run step s (bytesIn p dv bs) = s := by
  induction bs with
  | nil => rfl
  | cons b bs ih =>
    have hne : ¬ b = 0xD5#8 := fun e => hb (e ▸ List.mem_cons_self ..)
    rw [bytesIn_cons, run_cons, step_preamble h, if_neg hne]
    exact ih fun hm => hb (List.mem_cons_of_mem b hm)

theorem delimiter_not_mem (n : ℕ) : 0xD5#8 ∉ List.replicate n 0x55#8 := by
  intro h
  exact absurd (List.eq_of_mem_replicate h) (by decide)

theorem run_preamble {s : Rx} (h : Waiting s) (n : ℕ) :
    run step s (bytesIn p true (preamble n)) =
      { s with
        state := .RX_HEADER, framebytenum := 0, databytenum := 0, rx_dv_prev := true
        fofb_packet := false, rx_done := false } := by
  rw [preamble, List.replicate_succ, List.cons_append, bytesIn_cons, run_cons, step_start h,
    bytesIn_append, run_append, run_preamble_wait rfl true _ (delimiter_not_mem n), bytesIn_cons,
    run_cons, step_preamble rfl]
  rfl

/-! ## Header -/

/-- The packet buffer after the header bytes `0 .. n - 1` of the byte sequence `h`. -/
def storeUpTo (h : ℕ → Byte) (u : UdpPkt) : ℕ → UdpPkt
  | 0 => u
  | n + 1 => storeHeader n (h n) (storeUpTo h u n)

theorem storeHeader_ip_dest_addr {n : ℕ} (hn : n < 30 ∨ 33 < n) (b : Byte) (u : UdpPkt) :
    (storeHeader n b u).ip_dest_addr = u.ip_dest_addr := by
  unfold storeHeader
  split <;> first | rfl | omega

theorem storeHeader_fast_ps_id {n : ℕ} (hn : n < 42 ∨ 43 < n) (b : Byte) (u : UdpPkt) :
    (storeHeader n b u).fast_ps_id = u.fast_ps_id := by
  unfold storeHeader
  split <;> first | rfl | omega

theorem storeHeader_readback_cmd {n : ℕ} (hn : n < 44 ∨ 45 < n) (b : Byte) (u : UdpPkt) :
    (storeHeader n b u).readback_cmd = u.readback_cmd := by
  unfold storeHeader
  split <;> first | rfl | omega

/-- A field that no header byte from `k` on stores keeps the value it has after byte `k - 1`. -/
theorem storeUpTo_keep {α : Type} (get : UdpPkt → α) (h : ℕ → Byte) (u : UdpPkt) {k n : ℕ}
    (hkn : k ≤ n) (hkeep : ∀ m b u, k ≤ m → get (storeHeader m b u) = get u) :
    get (storeUpTo h u n) = get (storeUpTo h u k) := by
  induction n, hkn using Nat.le_induction with
  | base => rfl
  | succ n hn ih => rw [storeUpTo, hkeep n _ _ hn, ih]

theorem storeUpTo_ip_dest_addr (h : ℕ → Byte) (u : UdpPkt) :
    (storeUpTo h u 53).ip_dest_addr = be32 (h 30) (h 31) (h 32) (h 33) := by
  rw [storeUpTo_keep UdpPkt.ip_dest_addr h u (show 34 ≤ 53 by omega)
    fun m b u hm => storeHeader_ip_dest_addr (by omega) b u]
  exact setByte_be32 _ _ _ _ _

theorem storeUpTo_fast_ps_id (h : ℕ → Byte) (u : UdpPkt) :
    (storeUpTo h u 53).fast_ps_id = be16 (h 42) (h 43) := by
  rw [storeUpTo_keep UdpPkt.fast_ps_id h u (show 44 ≤ 53 by omega)
    fun m b u hm => storeHeader_fast_ps_id (by omega) b u]
  exact setByte_be16 _ _ _

theorem storeUpTo_readback_cmd (h : ℕ → Byte) (u : UdpPkt) :
    (storeUpTo h u 53).readback_cmd = be16 (h 44) (h 45) := by
  rw [storeUpTo_keep UdpPkt.readback_cmd h u (show 46 ≤ 53 by omega)
    fun m b u hm => storeHeader_readback_cmd (by omega) b u]
  exact setByte_be16 _ _ _

/-- The nonce shown in `fofb_stat`: its upper three bytes are header bytes 50 to 52. -/
theorem storeUpTo_nonce (h : ℕ → Byte) (u : UdpPkt) (b : Byte) :
    ((storeUpTo h u 53).nonce.extractLsb' 8 24 ++ b : BitVec 32) =
      be32 (h 50) (h 51) (h 52) b := by
  have hn : (storeUpTo h u 53).nonce =
      setByte (setByte (setByte (storeUpTo h u 50).nonce 3 (h 50)) 2 (h 51)) 1 (h 52) := rfl
  apply BitVec.eq_of_getLsbD_eq
  intro j hj
  rw [BitVec.getLsbD_append, BitVec.getLsbD_extractLsb', hn, getLsbD_be32]
  by_cases h1 : j < 8
  · simp [h1]
  rw [getLsbD_setByte _ _ _ _ (by omega), getLsbD_setByte _ _ _ _ (by omega),
    getLsbD_setByte _ _ _ _ (by omega), show 8 + (j - 8) = j by omega]
  by_cases h2 : j < 16
  · simp [h1, h2, show 8 ≤ j by omega, show j - 8 < 24 by omega]
  by_cases h3 : j < 24
  · simp [h1, h2, h3, show 16 ≤ j by omega, show j - 8 < 24 by omega]
  · simp [h1, h2, h3, show 24 ≤ j by omega, show j < 32 by omega, show j - 8 < 24 by omega]

theorem step_header {s : Rx} (hs : s.state = .RX_HEADER) (hk : s.framebytenum < 53) (dv : Bool)
    (b : Byte) :
    step s (byteIn p dv b) =
      { s with
        framebytenum := s.framebytenum + 1
        udp_pkt_buf_rx := storeHeader s.framebytenum b s.udp_pkt_buf_rx } := by
  simp [step, byteIn, hs, stepHeader, show s.framebytenum ≠ 53 by omega]

/-- Header bytes before the last, whatever `rx_dv` is: they are stored and counted. -/
theorem run_header {s : Rx} {k : ℕ} {h : ℕ → Byte} {u : UdpPkt} (hs : s.state = .RX_HEADER)
    (hk : s.framebytenum = k) (hu : s.udp_pkt_buf_rx = storeUpTo h u k) (dv : Bool)
    (bs : List Byte) (hlen : k + bs.length ≤ 53)
    (hb : ∀ i, (hi : i < bs.length) → bs[i] = h (k + i)) :
    run step s (bytesIn p dv bs) =
      { s with
        framebytenum := k + bs.length, udp_pkt_buf_rx := storeUpTo h u (k + bs.length) } := by
  induction bs generalizing s k with
  | nil =>
    subst hk
    simp only [bytesIn_nil, run_nil, List.length_nil, Nat.add_zero, ← hu]
  | cons b bs ih =>
    simp only [List.length_cons] at hlen
    have hb0 : b = h k := hb 0 (by simp)
    have hkl : s.framebytenum < 53 := by omega
    have hb' : ∀ i, (hi : i < bs.length) → bs[i] = h (k + 1 + i) := by
      intro i hi
      rw [show k + 1 + i = k + (i + 1) by omega]
      exact hb (i + 1) (by simpa using hi)
    have hstep := step_header (p := p) hs hkl dv b
    rw [bytesIn_cons, run_cons, hstep, ih (k := k + 1) ?_ ?_ ?_ (by omega) hb']
    · simp only [List.length_cons, show k + 1 + bs.length = k + (bs.length + 1) by omega]
    · exact hs
    · simp only [hk]
    · simp only [hk, hu, hb0, storeUpTo]

/-- `fofb_stat` after the last byte of an accepted header. -/
def headerStat (f : FofbStat) (h : ℕ → Byte) : FofbStat :=
  { f with
    nonce := be32 (h 50) (h 51) (h 52) (h 53)
    command := 0#16 ++ be16 (h 44) (h 45)
    packets_rcvd := f.packets_rcvd + 1 }

/-- The header bytes `h` are those of a frame for this unit. -/
def AcceptedBytes (p : FofbParams) (h : ℕ → Byte) : Prop :=
  be32 (h 30) (h 31) (h 32) (h 33) = p.ipaddr ∧ be16 (h 42) (h 43) = 0x7631#16

theorem step_header_last {s : Rx} {h : ℕ → Byte} {u : UdpPkt} (hs : s.state = .RX_HEADER)
    (hk : s.framebytenum = 53) (hu : s.udp_pkt_buf_rx = storeUpTo h u 53) (dv : Bool)
    (ha : AcceptedBytes p h) :
    step s (byteIn p dv (h 53)) =
      { s with
        state := .RX_ADDRHI, framebytenum := 54, udp_pkt_buf_rx := storeUpTo h u 54
        fofb_stat := headerStat s.fofb_stat h, fofb_packet := true } := by
  have h1 := storeUpTo_ip_dest_addr h u
  have h2 := storeUpTo_fast_ps_id h u
  have h3 := storeUpTo_nonce h u (h 53)
  have h4 := storeUpTo_readback_cmd h u
  have h5 : storeUpTo h u 54 = storeHeader 53 (h 53) (storeUpTo h u 53) := rfl
  rw [ha.1] at h1
  rw [ha.2] at h2
  simp only [step, byteIn, hs, stepHeader, hk, hu, h1, h2, h3, h4, h5, headerStat, and_self,
    if_true, Bool.false_eq_true, if_false]

theorem step_header_reject {s : Rx} {h : ℕ → Byte} {u : UdpPkt} (hs : s.state = .RX_HEADER)
    (hk : s.framebytenum = 53) (hu : s.udp_pkt_buf_rx = storeUpTo h u 53) (dv : Bool)
    (ha : ¬ AcceptedBytes p h) :
    step s (byteIn p dv (h 53)) =
      { s with
        state := .IDLE, framebytenum := 54, udp_pkt_buf_rx := storeUpTo h u 54 } := by
  have hc : ¬ ((storeUpTo h u 53).ip_dest_addr = p.ipaddr ∧
      (storeUpTo h u 53).fast_ps_id = 0x7631#16) := by
    rw [storeUpTo_ip_dest_addr, storeUpTo_fast_ps_id]
    exact ha
  have h5 : storeUpTo h u 54 = storeHeader 53 (h 53) (storeUpTo h u 53) := rfl
  simp only [step, byteIn, hs, stepHeader, hk, hu, h5, hc, if_true, Bool.false_eq_true, if_false]

/-- The byte sequence of a header, extended beyond its 54 bytes. -/
def Header.seq (h : Header) (n : ℕ) : Byte := if hn : n < 54 then h ⟨n, hn⟩ else 0

theorem acceptedBytes_seq {h : Header} : AcceptedBytes p h.seq ↔ h.Accepted p := Iff.rfl

theorem ofFn_header (h : Header) : List.ofFn h = (List.range 53).map h.seq ++ [h.seq 53] := by
  have hr : List.range 54 = List.range 53 ++ [53] := List.range_succ
  rw [← List.map_singleton, ← List.map_append, ← hr]
  apply List.ext_getElem
  · rw [List.length_ofFn, List.length_map, List.length_range]
  · intro i h1 h2
    rw [List.getElem_ofFn, List.getElem_map, List.getElem_range, Header.seq, dif_pos]

theorem run_header_init {s : Rx} {h : ℕ → Byte} (hs : s.state = .RX_HEADER)
    (hk : s.framebytenum = 0) (dv : Bool) :
    run step s (bytesIn p dv ((List.range 53).map h)) =
      { s with framebytenum := 53, udp_pkt_buf_rx := storeUpTo h s.udp_pkt_buf_rx 53 } := by
  have hlen : ((List.range 53).map h).length = 53 := by rw [List.length_map, List.length_range]
  have hb : ∀ i, (hi : i < ((List.range 53).map h).length) →
      ((List.range 53).map h)[i] = h (0 + i) := by
    intro i hi
    rw [List.getElem_map, List.getElem_range, Nat.zero_add]
  rw [run_header (u := s.udp_pkt_buf_rx) hs hk rfl dv _ (by omega) hb, hlen]

/-- The state after a whole header for this unit, from a receiver that has just seen the
delimiter. -/
theorem run_header_accepted {s : Rx} {h : Header} (hs : s.state = .RX_HEADER)
    (hk : s.framebytenum = 0) (ha : h.Accepted p) :
    run step s (bytesIn p true (List.ofFn h)) =
      { s with
        state := .RX_ADDRHI, framebytenum := 54
        udp_pkt_buf_rx := storeUpTo h.seq s.udp_pkt_buf_rx 54
        fofb_stat := headerStat s.fofb_stat h.seq, fofb_packet := true } := by
  have hlast := step_header_last (p := p)
    (s := { s with framebytenum := 53, udp_pkt_buf_rx := storeUpTo h.seq s.udp_pkt_buf_rx 53 })
    (u := s.udp_pkt_buf_rx) hs rfl rfl true (acceptedBytes_seq.mpr ha)
  rw [ofFn_header, bytesIn_append, run_append, run_header_init hs hk, bytesIn_cons, run_cons,
    hlast, bytesIn_nil, run_nil]

/-! ## Records -/

/-- Six clocks from `RX_ADDRHI`, the first with `rx_dv` high: one record is applied, and the
receiver goes on to the next one or back to `IDLE` according to `rx_dv` in the sixth clock. -/
theorem run_record {s : Rx} (hs : s.state = .RX_ADDRHI) (d1 d2 d3 d4 d5 : Bool)
    (b0 b1 b2 b3 b4 b5 : Byte) :
    run step s [byteIn p true b0, byteIn p d1 b1, byteIn p d2 b2, byteIn p d3 b3, byteIn p d4 b4,
        byteIn p d5 b5] =
      { s with
        state := if d5 then .RX_ADDRHI else .IDLE
        fast_addr := be16 b0 b1
        setpt := be32 b2 b3 b4 b5
        fofb_packet := false
        rx_done := if d5 then s.rx_done else true
        fofb_stat := { s.fofb_stat with
          setpt_flt := applyRecord p s.fofb_stat.setpt_flt (be16 b0 b1) (be32 b2 b3 b4 b5) } } := by
  have h1 := setByte_be16 s.fast_addr b0 b1
  have h2 := setByte_be32 s.setpt b2 b3 b4 b5
  have h3 := extract_append_eq_setByte (setByte (setByte (setByte s.setpt 3 b2) 2 b3) 1 b4) b5
  cases d5 <;> simp [step, byteIn, hs, h1, h2, h3]

theorem byteOf_be16 (a : BitVec 16) : be16 (byteOf a 1) (byteOf a 0) = a := by
  apply BitVec.eq_of_getLsbD_eq
  intro j hj
  rw [getLsbD_be16]
  by_cases h : j < 8
  · simp [h, byteOf]
  · simp [h, byteOf, show j - 8 < 8 by omega, show 8 + (j - 8) = j by omega]

theorem byteOf_be32 (v : BitVec 32) :
    be32 (byteOf v 3) (byteOf v 2) (byteOf v 1) (byteOf v 0) = v := by
  apply BitVec.eq_of_getLsbD_eq
  intro j hj
  rw [getLsbD_be32]
  by_cases h1 : j < 8
  · simp [h1, byteOf]
  by_cases h2 : j < 16
  · simp [h1, h2, byteOf, show j - 8 < 8 by omega, show 8 + (j - 8) = j by omega]
  by_cases h3 : j < 24
  · simp [h1, h2, h3, byteOf, show j - 16 < 8 by omega, show 16 + (j - 16) = j by omega]
  · simp [h1, h2, h3, byteOf, show j - 24 < 8 by omega, show 24 + (j - 24) = j by omega]

def applyRecords (p : FofbParams) (f : Chan → BitVec 32) (rs : List Record) : Chan → BitVec 32 :=
  rs.foldl (fun f r => applyRecord p f r.1 r.2) f

/-- Applying the records one by one leaves each channel with the last setpoint for its address. -/
theorem applyRecords_eq_lastSetpt (f : Chan → BitVec 32) (rs : List Record) (c : Chan) :
    applyRecords p f rs c = lastSetpt (p.addr c) (f c) rs := by
  induction rs using List.reverseRecOn with
  | nil => rfl
  | append_singleton rs r ih =>
    have hcons :
        applyRecords p f (rs ++ [r]) c = applyRecord p (applyRecords p f rs) r.1 r.2 c := by
      rw [applyRecords, List.foldl_append]
      rfl
    rw [hcons, applyRecord, lastSetpt, List.filter_append]
    by_cases h : r.1 = p.addr c
    · simp [h]
    · simp [h, ih, lastSetpt]

theorem run_records {s : Rx} (hs : s.state = .RX_ADDRHI) (rs : List Record) :
    ∃ a v d, run step s (bytesIn p true (recordBytes rs)) =
      { s with
        fast_addr := a, setpt := v, fofb_packet := d
        fofb_stat := { s.fofb_stat with
          setpt_flt := applyRecords p s.fofb_stat.setpt_flt rs } } := by
  induction rs generalizing s with
  | nil => exact ⟨s.fast_addr, s.setpt, s.fofb_packet, rfl⟩
  | cons r rs ih =>
    have hr : run step s (bytesIn p true (Record.bytes r)) = _ :=
      run_record hs true true true true true _ _ _ _ _ _
    rw [byteOf_be16, byteOf_be32] at hr
    obtain ⟨a, v, d, h⟩ := ih (s := run step s (bytesIn p true (Record.bytes r))) (by rw [hr]; rfl)
    refine ⟨a, v, d, ?_⟩
    rw [recordBytes, List.flatMap_cons, bytesIn_append, run_append, ← recordBytes, h, hr]
    simp [hs, applyRecords]

/-! ## Idle clocks and `rx_done` -/

theorem step_idle {s : Rx} (hs : s.state = .IDLE) (b : Byte) :
    step s (byteIn p false b) =
      { s with rx_dv_prev := false, fofb_packet := false, rx_done := false } := by
  simp [step, byteIn, hs]

/-- Idle clocks leave a waiting receiver waiting, with the same `fofb_stat`. -/
theorem run_idle {s : Rx} (hs : s.state = .IDLE) (bs : List Byte) :
    (run step s (bytesIn p false bs)).state = .IDLE ∧
    (run step s (bytesIn p false bs)).fofb_stat = s.fofb_stat ∧
    (bs ≠ [] → (run step s (bytesIn p false bs)).rx_dv_prev = false) := by
  induction bs generalizing s with
  | nil => exact ⟨hs, rfl, fun h => absurd rfl h⟩
  | cons b bs ih =>
    have hb := step_idle (p := p) hs b
    obtain ⟨h1, h2, h3⟩ := ih (s := step s (byteIn p false b)) (by rw [hb]; exact hs)
    rw [bytesIn_cons, run_cons]
    refine ⟨h1, by rw [h2, hb], ?_⟩
    intro _
    cases bs with
    | nil => rw [bytesIn_nil, run_nil, hb]
    | cons c cs => exact h3 (List.cons_ne_nil c cs)

theorem pulses_idle {s : Rx} (hs : s.state = .IDLE) (bs : List Byte) :
    pulses Rx.rx_done step s (bytesIn p false bs) = 0 := by
  refine pulses_eq_zero (fun s => s.state = .IDLE) (fun s hs i hi => ?_) hs
  obtain ⟨b, -, rfl⟩ := List.mem_map.mp hi
  rw [step_idle hs b]
  exact ⟨hs, rfl⟩

/-- While `rx_dv` is high `rx_done` does not rise. -/
theorem step_rx_done {s : Rx} (h : s.rx_done = false ∨ s.state = .IDLE) (b : Byte) :
    (step s (byteIn p true b)).rx_done = false := by
  rcases h with h | h
  · unfold step byteIn
    cases hs : s.state <;> simp [h, stepHeader] <;> split_ifs <;> simp [h]
  · unfold step byteIn
    simp only [h]
    split_ifs <;> rfl

theorem pulses_frame {s : Rx} (h : s.rx_done = false ∨ s.state = .IDLE) (bs : List Byte) :
    pulses Rx.rx_done step s (bytesIn p true bs) = 0 := by
  refine pulses_eq_zero (fun s => s.rx_done = false ∨ s.state = .IDLE)
    (fun s hs i hi => ?_) h
  obtain ⟨b, -, rfl⟩ := List.mem_map.mp hi
  exact ⟨Or.inl (step_rx_done hs b), step_rx_done hs b⟩

/-! ## Whole frames -/

def bodyStat (p : FofbParams) (f : FofbStat) (h : Header) (rs : List Record) : FofbStat :=
  { headerStat f h.seq with setpt_flt := applyRecords p f.setpt_flt rs }

theorem bodyStat_eq_expectedStat (f : FofbStat) (h : Header) (rs : List Record) :
    bodyStat p f h rs = expectedStat p f h rs := by
  have h : applyRecords p f.setpt_flt rs =
      fun c => lastSetpt (p.addr c) (f.setpt_flt c) rs := by
    funext c
    exact applyRecords_eq_lastSetpt f.setpt_flt rs c
  rw [bodyStat, h]
  rfl

/-- The receiver after the header and the records of a frame, ready for the next record. -/
theorem run_body {s : Rx} (h : Waiting s) (n : ℕ) {hdr : Header} (ha : hdr.Accepted p)
    (rs : List Record) :
    let s' := run step s (bytesIn p true (preamble n ++ List.ofFn hdr ++ recordBytes rs))
    s'.state = .RX_ADDRHI ∧ s'.rx_done = false ∧ s'.rx_dv_prev = true ∧
      s'.fofb_stat = bodyStat p s.fofb_stat hdr rs := by
  intro s'
  have hpre := run_preamble (p := p) h n
  have hhdr := run_header_accepted (p := p) (s := run step s (bytesIn p true (preamble n)))
    (by rw [hpre]) (by rw [hpre]) ha
  obtain ⟨a, v, d, hrec⟩ := run_records (p := p)
    (s := run step (run step s (bytesIn p true (preamble n))) (bytesIn p true (List.ofFn hdr)))
    (by rw [hhdr]) rs
  have hs' : s' = run step (run step (run step s (bytesIn p true (preamble n)))
      (bytesIn p true (List.ofFn hdr))) (bytesIn p true (recordBytes rs)) := by
    simp only [s', bytesIn_append, run_append]
  rw [hs', hrec, hhdr, hpre]
  exact ⟨rfl, rfl, rfl, rfl⟩

/-- What the receiver does with the four frame check bytes and the first two idle bytes: it takes
them for a record and applies it. -/
theorem run_frame {s : Rx} (h : Waiting s) (f : Frame p) (i0 i1 : Byte) (rest : List Byte) :
    let r := run step s (f.inputs (i0 :: i1 :: rest))
    r.state = .IDLE ∧
    r.fofb_stat =
      { expectedStat p s.fofb_stat f.hdr f.recs with
        setpt_flt := applyRecord p (expectedStat p s.fofb_stat f.hdr f.recs).setpt_flt
          (be16 (f.fcs 0) (f.fcs 1)) (be32 (f.fcs 2) (f.fcs 3) i0 i1) } ∧
    pulses Rx.rx_done step s (f.inputs (i0 :: i1 :: rest)) = 1 ∧
    (rest ≠ [] → r.rx_dv_prev = false) := by
  intro r
  set s1 := run step s
    (bytesIn p true (preamble f.pre ++ List.ofFn f.hdr ++ recordBytes f.recs)) with hs1
  obtain ⟨h1, h2, h3, h4⟩ := run_body h f.pre f.accepted f.recs
  rw [← hs1] at h1 h2 h3 h4
  -- the six clocks of the phantom record
  set six := [byteIn p true (f.fcs 0), byteIn p true (f.fcs 1), byteIn p true (f.fcs 2),
    byteIn p true (f.fcs 3), byteIn p false i0, byteIn p false i1] with hsix
  have hsplit : f.inputs (i0 :: i1 :: rest) =
      bytesIn p true (preamble f.pre ++ List.ofFn f.hdr ++ recordBytes f.recs) ++
        (six ++ bytesIn p false rest) := by
    rw [Frame.inputs, Frame.bytes, bytesIn_append true _ (List.ofFn f.fcs)]
    simp [hsix, List.ofFn_succ]
  have hrec := run_record (p := p) h1 true true true false false (f.fcs 0) (f.fcs 1) (f.fcs 2)
    (f.fcs 3) i0 i1
  rw [← hsix] at hrec
  have hidle := run_idle (p := p) (s := run step s1 six) (by rw [hrec]; rfl) rest
  have hr : r = run step (run step s1 six) (bytesIn p false rest) := by
    simp only [r, hsplit, run_append, hs1]
  have hpulse : pulses Rx.rx_done step s1 six = 1 := by
    simp [hsix, pulses_cons, step, byteIn, h1, h2]
  refine ⟨hr ▸ hidle.1, ?_, ?_, hr ▸ hidle.2.2⟩
  · rw [hr, hidle.2.1, hrec, h4, bodyStat_eq_expectedStat]
  · rw [hsplit, pulses_append, pulses_append, ← hs1, pulses_frame (Or.inr h.1), hpulse,
      pulses_idle (by rw [hrec]; rfl)]

theorem be32_ne_of_not_last (a b c : Byte) (v : BitVec 32) :
    be32 a b c (~~~ byteOf v 0) ≠ v := by
  have hne : ∀ x : Byte, ~~~ x ≠ x := by decide
  intro h
  rw [← byteOf_be32 v] at h
  exact be32_ne_of_last (hne (byteOf v 0)) _ _ _ _ _ _ (by rw [byteOf_be32] at h ⊢; exact h)

/-- A frame is parsed as it should be, whatever follows it, exactly when its first two frame check
bytes are not the address of a channel. -/
theorem frame_parsed_iff_fcs {s : Rx} (h : Waiting s) (f : Frame p) :
    (∀ idle : List Byte, 2 ≤ idle.length → Parsed p s f idle) ↔
      ∀ c, be16 (f.fcs 0) (f.fcs 1) ≠ p.addr c := by
  constructor
  · intro hall c hc
    set v := (expectedStat p s.fofb_stat f.hdr f.recs).setpt_flt c with hv
    obtain ⟨-, hstat, -⟩ := hall [0, ~~~ byteOf v 0] (by simp)
    obtain ⟨-, hrun, -⟩ := run_frame h f 0 (~~~ byteOf v 0) []
    have hc' := congrArg (fun g : FofbStat => g.setpt_flt c) (hstat.symm.trans hrun)
    simp only [applyRecord, hc, if_true, ← hv] at hc'
    exact be32_ne_of_not_last _ _ _ v hc'.symm
  · intro hne idle hlen
    obtain ⟨i0, i1, rest, rfl⟩ : ∃ i0 i1 rest, idle = i0 :: i1 :: rest := by
      match idle, hlen with
      | i0 :: i1 :: rest, _ => exact ⟨i0, i1, rest, rfl⟩
    obtain ⟨h1, h2, h3, -⟩ := run_frame h f i0 i1 rest
    refine ⟨h1, h2.trans ?_, h3⟩
    have hkeep : applyRecord p (expectedStat p s.fofb_stat f.hdr f.recs).setpt_flt
        (be16 (f.fcs 0) (f.fcs 1)) (be32 (f.fcs 2) (f.fcs 3) i0 i1) =
        (expectedStat p s.fofb_stat f.hdr f.recs).setpt_flt := by
      funext c
      rw [applyRecord, if_neg (hne c)]
    rw [hkeep]

/-! The stimulus of `fofb_phy.vhd` in simulation mode. -/

def simParams : FofbParams where
  ipaddr := 0x10001202#32
  addr
    | .ps1 => 0x0A0B#16
    | .ps2 => 0x1A1B#16
    | .ps3 => 0x2A2B#16
    | .ps4 => 0x3A3B#16
  scalefactor := fun _ => 0x3F800000#32

def simHeader : Header := fun i =>
  [0xAA#8, 0xBB#8, 0xCC#8, 0xDD#8, 0xEE#8, 0xFF#8, 0x11#8, 0x22#8, 0x33#8, 0x44#8, 0x55#8, 0x66#8,
    0x08#8, 0x00#8, 0x45#8, 0x00#8, 0x00#8, 0x3C#8, 0x12#8, 0x34#8, 0x40#8, 0x00#8, 0x40#8, 0x11#8,
    0xB8#8, 0x27#8, 0xC0#8, 0xA8#8, 0x00#8, 0x01#8, 0x10#8, 0x00#8, 0x12#8, 0x02#8, 0x00#8, 0x2A#8,
    0x00#8, 0x2B#8, 0x00#8, 0x28#8, 0x1A#8, 0x2B#8, 0x76#8, 0x31#8, 0x00#8, 0x01#8, 0x01#8, 0x02#8,
    0x03#8, 0x04#8, 0x05#8, 0x06#8, 0x07#8, 0x08#8].getD i 0#8

/-- The simulated frame with the frame check bytes `fcs`. -/
def simFrame (fcs : Fin 4 → Byte) : Frame simParams where
  pre := 6
  hdr := simHeader
  accepted := by decide
  recs := [(0x0A0B#16, 0x3F000000#32), (0x0A0B#16, 0x40A00000#32), (0x2A2B#16, 0x31323334#32),
    (0x3A3B#16, 0x41424344#32)]
  fcs := fcs

/-- The receiver after a reset, with every other register zero. -/
def restRx : Rx where
  state := .IDLE
  rx_dv_prev := false
  framebytenum := 0
  databytenum := 0
  udp_pkt_buf_rx := ⟨0, 0, 0, 0, 0, 0, 0, 0, 0, 0, 0, 0, 0, 0, 0, 0, 0, 0, 0, 0, 0, 0⟩
  fast_addr := 0
  setpt := 0
  fofb_packet := false
  rx_done := false
  fofb_stat := ⟨0, 0, 0, fun _ => 0⟩

/-- The simulated frame with frame check bytes that are no channel's address is parsed, whatever
follows it. -/
theorem simFrame_parsed :
    Waiting restRx ∧ ∀ idle : List Byte, 2 ≤ idle.length →
      Parsed simParams restRx (simFrame ![0x12, 0x34, 0x56, 0x78]) idle :=
  ⟨by decide, (frame_parsed_iff_fcs (by decide) (simFrame ![0x12, 0x34, 0x56, 0x78])).mpr
    (by decide)⟩

/-- With the address of channel 1 in the frame check bytes, channel 1 ends with a setpoint no
record carries. -/
theorem simFrame_not_parsed :
    ¬ Parsed simParams restRx (simFrame ![0x0A, 0x0B, 0x56, 0x78]) [0x00, 0x00] := by
  decide +kernel

end Zpsc.UdpRx
