import Zpsc.Bits.Bytes
import Zpsc.Clocked.Run
import Zpsc.PscPkg

/-!
# The FOFB packet receiver (`fofb_udp_rx.vhd`)

`udp_rx` parses the byte stream of the PCS/PMA core: preamble, 54 bytes of Ethernet, IP, UDP and
FOFB header, then records of a 16-bit address and a 32-bit setpoint until `rx_dv` falls. `step` is
one rising edge of `fofb_clk`. Only the states `RX_ADDRHI` and `RX_SETPT_BYTE0` look at `rx_dv`.
-/

namespace Zpsc.UdpRx

open Bits

/-- `state_type`. The last three literals are declared in the source and never assigned. -/
inductive State where
  | IDLE | RX_PREAMBLE | RX_HEADER | RX_ADDRHI | RX_ADDRLO
  | RX_SETPT_BYTE3 | RX_SETPT_BYTE2 | RX_SETPT_BYTE1 | RX_SETPT_BYTE0
  | RX_DATA | CHECK_ADDR | RX_FINISHED
  deriving DecidableEq, Repr

/-- The registers of `udp_rx`, output registers included. -/
structure Rx where
  state : State
  /-- `rx_dv` one clock ago. -/
  rx_dv_prev : Bool
  /-- The number of header bytes so far. -/
  framebytenum : ℕ
  /-- Set to 0 only. -/
  databytenum : ℕ
  /-- The header so far. -/
  udp_pkt_buf_rx : UdpPkt
  /-- The address of the record. -/
  fast_addr : BitVec 16
  /-- The setpoint of the record. -/
  setpt : BitVec 32
  /-- The header was accepted. -/
  fofb_packet : Bool
  rx_done : Bool
  fofb_stat : FofbStat
  deriving DecidableEq

structure In where
  reset : Bool
  fofb_params : FofbParams
  rx_data_in : Byte
  rx_dv : Bool

/-- The `case framebytenum` of `RX_HEADER`: where header byte `n` is stored. -/
def storeHeader (n : ℕ) (b : Byte) (u : UdpPkt) : UdpPkt :=
  match n with
  | 0 => { u with mac_dest_addr := setByte u.mac_dest_addr 5 b }
  | 1 => { u with mac_dest_addr := setByte u.mac_dest_addr 4 b }
  | 2 => { u with mac_dest_addr := setByte u.mac_dest_addr 3 b }
  | 3 => { u with mac_dest_addr := setByte u.mac_dest_addr 2 b }
  | 4 => { u with mac_dest_addr := setByte u.mac_dest_addr 1 b }
  | 5 => { u with mac_dest_addr := setByte u.mac_dest_addr 0 b }
  | 6 => { u with mac_src_addr := setByte u.mac_src_addr 5 b }
  | 7 => { u with mac_src_addr := setByte u.mac_src_addr 4 b }
  | 8 => { u with mac_src_addr := setByte u.mac_src_addr 3 b }
  | 9 => { u with mac_src_addr := setByte u.mac_src_addr 2 b }
  | 10 => { u with mac_src_addr := setByte u.mac_src_addr 1 b }
  | 11 => { u with mac_src_addr := setByte u.mac_src_addr 0 b }
  | 12 => { u with mac_len_type := setByte u.mac_len_type 1 b }
  | 13 => { u with mac_len_type := setByte u.mac_len_type 0 b }
  | 14 => { u with ip_ver := b.extractLsb' 4 4, ip_ihl := b.extractLsb' 0 4 }
  | 15 => { u with ip_tos := b }
  | 16 => { u with total_len := setByte u.total_len 1 b }
  | 17 => { u with total_len := setByte u.total_len 0 b }
  | 18 => { u with ip_ident := setByte u.ip_ident 1 b }
  | 19 => { u with ip_ident := setByte u.ip_ident 0 b }
  | 20 => { u with
      ip_flags := b.extractLsb' 5 3
      ip_fragoffset := b.extractLsb' 0 5 ++ u.ip_fragoffset.extractLsb' 0 8 }
  | 21 => { u with ip_fragoffset := setByte u.ip_fragoffset 0 b }
  | 22 => { u with ip_ttl := b }
  | 23 => { u with ip_protocol := b }
  | 24 => { u with header_checksum := setByte u.header_checksum 1 b }
  | 25 => { u with header_checksum := setByte u.header_checksum 0 b }
  | 26 => { u with ip_src_addr := setByte u.ip_src_addr 3 b }
  | 27 => { u with ip_src_addr := setByte u.ip_src_addr 2 b }
  | 28 => { u with ip_src_addr := setByte u.ip_src_addr 1 b }
  | 29 => { u with ip_src_addr := setByte u.ip_src_addr 0 b }
  | 30 => { u with ip_dest_addr := setByte u.ip_dest_addr 3 b }
  | 31 => { u with ip_dest_addr := setByte u.ip_dest_addr 2 b }
  | 32 => { u with ip_dest_addr := setByte u.ip_dest_addr 1 b }
  | 33 => { u with ip_dest_addr := setByte u.ip_dest_addr 0 b }
  | 34 => { u with udp_src_port := setByte u.udp_src_port 1 b }
  | 35 => { u with udp_src_port := setByte u.udp_src_port 0 b }
  | 36 => { u with udp_dest_port := setByte u.udp_dest_port 1 b }
  | 37 => { u with udp_dest_port := setByte u.udp_dest_port 0 b }
  | 38 => { u with udp_len := setByte u.udp_len 1 b }
  | 39 => { u with udp_len := setByte u.udp_len 0 b }
  | 40 => { u with udp_checksum := setByte u.udp_checksum 1 b }
  | 41 => { u with udp_checksum := setByte u.udp_checksum 0 b }
  | 42 => { u with fast_ps_id := setByte u.fast_ps_id 1 b }
  | 43 => { u with fast_ps_id := setByte u.fast_ps_id 0 b }
  | 44 => { u with readback_cmd := setByte u.readback_cmd 1 b }
  | 45 => { u with readback_cmd := setByte u.readback_cmd 0 b }
  | 46 => { u with nonce := setByte u.nonce 7 b }
  | 47 => { u with nonce := setByte u.nonce 6 b }
  | 48 => { u with nonce := setByte u.nonce 5 b }
  | 49 => { u with nonce := setByte u.nonce 4 b }
  | 50 => { u with nonce := setByte u.nonce 3 b }
  | 51 => { u with nonce := setByte u.nonce 2 b }
  | 52 => { u with nonce := setByte u.nonce 1 b }
  | 53 => { u with nonce := setByte u.nonce 0 b }
  | _ => u

/-- The reset branch. `udp_pkt_buf_rx`, `fast_addr` and `setpt` are not reset. -/
def resetRx (s : Rx) : Rx :=
  { s with
    state := .IDLE
    framebytenum := 0
    databytenum := 0
    rx_done := false
    rx_dv_prev := false
    fofb_stat := ⟨0, 0, 0, fun _ => 0⟩
    fofb_packet := false }

/-- The branch `RX_HEADER`. The address check of byte 53 reads the fields stored by the bytes
before it. -/
def stepHeader (s : Rx) (i : In) : Rx :=
  let u := s.udp_pkt_buf_rx
  let s' := { s with
    framebytenum := s.framebytenum + 1
    udp_pkt_buf_rx := storeHeader s.framebytenum i.rx_data_in u }
  if s.framebytenum = 53 then
    if u.ip_dest_addr = i.fofb_params.ipaddr ∧ u.fast_ps_id = 0x7631#16 then
      { s' with
        state := .RX_ADDRHI
        fofb_stat := { s.fofb_stat with
          nonce := u.nonce.extractLsb' 8 24 ++ i.rx_data_in
          command := 0#16 ++ u.readback_cmd
          packets_rcvd := s.fofb_stat.packets_rcvd + 1 }
        fofb_packet := true }
    else { s' with state := .IDLE }
  else s'

/-- The setpoint registers after a record for address `a` with setpoint `v`: the four comparisons
of `RX_SETPT_BYTE0`. -/
def applyRecord (p : FofbParams) (f : Chan → BitVec 32) (a : BitVec 16) (v : BitVec 32) :
    Chan → BitVec 32 :=
  fun c => if a = p.addr c then v else f c

/-- One rising edge of `fofb_clk`. -/
def step (s : Rx) (i : In) : Rx :=
  if i.reset then resetRx s
  else match s.state with
  | .IDLE =>
    let s' := { s with fofb_packet := false, rx_done := false, rx_dv_prev := i.rx_dv }
    if i.rx_dv && !s.rx_dv_prev then
      { s' with state := .RX_PREAMBLE, framebytenum := 0, databytenum := 0 }
    else s'
  | .RX_PREAMBLE => if i.rx_data_in = 0xD5#8 then { s with state := .RX_HEADER } else s
  | .RX_HEADER => stepHeader s i
  | .RX_ADDRHI =>
    let s' := { s with fofb_packet := false }
    if i.rx_dv then
      { s' with fast_addr := setByte s.fast_addr 1 i.rx_data_in, state := .RX_ADDRLO }
    else { s' with state := .IDLE, rx_done := true }
  | .RX_ADDRLO =>
    { s with fast_addr := setByte s.fast_addr 0 i.rx_data_in, state := .RX_SETPT_BYTE3 }
  | .RX_SETPT_BYTE3 =>
    { s with setpt := setByte s.setpt 3 i.rx_data_in, state := .RX_SETPT_BYTE2 }
  | .RX_SETPT_BYTE2 =>
    { s with setpt := setByte s.setpt 2 i.rx_data_in, state := .RX_SETPT_BYTE1 }
  | .RX_SETPT_BYTE1 =>
    { s with setpt := setByte s.setpt 1 i.rx_data_in, state := .RX_SETPT_BYTE0 }
  | .RX_SETPT_BYTE0 =>
    let s' := { s with
      setpt := setByte s.setpt 0 i.rx_data_in
      fofb_stat := { s.fofb_stat with
        setpt_flt := applyRecord i.fofb_params s.fofb_stat.setpt_flt s.fast_addr
          (s.setpt.extractLsb' 8 24 ++ i.rx_data_in) } }
    -- the record is applied whatever `rx_dv` is
    if i.rx_dv then { s' with state := .RX_ADDRHI }
    else { s' with state := .IDLE, rx_done := true }
  | .RX_DATA | .CHECK_ADDR | .RX_FINISHED => { s with state := .IDLE }

/-! ## Frames on the GMII byte stream -/

/-- The 54 header bytes of a frame. -/
abbrev Header := Fin 54 → Byte

def Header.destIp (h : Header) : BitVec 32 := be32 (h 30) (h 31) (h 32) (h 33)

def Header.fastPsId (h : Header) : BitVec 16 := be16 (h 42) (h 43)

/-- The low half of the nonce of a header, as `fofb_stat.nonce` shows it. -/
def Header.nonceLo (h : Header) : BitVec 32 := be32 (h 50) (h 51) (h 52) (h 53)

def Header.readbackCmd (h : Header) : BitVec 16 := be16 (h 44) (h 45)

/-- A header addressed to this unit. -/
def Header.Accepted (p : FofbParams) (h : Header) : Prop :=
  h.destIp = p.ipaddr ∧ h.fastPsId = 0x7631#16

instance (p : FofbParams) (h : Header) : Decidable (h.Accepted p) :=
  inferInstanceAs (Decidable (_ ∧ _))

/-- An address and setpoint record. -/
abbrev Record := BitVec 16 × BitVec 32

/-- Byte `i` of a word, byte 0 the least significant. -/
def byteOf {w : ℕ} (v : BitVec w) (i : ℕ) : Byte := v.extractLsb' (8 * i) 8

/-- The six bytes of a record, big endian. -/
def Record.bytes (r : Record) : List Byte :=
  [byteOf r.1 1, byteOf r.1 0, byteOf r.2 3, byteOf r.2 2, byteOf r.2 1, byteOf r.2 0]

/-- The inputs of one clock while a frame is received (`dv`) or between frames. -/
def byteIn (p : FofbParams) (dv : Bool) (b : Byte) : In :=
  { reset := false, fofb_params := p, rx_data_in := b, rx_dv := dv }

/-- The inputs of consecutive clocks with the same `rx_dv`. -/
def bytesIn (p : FofbParams) (dv : Bool) (bs : List Byte) : List In := bs.map (byteIn p dv)

/-- Preamble and start-of-frame delimiter, with `n + 1` preamble bytes. -/
def preamble (n : ℕ) : List Byte := List.replicate (n + 1) 0x55#8 ++ [0xD5#8]

/-- A frame addressed to this unit. -/
structure Frame (p : FofbParams) where
  /-- The number of preamble bytes, less one. -/
  pre : ℕ
  hdr : Header
  accepted : hdr.Accepted p
  recs : List Record
  /-- The frame check sequence. -/
  fcs : Fin 4 → Byte

def recordBytes (rs : List Record) : List Byte := rs.flatMap Record.bytes

def Frame.bytes {p : FofbParams} (f : Frame p) : List Byte :=
  preamble f.pre ++ List.ofFn f.hdr ++ recordBytes f.recs ++ List.ofFn f.fcs

/-- The setpoint of the last record for address `a`, or `old` when there is none. -/
def lastSetpt (a : BitVec 16) (old : BitVec 32) (rs : List Record) : BitVec 32 :=
  ((rs.filter fun r => r.1 = a).getLast?.map Prod.snd).getD old

/-- What `fofb_stat` should be after a frame with header `h` and records `rs`. It does not mention
the frame check bytes or anything after them. -/
def expectedStat (p : FofbParams) (f : FofbStat) (h : Header) (rs : List Record) : FofbStat :=
  { packets_rcvd := f.packets_rcvd + 1
    command := 0#16 ++ h.readbackCmd
    nonce := h.nonceLo
    setpt_flt := fun c => lastSetpt (p.addr c) (f.setpt_flt c) rs }

/-- The receiver waits for a frame and has seen `rx_dv` low. -/
def Waiting (s : Rx) : Prop := s.state = .IDLE ∧ s.rx_dv_prev = false

instance (s : Rx) : Decidable (Waiting s) := inferInstanceAs (Decidable (_ ∧ _))

/-- The inputs of a frame followed by `rx_dv = 0` with the bytes `idle` on `rx_data_in`. -/
def Frame.inputs {p : FofbParams} (f : Frame p) (idle : List Byte) : List In :=
  bytesIn p true f.bytes ++ bytesIn p false idle

/-- The frame `f`, received from `s` and followed by `idle`, is parsed: the receiver is back in
`IDLE`, `fofb_stat` is as expected and `rx_done` pulsed once. -/
def Parsed (p : FofbParams) (s : Rx) (f : Frame p) (idle : List Byte) : Prop :=
  (Clocked.run step s (f.inputs idle)).state = .IDLE ∧
  (Clocked.run step s (f.inputs idle)).fofb_stat = expectedStat p s.fofb_stat f.hdr f.recs ∧
  Clocked.pulses Rx.rx_done step s (f.inputs idle) = 1

instance (p : FofbParams) (s : Rx) (f : Frame p) (idle : List Byte) :
    Decidable (Parsed p s f idle) := inferInstanceAs (Decidable (_ ∧ _ ∧ _))

end Zpsc.UdpRx
