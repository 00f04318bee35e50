import Zpsc.Clocked.Run

/-!
# The Manchester receiver (`manchester_rx_32.vhd`)

`manch_in` is synchronised by three registers; an edge is a difference of the last two. The first
edge locks the receiver, the next one within the `HALF` window is the centre of the first bit. From
then on the clocks are counted from centre to centre: an edge in the `HALF` window is a boundary and
is ignored, an edge in the `BIT` window is the next centre and shifts its level into the register.
`Decoder` is the part of the process after the synchroniser and `Rx` the whole of it.

A `Burst` is what a sender puts on the line: words, MSB first, `1` as low to high in the middle of
the bit, every edge with its own jitter.
-/

namespace Zpsc.Manch

/-! ## The receiver -/

/-- The generics as `manchester_decoder` maps them, which are also their defaults. -/
def CLK_FREQ_HZ : ℕ := 100000000

def DATA_RATE_BPS : ℕ := 50000

def TOL_PERCENT : ℕ := 35

def BIT_CLKS : ℕ := CLK_FREQ_HZ / DATA_RATE_BPS

def HALF_CLKS : ℕ := BIT_CLKS / 2

def TOL_CLKS : ℕ := HALF_CLKS * TOL_PERCENT / 100

/-- The signals of the process after the synchroniser. -/
structure Decoder where
  /-- A packet is being received. -/
  locked : Bool
  /-- The centre of the first bit is still to come. -/
  first_center : Bool
  /-- The clocks since the last centre. -/
  ctr : ℕ
  /-- `ctr` at the last centre. -/
  latch_ctr : ℕ
  /-- The bits so far. -/
  pkt_sr : BitVec 32
  bit_cnt : ℕ
  /-- A word is complete. -/
  packet_valid_i : Bool
  /-- `packet_valid`. -/
  packet_valid_d : Bool
  packet_data : BitVec 32
  rx_error : Bool
  /-- A bit has been taken. -/
  latch_bit : Bool

/-- The registers of `manchester_rx_32`. -/
structure Rx extends Decoder where
  /-- This and the next are the synchroniser. -/
  rx_meta : Bool
  rx_sync : Bool
  /-- `rx_sync` one clock ago. -/
  rx_last : Bool

structure In where
  rst : Bool
  manch_in : Bool

/-- `abs(ctr - c) <= TOL_CLKS`. -/
def near (ctr c : ℕ) : Bool := decide (((ctr : Int) - c).natAbs ≤ TOL_CLKS)

/-- `pkt_sr(30 downto 0) & b`. -/
def shiftIn (sr : BitVec 32) (b : Bool) : BitVec 32 := (sr.extractLsb' 0 31).concat b

/-- The assignments made when the lock is lost. -/
def Decoder.unlock (d : Decoder) : Decoder :=
  { d with
    locked := false
    first_center := false
    ctr := 0
    bit_cnt := 0
    pkt_sr := 0
    rx_error := true }

/-- The assignments made at a centre, where the counter was `ctr`. -/
def Decoder.center (d : Decoder) (ctr : ℕ) (decoded_bit : Bool) : Decoder :=
  let d := { d with
    latch_ctr := ctr
    latch_bit := true
    ctr := 0
    pkt_sr := shiftIn d.pkt_sr decoded_bit }
  if d.bit_cnt = 31 then
    { d with bit_cnt := 0, packet_valid_i := true, packet_data := d.pkt_sr }
  else
    { d with bit_cnt := d.bit_cnt + 1 }

/-- One clock after the synchroniser. -/
def decode (s : Decoder) (edge_det decoded_bit : Bool) : Decoder :=
  let d := { s with
    latch_bit := false
    packet_valid_i := false
    packet_valid_d := s.packet_valid_i
    rx_error := false }
  if s.locked = false then
    let d := { d with ctr := 0 }
    if edge_det then
      { d with locked := true, first_center := true, ctr := 0, bit_cnt := 0, pkt_sr := 0 }
    else d
  else
    let d := if s.ctr < BIT_CLKS * 2 then { d with ctr := s.ctr + 1 } else d
    if edge_det then
      if s.first_center then
        if near s.ctr HALF_CLKS then
          { d with first_center := false }.center s.ctr decoded_bit
        else d.unlock
      else
        if near s.ctr HALF_CLKS then d
        else if near s.ctr BIT_CLKS then d.center s.ctr decoded_bit
        else d.unlock
    else if BIT_CLKS + TOL_CLKS < s.ctr then d.unlock
    else d

/-- The reset branch. -/
def Rx.reset : Rx where
  locked := false
  first_center := false
  ctr := 0
  latch_ctr := 0
  pkt_sr := 0
  bit_cnt := 0
  packet_valid_i := false
  packet_valid_d := false
  packet_data := 0
  rx_error := false
  latch_bit := false
  rx_meta := false
  rx_sync := false
  rx_last := false

/-- One rising edge of `clk`. -/
def step (s : Rx) (i : In) : Rx :=
  if i.rst then
    Rx.reset
  else
    { toDecoder := decode s.toDecoder (s.rx_sync ^^ s.rx_last) s.rx_sync
      rx_meta := i.manch_in
      rx_sync := s.rx_meta
      rx_last := s.rx_sync }

/-- The clocks of a line without reset. -/
def onLine (line : List Bool) : List In := line.map fun b => ⟨false, b⟩

/-- The state after the clocks of a line. -/
def run (s : Rx) (line : List Bool) : Rx := Clocked.run step s (onLine line)

/-- The word on `packet_data` when `packet_valid` is high. -/
def Decoder.packet? (d : Decoder) : Option (BitVec 32) :=
  if d.packet_valid_d then some d.packet_data else none

/-- The words given out during the clocks of a line, one for each clock with `packet_valid`. -/
def emitted (s : Rx) (line : List Bool) : List (BitVec 32) :=
  (Clocked.states step s (onLine line)).filterMap fun s => s.toDecoder.packet?

/-! ## The sender -/

/-- Two edges `d` clocks apart fall into the window around `c`. -/
def Timed (d c : ℕ) : Prop := ((d : Int) - 1 - c).natAbs ≤ TOL_CLKS

instance (d c : ℕ) : Decidable (Timed d c) := inferInstanceAs (Decidable (_ ≤ _))

/-- The bits of a word, MSB first. -/
def msbFirst (x : BitVec 32) : List Bool := (List.range 32).map fun i => x.getMsbD i

/-- Words sent as one burst, with the distances of the edges in clocks. Centre `i` is that of the
`i`-th bit, from 0. -/
structure Burst where
  words : List (BitVec 32)
  /-- From the first edge to the first centre. -/
  first : ℕ
  /-- From centre `i` to the boundary edge after it; unused where the next bit differs. -/
  half : ℕ → ℕ
  /-- From centre `i` to centre `i + 1`. -/
  full : ℕ → ℕ
  /-- From the last centre to the edge back to idle, if there is one. -/
  back : Option ℕ
  /-- The clocks after the last centre. -/
  tail : ℕ
  words_ne_nil : words ≠ []
  first_timed : Timed first HALF_CLKS
  half_timed : ∀ i, Timed (half i) HALF_CLKS
  full_timed : ∀ i, Timed (full i) BIT_CLKS
  back_timed : ∀ h ∈ back, Timed h HALF_CLKS
  /-- The last pulse comes out three clocks after the last centre. -/
  three_le_tail : 3 ≤ tail

namespace Burst

variable (B : Burst)

def bits : List Bool := B.words.flatMap msbFirst

/-- The line from the last centre on, of a bit `b`, for `n` clocks. -/
def rest (b : Bool) (n : ℕ) : List Bool :=
  match B.back with
  | none => List.replicate n b
  | some h => List.replicate (min h n) b ++ List.replicate (n - h) (!b)

/-- The line from centre `i` of a bit `b` on, with the bits after it; the last centre is followed by
`n - 1` clocks. -/
def wave (n : ℕ) : ℕ → Bool → List Bool → List Bool
  | _, b, [] => B.rest b n
  | i, b, b' :: bs =>
    (if b' = b then List.replicate (B.half i) b ++ List.replicate (B.full i - B.half i) (!b)
      else List.replicate (B.full i) b) ++ wave n (i + 1) b' bs

/-- The level of the idle line before the burst. -/
def idle : Bool := B.bits.headD false

/-- The line from the first edge on. -/
def line : List Bool :=
  List.replicate B.first (!B.idle) ++ B.wave (B.tail + 1) 0 B.idle B.bits.tail

/-- The level of the line at the end. -/
def after : Bool := B.line.getLastD false

end Burst

/-- Bursts that follow each other on a line that is idle at `v` before the first: each is followed
by a pause, and the next begins at the level the line was left at. -/
def Chain : Bool → List Burst → Prop
  | _, [] => True
  | v, B :: Bs => B.idle = v ∧ BIT_CLKS + TOL_CLKS + 4 ≤ B.tail ∧ Chain B.after Bs

end Zpsc.Manch
