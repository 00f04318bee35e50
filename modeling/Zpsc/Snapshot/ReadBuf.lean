import Zpsc.Control.Local
import Zpsc.Snapshot.Burst

/-!
# Reading a snapshot from the ring (`snapshots.c`)

`ReadDMABuf` copies the records around a trigger from the ring in memory to a message, and scales
the readings of one channel to physical units. The memory is a function from byte addresses to the
words there; the message is the list of the values written to it.
-/

namespace Zpsc.Snapshot

/-! ## The source -/

structure TriggerInfo where
  /-- Where the hardware was in the ring when the trigger came. -/
  addr : BitVec 32
  /-- `addr` of the trigger that was taken last. -/
  addr_last : BitVec 32
  /-- The records of a waveform before the trigger. -/
  pretrigpts : BitVec 32
  /-- Those from the trigger on. -/
  posttrigpts : BitVec 32
  /-- A trigger has been taken, and its waveform is not sent yet. -/
  active : BitVec 32
  /-- The polls since then. -/
  postdlycnt : BitVec 32
  /-- The waveform is to be sent. -/
  sendbuf : BitVec 32
  /-- The message that it is sent in. -/
  msgID : BitVec 32
  channum : BitVec 32
  /-- The number of waveforms sent. -/
  trigcnt : BitVec 32
  deriving DecidableEq

/-- `ScaleFactorType` with the factors of the readbacks. -/
structure ScaleFactors extends Control.ScaleFactorType where
  spare : ℚ
  regulator : ℚ

def CONV16BITSTOVOLTS : ℚ := 1 / Control.CONVVOLTSTO16BITS

def BUFSTART : BitVec 32 := 0x10000000

def BUFLEN : BitVec 32 := 0x01E84800

def BUFSTEPBYTES : BitVec 32 := 0xA0

def BUFSTEPWORDS : BitVec 32 := BUFSTEPBYTES / 4

def WORDSPERSAMPLE : BitVec 32 := 40

/-- The body of `ReadDMABuf` around its calls of `CopyDataChan`, whatever it is that each gives. -/
def copies {α : Type*} (copy : BitVec 32 → BitVec 32 → List α) (trig : TriggerInfo) : List α :=
  let startaddr := trig.addr - trig.pretrigpts * BUFSTEPBYTES
  let stopaddr := trig.addr + trig.posttrigpts * BUFSTEPBYTES
  if startaddr < 0x10000000 then
    let presecnumwords := (trig.addr - BUFSTART) >>> 2
    let prefirstnumwords := trig.pretrigpts * WORDSPERSAMPLE - presecnumwords
    let startaddr := BUFSTART + BUFLEN - prefirstnumwords * 4
    copy startaddr prefirstnumwords ++ copy BUFSTART presecnumwords ++
      copy trig.addr (trig.posttrigpts * BUFSTEPWORDS)
  else if BUFSTART + BUFLEN < stopaddr then
    let postfirstnumwords := (BUFSTART + BUFLEN - trig.addr) >>> 2
    let postsecnumwords := trig.posttrigpts * WORDSPERSAMPLE - postfirstnumwords
    copy startaddr (trig.pretrigpts * BUFSTEPWORDS) ++ copy trig.addr postfirstnumwords ++
      copy BUFSTART postsecnumwords
  else copy startaddr ((trig.pretrigpts + trig.posttrigpts) * BUFSTEPWORDS)

section

variable (mem : BitVec 32 → BitVec 32) (scalefactors : ℕ → ScaleFactors) (CONVDACBITSTOVOLTS : ℚ)

/-- `buf_data[i]`. -/
def bufData (buf_data : BitVec 32) (i : ℕ) : BitVec 32 := mem (buf_data + BitVec.ofNat 32 (4 * i))

/-- The loop body of `CopyDataChan`: the ten values of a record, `off` words of which come before
the channel. -/
def copyRecord (sf : ScaleFactors) (buf_data : BitVec 32) (off i : ℕ) : List ℚ :=
  [(bufData mem buf_data (i + 0)).toNat,
    (bufData mem buf_data (i + 1)).toNat,
    (bufData mem buf_data (i + off)).toInt * CONVDACBITSTOVOLTS * sf.dac_dccts,
    (bufData mem buf_data (i + (off + 1))).toInt * CONVDACBITSTOVOLTS * sf.dac_dccts,
    (bufData mem buf_data (i + (off + 2))).toInt * CONV16BITSTOVOLTS * sf.dac_dccts,
    (bufData mem buf_data (i + (off + 3))).toInt * CONV16BITSTOVOLTS * sf.vout,
    (bufData mem buf_data (i + (off + 4))).toInt * CONV16BITSTOVOLTS * sf.ignd,
    (bufData mem buf_data (i + (off + 5))).toInt * CONV16BITSTOVOLTS * sf.spare,
    (bufData mem buf_data (i + (off + 6))).toInt * CONV16BITSTOVOLTS * sf.regulator,
    (bufData mem buf_data (i + (off + 7))).toInt * CONV16BITSTOVOLTS * sf.error]

/-- `for (; i<numwords; i=i+40)`. -/
def copyLoop (body : ℕ → List ℚ) (numwords i : ℕ) : List ℚ :=
  if i < numwords then body i ++ copyLoop body numwords (i + 40) else []
termination_by numwords - i

def CopyDataChan (buf_data numwords : BitVec 32) (chan : ℕ) : List ℚ :=
  let copy (off : ℕ) :=
    copyLoop (copyRecord mem CONVDACBITSTOVOLTS (scalefactors (chan - 1)) buf_data off)
      numwords.toNat 0
  match chan with
  | 1 => copy 2
  | 2 => copy 10
  | 3 => copy 18
  | 4 => copy 26
  | _ => []

/-- `ReadDMABuf` scales the stretches as it copies them. -/
def ReadDMABuf (trig : TriggerInfo) : List ℚ :=
  copies (fun buf_data numwords =>
    CopyDataChan mem scalefactors CONVDACBITSTOVOLTS buf_data numwords trig.channum.toNat) trig

end

/-! ## What it is for -/

/-- A record of the ring: its count, and for every word the inputs of `axi4_write_adc` when the word
was put on the bus. -/
structure Slot where
  /-- By word, the inputs when it was put on the bus. -/
  readings : ℕ → AxiWrite.Input
  count : BitVec 32

/-- Word `w` of the record, in the layout of `axi4_write_adc`. -/
def Slot.word (r : Slot) (w : ℕ) : BitVec 32 := (AxiWrite.record (r.readings w) r.count).getD w 0

/-- The memory holds the ring. -/
def RingHolds (mem : BitVec 32 → BitVec 32) (ring : ℕ → Slot) : Prop :=
  ∀ k < AxiWrite.SLOTS, ∀ w < AxiWrite.BURST_LEN,
    mem (BitVec.ofNat 32 (AxiWrite.slotAddr k + 4 * w)) = (ring k).word w

def chanNum : Chan → ℕ
  | .ps1 => 1
  | .ps2 => 2
  | .ps3 => 3
  | .ps4 => 4

/-- The eight quantities of a channel, in the order of the record. -/
def quantities : List AxiWrite.Quantity :=
  [.DCCT1, .DCCT2, .MON1, .MON2, .MON3, .MON4, .MON5, .MON6]

/-- The scale factor of a quantity. -/
def factor (sf : ScaleFactors) (CONVDACBITSTOVOLTS : ℚ) : AxiWrite.Quantity → ℚ
  | .DCCT1 => CONVDACBITSTOVOLTS * sf.dac_dccts
  | .DCCT2 => CONVDACBITSTOVOLTS * sf.dac_dccts
  | .MON1 => CONV16BITSTOVOLTS * sf.dac_dccts
  | .MON2 => CONV16BITSTOVOLTS * sf.vout
  | .MON3 => CONV16BITSTOVOLTS * sf.ignd
  | .MON4 => CONV16BITSTOVOLTS * sf.spare
  | .MON5 => CONV16BITSTOVOLTS * sf.regulator
  | .MON6 => CONV16BITSTOVOLTS * sf.error

/-- The word of a record that holds quantity `q` of channel `c`. -/
def wordOf (c : Chan) (q : AxiWrite.Quantity) : ℕ :=
  2 + 8 * (chanNum c - 1) + quantities.idxOf q

/-- What a snapshot of channel `c` has of a record: the header, the count and the eight readings,
each times its factor. -/
def sample (sf : ScaleFactors) (CONVDACBITSTOVOLTS : ℚ) (c : Chan) (r : Slot) : List ℚ :=
  0x80000000 :: (r.count.toNat : ℚ) :: quantities.map fun q =>
    (AxiWrite.psWord (r.readings (wordOf c q)) c q).toInt * factor sf CONVDACBITSTOVOLTS q

end Zpsc.Snapshot
