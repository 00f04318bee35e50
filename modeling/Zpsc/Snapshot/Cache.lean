import Zpsc.Snapshot.ReadBuf

/-!
# The data cache under the snapshot reader (`snapshots.c`)

The ring is written by the FPGA, past the data cache of the processor. `ReadDMABuf` first
invalidates a range of addresses in the cache and then copies up to three stretches of the ring.
Where it reads a word outside that range, an old line that the cache still holds is read in its
place.
-/

namespace Zpsc.Snapshot

/-! ## The reads -/

/-- The values of `i` in a loop of `CopyDataChan`. -/
def loopIndices (numwords : ℕ) : List ℕ := (List.range ((numwords + 39) / 40)).map (40 * ·)

/-- The words of a record that `copyRecord` reads, in its order. -/
def recordWords (off : ℕ) : List ℕ :=
  [0, 1, off, off + 1, off + 2, off + 3, off + 4, off + 5, off + 6, off + 7]

/-- The addresses that a pass of the loop reads. -/
def recordReads (buf_data : BitVec 32) (off i : ℕ) : List (BitVec 32) :=
  (recordWords off).map fun w => buf_data + BitVec.ofNat 32 (4 * (i + w))

/-- The addresses that `CopyDataChan` reads. -/
def copyReads (buf_data numwords : BitVec 32) (chan : ℕ) : List (BitVec 32) :=
  let reads (off : ℕ) := (loopIndices numwords.toNat).flatMap (recordReads buf_data off)
  match chan with
  | 1 => reads 2
  | 2 => reads 10
  | 3 => reads 18
  | 4 => reads 26
  | _ => []

/-- The addresses that `ReadDMABuf` reads. -/
def dmaReads (trig : TriggerInfo) : List (BitVec 32) :=
  copies (fun buf_data numwords => copyReads buf_data numwords trig.channum.toNat) trig

/-! ## The cache -/

/-- The word at `a` lies in the `len` bytes from `start` on. -/
def Within (start len : ℕ) (a : BitVec 32) : Prop := start ≤ a.toNat ∧ a.toNat + 4 ≤ start + len

instance (start len : ℕ) (a : BitVec 32) : Decidable (Within start len a) := by
  delta Within
  infer_instance

def InRing : BitVec 32 → Prop := Within BUFSTART.toNat BUFLEN.toNat

/-- `Xil_DCacheInvalidateRange(0x10000000,16e6)`. -/
def Invalidated : BitVec 32 → Prop := Within 0x10000000 16000000

instance : DecidablePred Invalidated := by
  delta Invalidated
  infer_instance

/-- What the processor reads after the call, if the cache held the words `cached` before it. -/
def cpuMem (mem : BitVec 32 → BitVec 32) (cached : BitVec 32 → Option (BitVec 32))
    (a : BitVec 32) : BitVec 32 :=
  if Invalidated a then mem a else (cached a).getD (mem a)

/-- All that `ReadDMABuf` reads lies in the ring and has been invalidated, so that the snapshot does
not depend on what the cache held. -/
structure CacheCovered (trig : TriggerInfo) : Prop where
  ring : ∀ a ∈ dmaReads trig, InRing a
  invalidated : ∀ a ∈ dmaReads trig, Invalidated a
  fresh : ∀ mem cached scalefactors CONVDACBITSTOVOLTS,
    ReadDMABuf (cpuMem mem cached) scalefactors CONVDACBITSTOVOLTS trig =
      ReadDMABuf mem scalefactors CONVDACBITSTOVOLTS trig

end Zpsc.Snapshot
