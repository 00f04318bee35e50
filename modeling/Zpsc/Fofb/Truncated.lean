import Zpsc.Fofb.UdpRx

/-!
# Truncated FOFB frames

A frame is cut when `rx_dv` falls before its last byte. `Cut` is the place, `Recovers` what a
receiver that handles the error does, and `Clean` the condition under which `udp_rx` does it. Since
only two states of the receiver look at `rx_dv`, the idle clocks after the cut are taken for the
rest of the frame; whether that is harmless depends on where the frame was cut and on how many idle
clocks follow.
-/

namespace Zpsc.UdpRx

open Bits Clocked

/-- The place at which `rx_dv` falls inside a frame. -/
inductive Cut where
  /-- After `n + 1` preamble bytes, before the delimiter. -/
  | inPreamble (n : ℕ)
  /-- After the first `k` bytes of the header `h`. -/
  | inHeader (n : ℕ) (h : Header) (k : Fin 54)
  /-- After the first `k + 1` bytes of the record `r`, which follows the complete records `rs`. -/
  | inRecord (n : ℕ) (h : Header) (rs : List Record) (r : Record) (k : Fin 5)

def Cut.bytes : Cut → List Byte
  | .inPreamble n => List.replicate (n + 1) 0x55#8
  | .inHeader n h k => preamble n ++ (List.ofFn h).take k
  | .inRecord n h rs r k =>
    preamble n ++ List.ofFn h ++ recordBytes rs ++ (Record.bytes r).take (k + 1)

/-- Two receivers make the same of a frame followed by the bytes `idle`. -/
def SameParse {p : FofbParams} (s s' : Rx) (f : Frame p) (idle : List Byte) : Prop :=
  (run step s (f.inputs idle)).state = (run step s' (f.inputs idle)).state ∧
  (run step s (f.inputs idle)).fofb_stat = (run step s' (f.inputs idle)).fofb_stat ∧
  pulses Rx.rx_done step s (f.inputs idle) = pulses Rx.rx_done step s' (f.inputs idle)

/-- The reset state of the receiver, with the status registers of `s`. -/
def restart (s : Rx) : Rx := { resetRx s with fofb_stat := s.fofb_stat }

/-- The receiver recovers from the cut `c` within `m` idle clocks: no setpoint changes during them,
and every later frame is parsed as from the reset state. -/
def Recovers (p : FofbParams) (s : Rx) (c : Cut) (m : ℕ) : Prop :=
  ∀ idle : List Byte, idle.length = m →
    (run step (run step s (bytesIn p true c.bytes)) (bytesIn p false idle)).fofb_stat.setpt_flt =
      (run step s (bytesIn p true c.bytes)).fofb_stat.setpt_flt ∧
    ∀ (f : Frame p) (idle' : List Byte), 2 ≤ idle'.length →
      SameParse (run step (run step s (bytesIn p true c.bytes)) (bytesIn p false idle))
        (restart (run step (run step s (bytesIn p true c.bytes)) (bytesIn p false idle))) f idle'

/-- The header bytes by which a frame is recognised. -/
def wanted (p : FofbParams) : ℕ → Option Byte
  | 30 => some (byteOf p.ipaddr 3)
  | 31 => some (byteOf p.ipaddr 2)
  | 32 => some (byteOf p.ipaddr 1)
  | 33 => some (byteOf p.ipaddr 0)
  | 42 => some 0x76#8
  | 43 => some 0x31#8
  | _ => none

/-- One of the first `k` header bytes already shows that the frame is not for this unit. -/
def Foreign (p : FofbParams) (h : Header) (k : ℕ) : Prop :=
  ∃ i : Fin 54, i < k ∧ ∃ b, wanted p i = some b ∧ h i ≠ b

/-- What has been received of the record `r` may still become a record for channel `c`: its address
if that is complete, the high byte of it if not. -/
def MayAddress (p : FofbParams) (r : Record) (k : Fin 5) (c : Chan) : Prop :=
  if k = 0 then byteOf r.1 1 = byteOf (p.addr c) 1 else r.1 = p.addr c

instance (p : FofbParams) (r : Record) (k : Fin 5) (c : Chan) : Decidable (MayAddress p r k c) :=
  inferInstanceAs
    (Decidable (if k = 0 then byteOf r.1 1 = byteOf (p.addr c) 1 else r.1 = p.addr c))

/-- The cuts from which `udp_rx` recovers within `m` idle clocks: enough clocks to run through the
rest of the header or of the record and to see `rx_dv` low in `IDLE` once, and no channel whose
address the cut record may carry. -/
def Clean (p : FofbParams) (c : Cut) (m : ℕ) : Prop :=
  match c with
  | .inPreamble _ => False
  | .inHeader _ h k => 56 ≤ k + m ∨ k + m = 55 ∧ Foreign p h k
  | .inRecord _ h _ r k => ¬ h.Accepted p ∨ 6 ≤ k + m ∧ ∀ c, ¬ MayAddress p r k c

end Zpsc.UdpRx
