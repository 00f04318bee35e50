import Mathlib.Data.Nat.Nth
import Zpsc.Snapshot.AxiWrite

/-!
# What the snapshot writer is for

One accepted trigger stands for one record in the next slot of the ring. A burst is followed from
the clock of its trigger, clock 0 of the runs below: which words the slave accepts, when each of
them is taken from the readings, and when the response ends it.
-/

namespace Zpsc.AxiWrite

open Bits Clocked

def Reachable (s : AxiWrite) : Prop := ∃ is, s = run step powerUp is

/-! ## The record -/

/-- The eight words of a channel. -/
def chanWords (i : Input) (c : Chan) : List (BitVec 32) :=
  [sresize 32 (i.dcct_adcs c).dcct0, sresize 32 (i.dcct_adcs c).dcct1,
    sresize 32 (i.mon_adcs c).dacmon, sresize 32 (i.mon_adcs c).voltage,
    sresize 32 (i.mon_adcs c).ignd, sresize 32 (i.mon_adcs c).spare,
    sresize 32 (i.mon_adcs c).ps_reg, sresize 32 (i.mon_adcs c).ps_error]

/-- The 32 ADC words. -/
def adcWords (i : Input) : List (BitVec 32) :=
  chanWords i .ps1 ++ chanWords i .ps2 ++ chanWords i .ps3 ++ chanWords i .ps4

/-- The words of a record whose readings are all those of `i`. -/
def record (i : Input) (cnt : BitVec 32) : List (BitVec 32) :=
  [0x80000000, cnt] ++ adcWords i ++
    [digbits i .ps1, digbits i .ps2, digbits i .ps3, digbits i .ps4] ++ [39, 40]

/-! ## A burst and its slave -/

/-- A trigger is accepted. -/
structure Accepts (s : AxiWrite) (i : Input) : Prop where
  idle : s.state = .IDLE
  trigger : i.trigger = true
  rise : s.prev_trigger = false
  noReset : i.reset = false

section

variable (s : AxiWrite) (inp : ℕ → Input)

/-- The slave has accepted the address before clock `t`. -/
def Addressed (t : ℕ) : Prop := ∃ u < t, 0 < u ∧ (inp u).awready = true

/-- At clock `t` a word is taken from the readings and put on the bus. -/
def Loads (t : ℕ) : Prop := Addressed inp t ∧ (inp t).wready = true

instance : DecidablePred (Addressed inp) := fun t =>
  inferInstanceAs (Decidable (∃ u < t, 0 < u ∧ (inp u).awready = true))

instance : DecidablePred (Loads inp) := fun t =>
  inferInstanceAs (Decidable (Addressed inp t ∧ (inp t).wready = true))

/-- The response state completes at clock `t`. -/
def Completes (t : ℕ) : Prop :=
  (trace step s inp t).state = .AWAITRESP ∧ (inp t).bvalid = true

/-- The burst has not ended before clock `t`. -/
def Running (t : ℕ) : Prop := ∀ u < t, ¬ Completes s inp u

/-- No reset comes before the burst has ended. -/
def NoReset : Prop := ∀ t, Running s inp t → (inp t).reset = false

/-- The beat accepted at clock `t`: its word and `wlast`. -/
def beat (t : ℕ) : List (BitVec 32 × Bool) :=
  if (trace step s inp t).wvalid && (inp t).wready then
    [((trace step s inp t).wdata, (trace step s inp t).wlast)]
  else []

/-- The beats accepted before clock `t`. -/
def beats : ℕ → List (BitVec 32 × Bool)
  | 0 => []
  | t + 1 => beats t ++ beat s inp t

/-- The channel signals stay while the slave lets the master wait. -/
def Held (t : ℕ) : Prop :=
  (trace step s inp t).wvalid = true → (inp t).wready = false →
    (trace step s inp (t + 1)).wvalid = true ∧
    (trace step s inp (t + 1)).wdata = (trace step s inp t).wdata ∧
    (trace step s inp (t + 1)).wlast = (trace step s inp t).wlast

/-- The burst brings the whole record: word `k` is the one in force when it was put on the bus, and
`wlast` marks the last. -/
structure BurstOk : Prop where
  held : ∀ t, Running s inp t → Held s inp t
  whole : ∃ t, Running s inp t ∧ Completes s inp t ∧ beats s inp (t + 1) =
    (List.range BURST_LEN).map fun k =>
      ((record (inp (Nat.nth (Loads inp) k)) s.datacnt).getD k 0, decide (k + 1 = BURST_LEN))

/-- What an AXI4 slave owes its master: an address and a word that are held valid are accepted in
the end, and the last word is answered. -/
structure Axi4Slave : Prop where
  awready_comes : ∀ t, (∀ u, t ≤ u → (trace step s inp u).awvalid = true) →
    ∃ u, t ≤ u ∧ (inp u).awready = true
  wready_comes : ∀ t, (∀ u, t ≤ u → (trace step s inp u).wvalid = true) →
    ∃ u, t ≤ u ∧ (inp u).wready = true
  bvalid_comes : ∀ t, (trace step s inp t).wvalid = true → (trace step s inp t).wlast = true →
    (inp t).wready = true → ∃ u, t < u ∧ (inp u).bvalid = true

/-- The slave is ready at some clock after the address, without waiting for a valid word. -/
def ReadyFirst : Prop := ∃ t, Loads inp t

/-- The slave is ready in the clock after the last word was put on the bus. -/
def LastReady : Prop :=
  ∀ t, Loads inp t → Nat.count (Loads inp) t + 1 = BURST_LEN → (inp (t + 1)).wready = true

/-! ## Coherent records -/

/-- The inputs `inp` when the DCCT readings change at clock `u` and the monitor readings at
clock `v`. -/
def withReadings (u v : ℕ) (d d' : Chan → DcctAdcs) (m m' : Chan → MonAdcsCal) : ℕ → Input :=
  fun t => { inp t with
    dcct_adcs := if t < u then d else d'
    mon_adcs := if t < v then m else m' }

/-- The ADC words of the record are the readings in force at its trigger. -/
def Coherent : Prop :=
  ∀ t, Running s inp t → Completes s inp t →
    (((beats s inp (t + 1)).map Prod.fst).drop 2).take 32 = adcWords (inp 0)

end

/-! ## The ring -/

/-- The number of slots. -/
def SLOTS : ℕ := 200000

/-- The address of a slot. -/
def slotAddr (k : ℕ) : ℕ := DDR_BASE_ADDR.toNat + 4 * BURST_LEN * k

/-- The two counters of the ring position agree. -/
structure RingAt (s : AxiWrite) : Prop where
  slot : s.datacnt.toNat < SLOTS
  addr : s.addr_base.toNat = slotAddr s.datacnt.toNat

/-- The ring positions of a run from the configuration of the device. -/
structure RingOk (inp : ℕ → Input) : Prop where
  ring : ∀ t, RingAt (trace step powerUp inp t)
  /-- The count in a record is the slot its burst is addressed to. -/
  count : ∀ t, (trace step powerUp inp t).state = .CNT → (inp t).reset = false →
    (inp t).wready = true → (trace step powerUp inp (t + 1)).awaddr.toNat =
      slotAddr (trace step powerUp inp (t + 1)).wdata.toNat
  /-- Consecutive records have consecutive slots. -/
  next : ∀ t t', t < t' → Accepts (trace step powerUp inp t) (inp t) →
    Accepts (trace step powerUp inp t') (inp t') →
    (∀ u, t < u → u < t' →
      (inp u).reset = false ∧ ¬ Accepts (trace step powerUp inp u) (inp u)) →
    (trace step powerUp inp t').datacnt.toNat =
      ((trace step powerUp inp t).datacnt.toNat + 1) % SLOTS

end Zpsc.AxiWrite
