import Zpsc.Fault.FaultModule

/-!
# What the interlock guarantees

The vocabulary of the interlock's guarantees. Over a run of `fault_block` from `s` under the inputs
`inp`, an evaluation is a clock at which the 10 kHz pulse lets the main process look at the fault
conditions; a bit is tripped when its condition has held for one evaluation more than its limit.
Over two runs of the interlock, a channel is isolated when its fault status does not depend on the
inputs of the other channels.
-/

namespace Zpsc.FaultBlock

open Clocked

/-- The fault checks are evaluated at clock `t`. -/
def EvalAt (s : Block) (inp : ℕ → In) (t : ℕ) : Prop :=
  (trace step s inp t).ten_khz_pulse = true ∧ (inp t).reset = false

instance (s : Block) (inp : ℕ → In) (t : ℕ) : Decidable (EvalAt s inp t) :=
  inferInstanceAs (Decidable (_ ∧ _))

def condAt (s : Block) (inp : ℕ → In) (t : ℕ) (b : FaultBit) : Bool :=
  cond (trace step s inp t) (inp t) b

/-- The number of evaluations after clock `t0` and before clock `v`. -/
def evals (s : Block) (inp : ℕ → In) (t0 v : ℕ) : ℕ :=
  ((Finset.Ioo t0 v).filter (EvalAt s inp)).card

/-- The condition of the check `b` is false at the evaluation of clock `t0` and true at all
evaluations after it up to clock `t`; these are one more than the limit, which does not change. -/
structure Persists (s : Block) (inp : ℕ → In) (b : FaultBit) (t0 t : ℕ) : Prop where
  first : EvalAt s inp t0
  first_false : condAt s inp t0 b = false
  last : EvalAt s inp t
  before : t0 < t
  later_true : ∀ v, t0 + 1 ≤ v → v ≤ t → EvalAt s inp v → condAt s inp v b = true
  limit : ∀ v, t0 + 1 ≤ v → v ≤ t → EvalAt s inp v →
    b.cntlim (inp v).fault_params = b.cntlim (inp t).fault_params
  /-- The evaluations from `t0` to `t`. -/
  count : evals s inp t0 (t + 1) = (b.cntlim (inp t).fault_params).toNat + 1

/-- Fault bit `i` is tripped by clock `t`: the condition of its check persists, or, for bit 12, the
event receiver reports a fault. Bit 11 has no check. -/
def Tripped (s : Block) (inp : ℕ → In) (i t0 t : ℕ) : Prop :=
  (∃ b : FaultBit, b.idx = i ∧ Persists s inp b t0 t) ∨
    i = 12 ∧ t0 = t ∧ (inp t).evr_flt_in = true

/-- The bits that interlock: all but the loop error glitch, and in main-dipole mode neither Fault2
nor Fault3. -/
def Interlocking (i : ℕ) (main_dipole : Bool) : Prop :=
  i ≤ 12 ∧ i ≠ 4 ∧ (main_dipole = true → i ≠ 8 ∧ i ≠ 9)

instance (i : ℕ) (d : Bool) : Decidable (Interlocking i d) :=
  inferInstanceAs (Decidable (_ ∧ _ ∧ _))

def ClearEdge (inp : ℕ → In) (v : ℕ) : Prop :=
  (inp (v - 1)).fault_params.clear = false ∧ (inp v).fault_params.clear = true

instance (inp : ℕ → In) (v : ℕ) : Decidable (ClearEdge inp v) :=
  inferInstanceAs (Decidable (_ ∧ _))

/-- Fault bit `i`, tripped in the clocks `t0` to `t`, is held up to clock `u`: no clear pulse while
it trips, no rising edge of fault clear after it, no reset, and the bit stays enabled and
interlocking. -/
structure Held (s : Block) (inp : ℕ → In) (i t0 t u : ℕ) : Prop where
  clear_pulse : ∀ v, t0 ≤ v → v ≤ t → (trace step s inp v).clear_pulse = false
  no_clear : ∀ v, t + 1 ≤ v → v < u → ¬ ClearEdge inp v
  no_reset : ∀ v, t0 ≤ v → v < u → (inp v).reset = false
  enabled : ∀ v, t ≤ v → v < u → (inp v).fault_params.enable.getLsbD i = true
  interlocking : ∀ v, t ≤ v → v < u → Interlocking i (inp v).dig_cntrl.main_dipole

/-- Nothing releases the bit before clock `u`: it is held, and no clear pulse comes in the two clocks
in which it is latched. Such a pulse belongs to an edge of fault clear before clock `t + 1`. -/
structure Undisturbed (s : Block) (inp : ℕ → In) (i t0 t u : ℕ) : Prop
    extends Held s inp i t0 t u where
  latching : ∀ v, t + 1 ≤ v → v ≤ t + 2 → (trace step s inp v).clear_pulse = false

end Zpsc.FaultBlock

namespace Zpsc.Top

open Clocked FaultModule

/-- Two inputs agree on what belongs to channel `c` and on what is global. -/
structure SameChannel (c : Chan) (i i' : In) : Prop where
  reset : i.mod.reset = i'.mod.reset
  tenkhz_trig : i.mod.tenkhz_trig = i'.mod.tenkhz_trig
  dig_cntrl : i.mod.dig_cntrl c = i'.mod.dig_cntrl c
  fault_params : i.mod.fault_params c = i'.mod.fault_params c
  dcct_adcs : i.mod.dcct_adcs c = i'.mod.dcct_adcs c
  mon_adcs : i.mod.mon_adcs c = i'.mod.mon_adcs c
  dac_setpt : i.mod.dac_setpt c = i'.mod.dac_setpt c
  rsts : i.mod.rsts.extractLsb' (rstsLow c) 4 = i'.mod.rsts.extractLsb' (rstsLow c) 4
  dcct_fault : i.mod.rsts.getLsbD (dcctBit c) = i'.mod.rsts.getLsbD (dcctBit c)

/-- In every two runs that start with the same fault block of channel `c`, whose inputs agree on
channel `c` and are related by `R`, the fault status of channel `c` is the same at every clock. -/
def IsolatedUnder (R : In → In → Prop) (c : Chan) : Prop :=
  ∀ (s s' : Interlock) (inp inp' : ℕ → In), s.blocks c = s'.blocks c →
    (∀ t, SameChannel c (inp t) (inp' t)) → (∀ t, R (inp t) (inp' t)) →
    ∀ t, faultStat (trace step s inp t) (inp t) c = faultStat (trace step s' inp' t) (inp' t) c

/-- The fault status of channel `c` does not depend on the inputs of the other channels. -/
def Isolated (c : Chan) : Prop := IsolatedUnder (fun _ _ => True) c

end Zpsc.Top
