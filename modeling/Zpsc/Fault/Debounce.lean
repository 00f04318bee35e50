import Zpsc.Clocked.Streak
import Zpsc.Fault.Interlock

/-!
# Debouncing, clearing and the live bits

The vocabulary for runs of `fault_block` in which limits change, faults are cleared and supplies are
switched on and off. A check succeeds at an evaluation when it finds its condition and no clear
pulse; the evaluations since the last failure are the streak that the debounce is meant to measure.
-/

namespace Zpsc.FaultBlock

open Clocked

section

variable (s : Block) (inp : ℕ → In) (b : FaultBit) (t : ℕ)

/-! ## Debouncing -/

/-- What the check finds at clock `t`. A reset ends a streak. -/
def outcome : Outcome :=
  if (inp t).reset then .miss
  else if (trace step s inp t).ten_khz_pulse then
    if condAt s inp t b && !(trace step s inp t).clear_pulse then .hit else .miss
  else .skip

/-- The limit in force at clock `t`. -/
def limitAt : ℕ := (b.cntlim (inp t).fault_params).toNat

/-- The condition is found at clock `t`, for more evaluations in a row than the limit. -/
def Exceeds : Prop :=
  outcome s inp b t = .hit ∧ limitAt inp b t < streak (outcome s inp b) (t + 1)

instance : Decidable (Exceeds s inp b t) := inferInstanceAs (Decidable (_ ∧ _))

/-- The bit of `fault_reg` after clock `t`. -/
def regAfter : Bool := (trace step s inp (t + 1)).fault_reg.getLsbD b.idx

/-- The debounce law at the evaluation of clock `t`: the bit is set if the streak exceeds the limit,
and only if it exceeded the limit at some evaluation of the streak. -/
def Debounced : Prop :=
  EvalAt s inp t →
    (Exceeds s inp b t → regAfter s inp b t = true) ∧
      (regAfter s inp b t = true → Since (outcome s inp b) (Exceeds s inp b) (t + 1))

/-- At clock `t` the limit is not below the number of evaluations that have already found the
condition, or the streak has exceeded the limit before. -/
def NotUndercut : Prop :=
  outcome s inp b t = .hit → ¬ Since (outcome s inp b) (Exceeds s inp b) t →
    streak (outcome s inp b) t ≤ limitAt inp b t

instance : Decidable (NotUndercut s inp b t) := inferInstanceAs (Decidable (_ → _ → _))

end

/-- A counter that the reset does not clear is at the start of a streak when a reset comes. -/
def ResetsIdle (s : Block) (inp : ℕ → In) (b : FaultBit) : Prop :=
  ∀ t, (inp t).reset = true → cntReset b = true ∨ streak (outcome s inp b) t = 0

/-! ## Clearing -/

/-- No fault is reported, latched or being counted. -/
structure Cleared (s : Block) : Prop where
  fault_reg : ∀ k ≤ 10, s.fault_reg.getLsbD k = false
  fault_reg_lat : ∀ k ≤ 11, s.fault_reg_lat.getLsbD k = false
  cnt : ∀ b, s.cnt b = 0

/-! ## Live bits -/

/-- After the evaluation of clock `t` the live bits are the conditions that it found. -/
def LiveExact (s : Block) (inp : ℕ → In) (t : ℕ) : Prop :=
  ∀ b : FaultBit, (trace step s inp (t + 1)).fault_live.getLsbD b.idx =
    (condAt s inp t b && !(trace step s inp t).clear_pulse)

/-! ## Supplies that are switched on -/

section

variable (s : Block) (inp : ℕ → In)

/-- The evaluation of clock `r` finds `on1` set and the one before found it clear. -/
def OnRises (r : ℕ) : Prop :=
  EvalAt s inp r ∧ (trace step s inp r).digcntrl_on1_last = false ∧
    (inp r).dig_cntrl.on1 = true

instance (r : ℕ) : Decidable (OnRises s inp r) := inferInstanceAs (Decidable (_ ∧ _))

/-- Clock `r` is the most recent rising edge of `on1` before clock `t`. -/
def LatestRise (r t : ℕ) : Prop :=
  r < t ∧ OnRises s inp r ∧ ∀ v, r < v → v < t → ¬ OnRises s inp v

/-- An evaluation before clock `t`, at or after clock `r`, has found that the supply reports on. -/
def ReportedSince (r t : ℕ) : Prop :=
  ∃ u, r ≤ u ∧ u < t ∧ EvalAt s inp u ∧ (inp u).rsts.getLsbD 1 = true

/-- The supply-off fault is live after the evaluation of clock `t`. -/
def offLive (t : ℕ) : Bool := (trace step s inp (t + 1)).fault_live.getLsbD 7

/-- The fault is raised at clock `t` only for a supply that is commanded on, does not report on, and
has reported on since it was commanded on. -/
def OffQualified (t : ℕ) : Prop :=
  offLive s inp t = true →
    (inp t).dig_cntrl.on1 = true ∧ (inp t).rsts.getLsbD 1 = false ∧
      ∃ r, LatestRise s inp r (t + 1) ∧ ReportedSince s inp r t

/-- The supply was commanded on while `run_state` was still set, as an aborted start leaves it, and
has not reported on since. -/
def FalseStart (t : ℕ) : Prop :=
  ∃ r, LatestRise s inp r (t + 1) ∧ (trace step s inp r).run_state = true ∧
    ¬ ReportedSince s inp r t ∧ ∀ v, r ≤ v → v < t → (inp v).reset = false

end

end Zpsc.FaultBlock
