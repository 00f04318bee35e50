import Mathlib.Data.BitVec
import Zpsc.Clocked.Run

/-!
# The check of the 1 Hz event (`evr_top.vhd`)

The trigger of the 1 Hz event is brought into the clock domain of the system, and an edge of it is
passed on when the counter that the last edge has cleared is in a window.
-/

namespace Zpsc.OneHz

open Clocked

/-- The registers; `onehz_trig` and `onehz_freq` are those of `evr_trigs`. -/
structure Regs where
  /-- This and the next are the synchroniser. -/
  onehz_trig_sync0 : Bool
  onehz_trig_sync1 : Bool
  /-- `onehz_trig_sync1` one clock ago. -/
  onehz_trig_sync2 : Bool
  /-- The clocks since the last edge. -/
  onehz_rate_cnt : BitVec 32
  /-- The count at the last edge. -/
  onehz_freq : BitVec 32
  onehz_trig : Bool
  deriving DecidableEq, Repr

/-- No register has an initial value; the triggers are taken to be 0. -/
def powerUp (cnt freq : BitVec 32) : Regs := ⟨false, false, false, cnt, freq, false⟩

/-- The range of counts at which an edge is passed on. -/
def InWindow (cnt : ℕ) : Prop := 95000000 < cnt ∧ cnt < 150000000

instance (cnt : ℕ) : Decidable (InWindow cnt) := inferInstanceAs (Decidable (_ ∧ _))

/-- One rising edge of `sys_clk`. -/
def step (s : Regs) (trig : Bool) : Regs :=
  let edge := !s.onehz_trig_sync2 && s.onehz_trig_sync1
  { onehz_trig_sync0 := trig
    onehz_trig_sync1 := s.onehz_trig_sync0
    onehz_trig_sync2 := s.onehz_trig_sync1
    onehz_rate_cnt := if edge then 0 else s.onehz_rate_cnt + 1
    onehz_freq :=
      if edge then s.onehz_rate_cnt
      else if 200000000 < s.onehz_rate_cnt then 0 else s.onehz_freq
    onehz_trig := edge && decide (InWindow s.onehz_rate_cnt.toNat) }

/-- The registers before clock `t`. -/
def regs (cnt freq : BitVec 32) (trig : ℕ → Bool) (t : ℕ) : Regs :=
  trace step (powerUp cnt freq) trig t

/-! ## The intended check -/

/-- The trigger rises at clock `t`; before clock 0 it was 0. -/
def rise (trig : ℕ → Bool) (t : ℕ) : Bool := trig t && (t == 0 || !trig (t - 1))

/-- `t'` is the last clock before `t` at which the trigger rose. -/
def LastRise (trig : ℕ → Bool) (t' t : ℕ) : Prop :=
  t' < t ∧ rise trig t' = true ∧ ∀ u, t' < u → u < t → rise trig u = false

/-- An edge is passed on, three clocks later, only when it comes about a second after the one
before. -/
def PassesSeconds (cnt freq : BitVec 32) (trig : ℕ → Bool) : Prop :=
  ∀ t, (regs cnt freq trig t).onehz_trig = true →
    ∃ u' u, t = u + 3 ∧ rise trig u = true ∧ LastRise trig u' u ∧
      95000000 < u - u' ∧ u - u' < 150000002

/-! ## Where it is met -/

/-- No edge comes so long after the last one that the counter has wrapped into the window, and the
first one does not find its initial value there. -/
def GapsOk (cnt : BitVec 32) (trig : ℕ → Bool) : Prop :=
  ∀ u, rise trig u = true →
    (∀ u', LastRise trig u' u →
      ¬ (2 ^ 32 ≤ u - u' - 1 ∧ InWindow ((u - u' - 1) % 2 ^ 32))) ∧
    ((∀ v < u, rise trig v = false) → ¬ InWindow ((cnt.toNat + u + 2) % 2 ^ 32))

end Zpsc.OneHz
