import Zpsc.Snapshot.Trigger

/-!
# The polls of one trigger

The software reads the latched address in every poll that finds its trigger inactive. Here the
addresses that the polls would read are any sequence `b`, whatever hardware latches them.
-/

namespace Zpsc.Snapshot

section

variable (ty : TrigType) (init : TriggerInfo) (b : ℕ → BitVec 32)

/-- The trigger before poll `n`; poll `n` reads `b n`. -/
def polled : ℕ → TriggerInfo
  | 0 => init
  | n + 1 => snapshot_process ty (polled n) (b n)

/-- The trigger after `CheckforTriggers` of poll `n`. -/
def tested (n : ℕ) : TriggerInfo := CheckforTriggers (polled ty init b n) (b n)

/-- Poll `n` finds a new trigger. -/
def Finds (n : ℕ) : Prop :=
  (polled ty init b n).active = 0 ∧ b n ≠ (polled ty init b n).addr_last

/-- The value of `g` in the last poll before `n` that read the address, `x` when there is none. -/
def taken {β : Type} (g : ℕ → β) (x : β) : ℕ → β
  | 0 => x
  | n + 1 => if (polled ty init b n).active = 0 then g n else taken g x n

end

end Zpsc.Snapshot
