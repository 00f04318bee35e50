import Mathlib.Tactic.Common

/-!
# Traces of a labelled machine

`Trace step init log s`: the machine `step : S → E → S → Prop` can go from `init` to `s` over the
events `log`, oldest first. A property of every event of a trace is proved from what holds of the
state before it (`Trace.split`), a property of every prefix from the states in between
(`Trace.of_append`).
-/

namespace Protocol

variable {S E : Type*}

/-- The machine goes from `init` to the given state over the given events. -/
inductive Trace (step : S → E → S → Prop) (init : S) : List E → S → Prop where
  /-- No event yet. -/
  | nil : Trace step init [] init
  /-- One more event. -/
  | snoc {log : List E} {s t : S} {e : E} (h : Trace step init log s) (he : step s e t) :
      Trace step init (log ++ [e]) t

variable {step : S → E → S → Prop} {init : S}

/-- A trace goes through a state after each of its prefixes. -/
theorem Trace.of_append {pre post : List E} {s : S} (h : Trace step init (pre ++ post) s) :
    ∃ s', Trace step init pre s' := by
  generalize hl : pre ++ post = log at h
  induction h generalizing post with
  | nil =>
    obtain ⟨rfl, -⟩ := List.append_eq_nil_iff.mp hl
    exact ⟨init, .nil⟩
  | @snoc log s t e h he ih =>
    rcases List.eq_nil_or_concat post with rfl | ⟨post', e', rfl⟩
    · rw [List.append_nil] at hl
      exact ⟨t, hl ▸ h.snoc he⟩
    · rw [List.concat_eq_append, ← List.append_assoc] at hl
      exact ih (List.append_inj' hl rfl).1

/-- Every event of a trace is a step from the state its prefix leads to. -/
theorem Trace.split {pre post : List E} {e : E} {s : S}
    (h : Trace step init (pre ++ e :: post) s) :
    ∃ s1 s2, Trace step init pre s1 ∧ step s1 e s2 := by
  have h' : Trace step init (pre ++ [e] ++ post) s := by simpa using h
  obtain ⟨s2, h2⟩ := h'.of_append
  generalize hl : pre ++ [e] = log at h2
  cases h2 with
  | nil => exact absurd hl (by simp)
  | @snoc log s1 _ e' h1 he =>
    obtain ⟨rfl, h3⟩ := List.append_inj' hl rfl
    obtain rfl : e = e' := by simpa using h3
    exact ⟨s1, s2, h1, he⟩

end Protocol
