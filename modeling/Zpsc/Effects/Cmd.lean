import Mathlib.Tactic.Common

/-!
# Commands and their effects

A command over a state `σ` reads the state and answers with a value and the effects it makes, oldest
first. The state changes through effects only: `Effect.apply` says what one does, and a command that
follows another reads the state the effects of the first have left.

`Emits P m` says that `m` makes no effect outside `P`, from any state. It composes: the rules follow
the way a command is written (`pure`, a read, one effect, `bind`, a branch, a loop).
-/

namespace Effects

/-- What an effect does to the state. -/
class Effect (ε : Type) (σ : Type) where
  apply : ε → σ → σ

variable {ε σ α β : Type}

/-- The state after a list of effects, oldest first. -/
def applyAll [Effect ε σ] (es : List ε) (s : σ) : σ :=
  es.foldl (fun s e => Effect.apply e s) s

/-- A command: what it returns and the effects it makes. -/
def Cmd (ε σ α : Type) : Type := σ → α × List ε

namespace Cmd

instance [Effect ε σ] : Monad (Cmd ε σ) where
  pure a := fun _ => (a, [])
  bind m f := fun s =>
    let r := m s
    let r' := f r.1 (applyAll r.2 s)
    (r'.1, r.2 ++ r'.2)

/-- One effect. -/
def emit (e : ε) : Cmd ε σ Unit := fun _ => ((), [e])

/-- A read of the state. -/
def get (f : σ → α) : Cmd ε σ α := fun s => (f s, [])

def value (m : Cmd ε σ α) (s : σ) : α := (m s).1

def effects (m : Cmd ε σ α) (s : σ) : List ε := (m s).2

/-- The state a command leaves. -/
def final [Effect ε σ] (m : Cmd ε σ α) (s : σ) : σ := applyAll (m.effects s) s

@[simp] theorem effects_emit (e : ε) (s : σ) : (emit e : Cmd ε σ Unit).effects s = [e] := rfl

@[simp] theorem effects_get (f : σ → α) (s : σ) : (get f : Cmd ε σ α).effects s = [] := rfl

@[simp] theorem value_get (f : σ → α) (s : σ) : (get f : Cmd ε σ α).value s = f s := rfl

section Equations

variable [Effect ε σ]

@[simp] theorem effects_pure (a : α) (s : σ) : (pure a : Cmd ε σ α).effects s = [] := rfl

@[simp] theorem effects_bind (m : Cmd ε σ α) (f : α → Cmd ε σ β) (s : σ) :
    (m >>= f).effects s = m.effects s ++ (f (m.value s)).effects (m.final s) := rfl

@[simp] theorem value_pure (a : α) (s : σ) : (pure a : Cmd ε σ α).value s = a := rfl

@[simp] theorem value_bind (m : Cmd ε σ α) (f : α → Cmd ε σ β) (s : σ) :
    (m >>= f).value s = (f (m.value s)).value (m.final s) := rfl

@[simp] theorem final_pure (a : α) (s : σ) : (pure a : Cmd ε σ α).final s = s := rfl

@[simp] theorem final_get (f : σ → α) (s : σ) : (get f : Cmd ε σ α).final s = s := rfl

@[simp] theorem final_emit (e : ε) (s : σ) :
    (emit e : Cmd ε σ Unit).final s = Effect.apply e s := rfl

@[simp] theorem final_bind (m : Cmd ε σ α) (f : α → Cmd ε σ β) (s : σ) :
    (m >>= f).final s = (f (m.value s)).final (m.final s) := by
  simp only [final, effects_bind, applyAll, List.foldl_append]

theorem effects_forM_emit (xs : List α) (f : α → ε) (s : σ) :
    (xs.forM fun x => (emit (f x) : Cmd ε σ PUnit)).effects s = xs.map f := by
  induction xs generalizing s with
  | nil => rfl
  | cons x xs ih => exact congrArg (f x :: ·) (ih _)

end Equations

/-! ## Commands that make only effects of one kind -/

/-- Every effect of `m` satisfies `P`, from every state. -/
def Emits (P : ε → Prop) (m : Cmd ε σ α) : Prop := ∀ s, ∀ e ∈ m.effects s, P e

variable {P : ε → Prop}

theorem emits_get (f : σ → α) : Emits P (get f : Cmd ε σ α) := by
  intro s e he
  exact absurd he List.not_mem_nil

theorem emits_emit {e : ε} (h : P e) : Emits P (emit e : Cmd ε σ Unit) := by
  intro s e' he
  rw [List.mem_singleton.mp he]
  exact h

theorem Emits.ite {c : Prop} [Decidable c] {m m' : Cmd ε σ α} (h : Emits P m) (h' : Emits P m') :
    Emits P (if c then m else m') := by
  split
  · exact h
  · exact h'

variable [Effect ε σ]

theorem emits_pure (a : α) : Emits P (pure a : Cmd ε σ α) := by
  intro s e he
  exact absurd he List.not_mem_nil

theorem Emits.bind {m : Cmd ε σ α} {f : α → Cmd ε σ β} (hm : Emits P m)
    (hf : ∀ a, Emits P (f a)) : Emits P (m >>= f) := by
  intro s e he
  rw [effects_bind] at he
  rcases List.mem_append.mp he with he | he
  · exact hm s e he
  · exact hf _ _ e he

/-- A loop over a list makes the effects of its bodies. -/
theorem emits_forM (xs : List α) {f : α → Cmd ε σ PUnit} (h : ∀ x ∈ xs, Emits P (f x)) :
    Emits P (xs.forM f) := by
  induction xs with
  | nil => exact emits_pure _
  | cons x xs ih =>
    exact (h x List.mem_cons_self).bind fun _ => ih fun y hy => h y (List.mem_cons_of_mem _ hy)

theorem forM_congr {xs : List α} {f g : α → Cmd ε σ PUnit} (h : ∀ x ∈ xs, f x = g x) :
    xs.forM f = xs.forM g := by
  induction xs with
  | nil => rfl
  | cons x xs ih =>
    have hx := h x List.mem_cons_self
    have hxs := ih fun y hy => h y (List.mem_cons_of_mem _ hy)
    rw [List.forM_eq_forM] at hxs ⊢
    rw [List.forM_cons, List.forM_cons, hx, hxs]

/-! ## Commands that see only part of the state -/

/-- From states related by `R`, `m` returns the same and makes the same effects. -/
def Respects (R : σ → σ → Prop) (m : Cmd ε σ α) : Prop := ∀ s s', R s s' → m s = m s'

variable {R : σ → σ → Prop}

theorem respects_pure (a : α) : Respects R (pure a : Cmd ε σ α) := fun _ _ _ => rfl

omit [Effect ε σ] in
theorem respects_emit (e : ε) : Respects R (emit e : Cmd ε σ Unit) := fun _ _ _ => rfl

omit [Effect ε σ] in
theorem respects_get {f : σ → α} (h : ∀ s s', R s s' → f s = f s') :
    Respects R (get f : Cmd ε σ α) := by
  intro s s' hs
  show (f s, _) = (f s', _)
  rw [h s s' hs]

omit [Effect ε σ] in
theorem Respects.ite {c : Prop} [Decidable c] {m m' : Cmd ε σ α} (h : Respects R m)
    (h' : Respects R m') : Respects R (if c then m else m') := by
  split
  · exact h
  · exact h'

/-- A relation that every effect keeps. -/
def Kept (ε : Type) [Effect ε σ] (R : σ → σ → Prop) : Prop :=
  ∀ (e : ε) s s', R s s' → R (Effect.apply e s) (Effect.apply e s')

theorem Kept.applyAll (hR : Kept ε R) (es : List ε) {s s' : σ} (h : R s s') :
    R (applyAll es s) (applyAll es s') := by
  induction es generalizing s s' with
  | nil => exact h
  | cons e es ih => exact ih (hR e s s' h)

theorem Respects.bind (hR : Kept ε R) {m : Cmd ε σ α} {f : α → Cmd ε σ β} (hm : Respects R m)
    (hf : ∀ a, Respects R (f a)) : Respects R (m >>= f) := by
  intro s s' h
  have hms := hm s s' h
  show (let r := m s; let r' := f r.1 (Effects.applyAll r.2 s); (r'.1, r.2 ++ r'.2)) =
    (let r := m s'; let r' := f r.1 (Effects.applyAll r.2 s'); (r'.1, r.2 ++ r'.2))
  rw [hms]
  simp only [hf (m s').1 _ _ (hR.applyAll (m s').2 h)]

theorem respects_forM (hR : Kept ε R) (xs : List α) {f : α → Cmd ε σ PUnit}
    (h : ∀ x, Respects R (f x)) : Respects R (xs.forM f) := by
  induction xs with
  | nil => exact respects_pure _
  | cons x xs ih => exact (h x).bind hR fun _ => ih

/-! ## What a list of effects does to an observation -/

/-- Where every effect sets an observation to `v` or leaves it alone, the list sets it to `v` when
one of its effects does. -/
theorem applyAll_sets (obs : σ → β) (hits : ε → Prop) [DecidablePred hits] (v : β) (es : List ε)
    (s : σ) (h : ∀ e ∈ es, ∀ s, obs (Effect.apply e s) = if hits e then v else obs s) :
    obs (applyAll es s) = if ∃ e ∈ es, hits e then v else obs s := by
  induction es generalizing s with
  | nil => exact (if_neg fun hx => by obtain ⟨e, he, -⟩ := hx; exact List.not_mem_nil he).symm
  | cons e es ih =>
    have he := h e List.mem_cons_self s
    have hes := ih (Effect.apply e s) fun e' he' => h e' (List.mem_cons_of_mem _ he')
    calc obs (applyAll (e :: es) s) = obs (applyAll es (Effect.apply e s)) := rfl
      _ = if ∃ e' ∈ es, hits e' then v else obs (Effect.apply e s) := hes
      _ = if ∃ e' ∈ e :: es, hits e' then v else obs s := by
        rw [he]
        by_cases h1 : hits e <;> by_cases h2 : ∃ e' ∈ es, hits e' <;>
          simp only [List.mem_cons, exists_eq_or_imp, h1, h2, true_or, or_true, or_self, if_true,
            if_false, ite_self]

/-- What every effect of a list leaves alone, the whole list leaves alone. -/
theorem applyAll_keeps (obs : σ → β) (es : List ε) (s : σ)
    (h : ∀ e ∈ es, ∀ s, obs (Effect.apply e s) = obs s) : obs (applyAll es s) = obs s := by
  induction es generalizing s with
  | nil => rfl
  | cons e es ih =>
    calc obs (applyAll (e :: es) s) = obs (applyAll es (Effect.apply e s)) := rfl
      _ = obs (Effect.apply e s) := ih _ fun e' he' => h e' (List.mem_cons_of_mem _ he')
      _ = obs s := h e List.mem_cons_self s

/-! ## Commands in a larger state -/

section Larger

variable {τ : Type} [Effect ε τ] {proj : τ → σ}

/-- Effects on the larger state do to the part that the commands see what they do to it alone. -/
def Extends (ε : Type) [Effect ε σ] [Effect ε τ] (proj : τ → σ) : Prop :=
  ∀ (e : ε) t, proj (Effect.apply e t) = Effect.apply e (proj t)

/-- The larger state that a command leaves. -/
def runOn (proj : τ → σ) (m : Cmd ε σ α) (t : τ) : τ := applyAll (m.effects (proj t)) t

theorem Extends.applyAll (h : Extends ε proj) (es : List ε) (t : τ) :
    proj (applyAll es t) = Effects.applyAll es (proj t) := by
  induction es generalizing t with
  | nil => rfl
  | cons e es ih => exact (ih _).trans (congrArg (Effects.applyAll es) (h e t))

theorem Extends.runOn (h : Extends ε proj) (m : Cmd ε σ α) (t : τ) :
    proj (runOn proj m t) = m.final (proj t) := h.applyAll _ t

theorem runOn_bind (h : Extends ε proj) (m : Cmd ε σ α) (f : α → Cmd ε σ β) (t : τ) :
    runOn proj (m >>= f) t = runOn proj (f (m.value (proj t))) (runOn proj m t) := by
  show Effects.applyAll ((m >>= f).effects (proj t)) t =
    Effects.applyAll ((f (m.value (proj t))).effects (proj (runOn proj m t))) (runOn proj m t)
  rw [h.runOn, effects_bind, Effects.applyAll, List.foldl_append]
  rfl

/-- A loop over numbers keeps an invariant that its bodies carry on. -/
theorem runOn_range' (h : Extends ε proj) {f : ℕ → Cmd ε σ PUnit} {I : ℕ → τ → Prop} (n k : ℕ)
    {t : τ} (h0 : I k t)
    (hstep : ∀ i, k ≤ i → i < k + n → ∀ t, I i t → I (i + 1) (runOn proj (f i) t)) :
    I (k + n) (runOn proj ((List.range' k n).forM f) t) := by
  induction n generalizing k t with
  | zero => exact h0
  | succ n ih =>
    have hcons : (List.range' k (n + 1)).forM f =
        (f k >>= fun _ => (List.range' (k + 1) n).forM f : Cmd ε σ PUnit) := by
      rw [List.range'_succ]
      rfl
    rw [hcons, runOn_bind h, Nat.add_succ, ← Nat.succ_add]
    exact ih (k + 1) (hstep k (Nat.le_refl k) (by omega) t h0)
      fun i hi hlt t => hstep i (by omega) (by omega) t

theorem runOn_range (h : Extends ε proj) {f : ℕ → Cmd ε σ PUnit} {I : ℕ → τ → Prop} (n : ℕ) {t : τ}
    (h0 : I 0 t) (hstep : ∀ i < n, ∀ t, I i t → I (i + 1) (runOn proj (f i) t)) :
    I n (runOn proj ((List.range n).forM f) t) := by
  have hrun := runOn_range' h n 0 h0 fun i _ hi => hstep i (by omega)
  rwa [Nat.zero_add, ← List.range_eq_range'] at hrun

end Larger

end Cmd

end Effects
