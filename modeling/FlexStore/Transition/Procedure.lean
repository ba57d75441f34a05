import FlexStore.Transition.Fallible

/-!
# Procedures: computations that fail and keep what they did

A `Procedure` acts on a state and returns a value or an error. Unlike a transaction it
does not roll back: what it did before it failed stays done. A caller of several
transactions is a procedure.

A successful sequence is inverted step by step with `bind_ok`, and a sequence raises no
errors but those of its steps (`Raises`).
-/

namespace Transition

/-- A computation on a state `σ` that returns an `α` or fails with an `ε`. -/
def Procedure (σ ε α : Type) := σ → Except ε α × σ

namespace Procedure

variable {σ τ ε δ α β : Type}

instance : Monad (Procedure σ ε) where
  pure a := fun s => (.ok a, s)
  bind x f := fun s =>
    match x s with
    | (.ok a, s') => f a s'
    | (.error e, s') => (.error e, s')

def fail (e : ε) : Procedure σ ε α := fun s => (.error e, s)

/-- A transaction: a refused one leaves the state alone. -/
def transact (f : σ → Except ε (α × σ)) : Procedure σ ε α := fun s =>
  match f s with
  | .ok (a, s') => (.ok a, s')
  | .error e => (.error e, s)

/-- A procedure on a part of the state, with its errors renamed. -/
def within (get : τ → σ) (set : τ → σ → τ) (rename : ε → δ) (x : Procedure σ ε α) :
    Procedure τ δ α := fun t =>
  match x (get t) with
  | (.ok a, s) => (.ok a, set t s)
  | (.error e, s) => (.error (rename e), set t s)

/-- Handle a failure: `handler` runs in the state that the failed procedure left. -/
def catching (x : Procedure σ ε α) (handler : ε → Procedure σ ε α) : Procedure σ ε α := fun s =>
  match x s with
  | (.ok a, s') => (.ok a, s')
  | (.error e, s') => handler e s'

/-- Run for the effect only: the outcome is not looked at. -/
def attempt (x : Procedure σ ε α) : Procedure σ δ Unit := fun s => (.ok (), (x s).2)

variable {s s' : σ}

variable {x : Procedure σ ε α} {f : α → Procedure σ ε β} {e : ε} {a : α}

theorem bind_ok {b : β} :
    (x >>= f) s = (.ok b, s') ↔ ∃ a m, x s = (.ok a, m) ∧ f a m = (.ok b, s') := by
  change (match x s with | (.ok a, m) => f a m | (.error e, m) => (.error e, m)) = _ ↔ _
  rcases x s with ⟨e | a, m⟩ <;> simp [and_assoc]

theorem bind_of_ok {m : σ} (h : x s = (.ok a, m)) : (x >>= f) s = f a m := by
  change (match x s with | (.ok a, m) => f a m | (.error e, m) => (.error e, m)) = _
  rw [h]

theorem bind_of_error {m : σ} (h : x s = (.error e, m)) : (x >>= f) s = (.error e, m) := by
  change (match x s with | (.ok a, m) => f a m | (.error e, m) => (.error e, m)) = _
  rw [h]

/-- A sequence fails in its first part or in its second. -/
theorem bind_error :
    (x >>= f) s = (.error e, s') ↔
      x s = (.error e, s') ∨ ∃ a m, x s = (.ok a, m) ∧ f a m = (.error e, s') := by
  cases out : (x s).1 with
  | error e' =>
    have split : x s = (.error e', (x s).2) := Prod.ext out rfl
    rw [bind_of_error split, split]
    simp
  | ok a =>
    have split : x s = (.ok a, (x s).2) := Prod.ext out rfl
    rw [bind_of_ok split, split]
    simp [and_assoc]

/-- Returning another value does not touch the state. -/
theorem bind_pure_state (x : Procedure σ ε α) (g : α → β) :
    ((x >>= fun a => pure (g a)) s).2 = (x s).2 := by
  rcases out : x s with ⟨e | a, m⟩
  · rw [bind_of_error out]
  · rw [bind_of_ok out]
    rfl

@[simp] theorem pure_run (a : α) : (pure a : Procedure σ ε α) s = (.ok a, s) := rfl

theorem transact_ok {f : σ → Except ε (α × σ)} :
    transact f s = (.ok a, s') ↔ f s = .ok (a, s') := by
  unfold transact
  cases f s <;> simp [Prod.ext_iff]

/-- What a refused transaction did is undone. -/
theorem transact_error {f : σ → Except ε (α × σ)} (h : transact f s = (.error e, s')) : s' = s := by
  unfold transact at h
  cases out : f s with
  | error e' =>
    rw [out] at h
    exact (Prod.mk.inj h).2.symm
  | ok r =>
    rw [out] at h
    cases h

theorem within_error {get : τ → σ} {set : τ → σ → τ} {rename : ε → δ} {t t' : τ} {d : δ}
    (h : within get set rename x t = (.error d, t')) : ∃ e, d = rename e := by
  unfold within at h
  rcases out : x (get t) with ⟨e | b, s⟩
  · rw [out] at h
    exact ⟨e, (Except.error.inj (Prod.mk.inj h).1).symm⟩
  · rw [out] at h
    cases h

theorem within_ok {get : τ → σ} {set : τ → σ → τ} {rename : ε → δ} {t t' : τ} :
    within get set rename x t = (.ok a, t') ↔
      ∃ s, x (get t) = (.ok a, s) ∧ set t s = t' := by
  unfold within
  rcases x (get t) with ⟨e | b, s⟩ <;> simp [and_assoc]

theorem catching_of_ok {handler : ε → Procedure σ ε α} (h : x s = (.ok a, s')) :
    x.catching handler s = (.ok a, s') := by
  rw [catching, h]

theorem catching_of_error {handler : ε → Procedure σ ε α} (h : x s = (.error e, s')) :
    x.catching handler s = handler e s' := by
  rw [catching, h]

/-- Every error of the procedure is of this kind. -/
def Raises (p : ε → Prop) (x : Procedure σ ε α) : Prop :=
  ∀ s s' e, x s = (.error e, s') → p e

variable {p : ε → Prop}

theorem raises_pure (a : α) : Raises p (pure a : Procedure σ ε α) :=
  fun _ _ _ h => by cases h

theorem raises_fail (kind : p e) : Raises p (fail e : Procedure σ ε α) := by
  intro s s' e' h
  obtain ⟨same, -⟩ := Prod.mk.inj h
  exact Except.error.inj same ▸ kind

theorem Raises.bind (first : Raises p x) (second : ∀ a, Raises p (f a)) : Raises p (x >>= f) := by
  intro s s' e h
  rcases out : x s with ⟨e' | a, m⟩
  · rw [bind_of_error out] at h
    obtain ⟨same, -⟩ := Prod.mk.inj h
    exact Except.error.inj same ▸ first s m e' out
  · rw [bind_of_ok out] at h
    exact second a m s' e h

theorem raises_within {get : τ → σ} {set : τ → σ → τ} {rename : ε → δ} {p : δ → Prop}
    (kind : ∀ e, p (rename e)) : Raises p (Procedure.within get set rename x) := by
  intro t t' e h
  unfold Procedure.within at h
  rcases out : x (get t) with ⟨e' | a, s⟩
  · rw [out] at h
    obtain ⟨same, -⟩ := Prod.mk.inj h
    exact Except.error.inj same ▸ kind e'
  · rw [out] at h
    cases h

end Procedure

end Transition
