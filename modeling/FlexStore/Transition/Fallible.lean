import Mathlib.Logic.Basic

/-!
# Computations that may refuse

`Except` is the result of a call that either fails, leaving its caller's state
alone, or succeeds with a new one. `require` and `lookup` are the two ways such a
call refuses: a condition that does not hold, and a row that is not there.

Inverting a successful call is the same argument everywhere, so it is stated once
as a family of `iff` lemmas: rewriting with them turns `call = .ok result` into
the conditions that were met and the values that were read, in program order.
-/

namespace Transition

variable {ε α β : Type}

/-- Refuse with `e` unless `p` holds. -/
def require (p : Prop) [Decidable p] (e : ε) : Except ε Unit := if p then .ok () else .error e

/-- Refuse with `e` unless the value is there. -/
def lookup (o : Option α) (e : ε) : Except ε α :=
  match o with
  | some a => .ok a
  | none => .error e

@[simp] theorem bind_eq_ok {x : Except ε α} {f : α → Except ε β} {b : β} :
    (x >>= f) = .ok b ↔ ∃ a, x = .ok a ∧ f a = .ok b := by
  cases x with
  | error e | ok a => simp [bind, Except.bind]

@[simp] theorem pure_eq_ok {a b : α} : (pure a : Except ε α) = .ok b ↔ a = b := by
  simp [pure, Except.pure]

@[simp] theorem require_eq_ok {p : Prop} [Decidable p] {e : ε} {u : Unit} :
    require p e = .ok u ↔ p := by
  unfold require
  split <;> simp_all

@[simp] theorem lookup_eq_ok {o : Option α} {e : ε} {a : α} :
    lookup o e = .ok a ↔ o = some a := by
  cases o <;> simp [lookup]

theorem toOption_eq_some {x : Except ε α} {a : α} : x.toOption = some a ↔ x = .ok a := by
  cases x <;> simp [Except.toOption]

@[simp] theorem bind_eq_error {x : Except ε α} {f : α → Except ε β} {e : ε} :
    (x >>= f) = .error e ↔ x = .error e ∨ ∃ a, x = .ok a ∧ f a = .error e := by
  cases x with
  | error e | ok a => simp [bind, Except.bind]

@[simp] theorem pure_ne_error {a : α} {e : ε} : (pure a : Except ε α) ≠ .error e := by
  simp [pure, Except.pure]

@[simp] theorem require_eq_error {p : Prop} [Decidable p] {e e' : ε} :
    require p e = .error e' ↔ ¬p ∧ e = e' := by
  unfold require
  split <;> simp_all

@[simp] theorem lookup_eq_error {o : Option α} {e e' : ε} :
    lookup o e = .error e' ↔ o = none ∧ e = e' := by
  cases o <;> simp [lookup]

/-- A loop that is refused was refused by one of its passes. -/
theorem foldlM_eq_error {σ : Type} {body : σ → α → Except ε σ} {items : List α} {s : σ} {e : ε}
    (h : items.foldlM body s = .error e) : ∃ s a, body s a = .error e := by
  induction items generalizing s with
  | nil => exact absurd h pure_ne_error
  | cons a rest ih =>
    rw [List.foldlM_cons, bind_eq_error] at h
    rcases h with refused | ⟨middle, -, remaining⟩
    · exact ⟨s, a, refused⟩
    · exact ih remaining

end Transition
