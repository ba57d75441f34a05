import Mathlib.Logic.Function.Basic

/-!
# Moves of single rows

A table as a partial function of its key, and a relation between what a key has before a
statement and after it. A statement that writes one row, changes the selected rows or deletes
them moves every key along the relation if it moves the rows that it touches.
-/

namespace Relational

variable {κ ρ : Type} [DecidableEq κ]

/-- A row is written. -/
theorem move_of_update {R : κ → Option ρ → Option ρ → Prop} {rows rows' : κ → Option ρ}
    {id k : κ} {old new : Option ρ} (after : rows' = Function.update rows id new)
    (before : rows id = old) (own : R id old new) (same : ∀ o, R k o o) :
    R k (rows k) (rows' k) := by
  rw [after]
  by_cases here : k = id
  · subst here
    rwa [before, Function.update_self]
  · rw [Function.update_of_ne here]
    exact same _

variable {R : Option ρ → Option ρ → Prop} {o o' : Option ρ}

/-- The selected rows are changed. -/
theorem move_of_map {p : ρ → Prop} [DecidablePred p] {f : ρ → ρ}
    (after : o' = o.map fun row => if p row then f row else row)
    (selected : ∀ row, o = some row → p row → R (some row) (some (f row)))
    (same : ∀ o, R o o) : R o o' := by
  rw [after]
  cases o with
  | none => exact same none
  | some row =>
    by_cases chosen : p row
    · rw [Option.map_some, if_pos chosen]
      exact selected row rfl chosen
    · rw [Option.map_some, if_neg chosen]
      exact same _

/-- The selected rows are deleted. -/
theorem move_of_filter {p : ρ → Bool} (after : o' = o.filter fun row => !p row)
    (selected : ∀ row, o = some row → p row → R (some row) none) (same : ∀ o, R o o) :
    R o o' := by
  rw [after]
  cases o with
  | none => exact same none
  | some row =>
    by_cases chosen : p row = true
    · simpa [Option.filter_some, chosen] using selected row rfl chosen
    · simpa [Option.filter_some, chosen] using same (some row)

end Relational
