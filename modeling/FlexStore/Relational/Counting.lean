import FlexStore.Relational.Table
import Mathlib.Data.Set.Card

/-!
# Counting rows by their keys

`COUNT(*)` of the rows that satisfy a condition is the cardinality of the set of their keys.
Sets can be compared across statements where lists of rows cannot: a statement that moves
rows from one set into another moves the difference of the counts with them.
-/

namespace Relational.Table

variable {ρ κ : Type} {key : ρ → κ} [DecidableEq κ] (t : Table key) (p : ρ → Bool)

theorem coe_toFinset_select :
    (((t.select p).map key).toFinset : Set κ) = {k | (t.find? k).any p} := by
  ext k
  rw [Finset.mem_coe, List.mem_toFinset]
  exact mem_map_key_select

theorem count_eq_ncard : t.count p = {k | (t.find? k).any p}.ncard := by
  rw [← coe_toFinset_select, Set.ncard_coe_finset, List.toFinset_card_of_nodup (nodup_select t p),
    List.length_map, count, List.countP_eq_length_filter]
  rfl

theorem finite_keys : {k | (t.find? k).any p}.Finite := by
  rw [← coe_toFinset_select]
  exact Finset.finite_toSet _

omit [DecidableEq κ] in
/-- A selection does not see an update of rows that it selects neither before nor after. -/
theorem select_updateWhere {t : Table key} {p q : ρ → Bool} {f : ρ → ρ}
    (keep : ∀ r, key (f r) = key r) (apart : ∀ r, p r → q r = false ∧ q (f r) = false) :
    (t.updateWhere p f keep).select q = t.select q := by
  simp only [select, updateWhere]
  induction t.rows with
  | nil => rfl
  | cons r rest ih =>
    rw [List.map_cons, List.filter_cons, List.filter_cons, ih]
    by_cases chosen : p r
    · simp [chosen, apart r chosen]
    · simp [chosen]

end Relational.Table
