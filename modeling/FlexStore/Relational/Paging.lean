import FlexStore.Relational.Table

/-!
# Keyset pagination

A query with `WHERE column > after ORDER BY column LIMIT limit` reads a table page by page.
The rows behind the cursor can change or lose what made them selected without harm: as long
as the condition holds of the same rows ahead of the cursor, the next page is the next part
of the list that one query would have returned at the start.
-/

namespace Relational.Table

variable {ρ κ : Type} {key : ρ → κ} {t : Table key} {p q : ρ → Bool} {column : ρ → Nat}
  {after limit : Nat} {done rest : List ρ}

/-- `SELECT ... WHERE p ORDER BY column`. -/
def ordered (t : Table key) (p : ρ → Bool) (column : ρ → Nat) : List ρ :=
  (t.select p).insertionSort fun a b => column a ≤ column b

/-- `SELECT ... WHERE column > after AND p ORDER BY column LIMIT limit`. -/
def page (t : Table key) (p : ρ → Bool) (column : ρ → Nat) (after limit : Nat) : List ρ :=
  (t.ordered (fun r => after < column r && p r) column).take limit

theorem mem_ordered {r : ρ} : r ∈ t.ordered p column ↔ r ∈ t.rows ∧ p r := by
  rw [ordered, List.mem_insertionSort, select, List.mem_filter]

theorem pairwise_ordered (t : Table key) (p : ρ → Bool) (column : ρ → Nat) :
    (t.ordered p column).Pairwise fun a b => column a ≤ column b := by
  have total : Std.Total fun a b : ρ => column a ≤ column b := ⟨fun a b => Nat.le_total _ _⟩
  have trans : IsTrans ρ fun a b : ρ => column a ≤ column b := ⟨fun _ _ _ => Nat.le_trans⟩
  exact List.pairwise_insertionSort _ _

theorem nodup_ordered (t : Table key) (p : ρ → Bool) (column : ρ → Nat) :
    (t.ordered p column).Nodup :=
  (List.perm_insertionSort _ _).nodup_iff.mpr (nodup_select t p).of_map

section Unique

variable (unique : ∀ a ∈ t.rows, ∀ b ∈ t.rows, column a = column b → a = b)

include unique

/-- The rows after a given one are strictly ahead of it. -/
theorem ahead_of_ordered {r : ρ} (split : t.ordered p column = done ++ [r] ++ rest) :
    (∀ a ∈ done ++ [r], column a ≤ column r) ∧ ∀ b ∈ rest, column r < column b := by
  have sorted := pairwise_ordered t p column
  have distinct := nodup_ordered t p column
  rw [split] at sorted distinct
  obtain ⟨front, -, across⟩ := List.pairwise_append.mp sorted
  refine ⟨fun a member => ?_, fun b member => ?_⟩
  · rcases List.mem_append.mp member with early | last
    · exact (List.pairwise_append.mp front).2.2 a early r List.mem_cons_self
    · rw [List.mem_singleton.mp last]
  · have listed : r ∈ done ++ [r] := by simp
    have inTable {x : ρ} (x_mem : x ∈ done ++ [r] ++ rest) : x ∈ t.rows := by
      rw [← split] at x_mem
      exact (mem_ordered.mp x_mem).1
    refine Nat.lt_of_le_of_ne (across r listed b member) fun same => ?_
    have equal := unique r (inTable (List.mem_append_left _ listed)) b
      (inTable (List.mem_append_right _ member)) same
    exact List.disjoint_of_nodup_append distinct listed (equal ▸ member)

/-- The next page is the next part of the list, if the rows ahead of the cursor are selected
as they were. -/
theorem page_of_split (split : t.ordered q column = done ++ rest)
    (behind : ∀ a ∈ done, column a ≤ after) (ahead : ∀ b ∈ rest, after < column b)
    (same : ∀ r ∈ t.rows, after < column r → p r = q r) :
    t.page p column after limit = rest.take limit := by
  have sorted := pairwise_ordered t q column
  have distinct := nodup_ordered t q column
  rw [split] at sorted distinct
  have members (r : ρ) : r ∈ t.ordered (fun r => after < column r && p r) column ↔ r ∈ rest := by
    have listed : r ∈ done ++ rest ↔ r ∈ t.rows ∧ q r := by rw [← split, mem_ordered]
    rw [mem_ordered, Bool.and_eq_true, decide_eq_true_eq]
    constructor
    · rintro ⟨member, above, selected⟩
      rw [same r member above] at selected
      refine (List.mem_append.mp (listed.mpr ⟨member, selected⟩)).resolve_left fun early => ?_
      exact absurd above (Nat.not_lt.mpr (behind r early))
    · intro member
      obtain ⟨inTable, selected⟩ := listed.mp (List.mem_append_right _ member)
      exact ⟨inTable, ahead r member, (same r inTable (ahead r member)).trans selected⟩
  have perm : (t.ordered (fun r => after < column r && p r) column).Perm rest :=
    (List.perm_ext_iff_of_nodup (nodup_ordered t _ column)
      (List.nodup_append.mp distinct).2.1).mpr members
  rw [page, List.Perm.eq_of_pairwise ?_ (pairwise_ordered t _ column)
    (List.pairwise_append.mp sorted).2.1 perm]
  intro a b first second below above
  have inTable {x : ρ} (listed : x ∈ rest) : x ∈ t.rows :=
    (mem_ordered.mp ((members x).mpr listed)).1
  exact unique a (inTable ((members a).mp first)) b (inTable second)
    (Nat.le_antisymm below above)

end Unique

end Relational.Table
