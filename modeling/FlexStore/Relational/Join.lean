import FlexStore.Relational.Table

/-!
# Outer joins

`LEFT JOIN` keeps the rows of the left table that match nothing and gives them a row without
values on the right. A condition in the `WHERE` clause that is about the right table removes
them again, since a comparison with `NULL` does not hold: what is left is the inner join.
-/

namespace Relational

variable {α β κ : Type} (on : α → β → Bool) (left : List α) (right : List β)

/-- What a row of the left table is joined to. -/
def partners (a : α) : List (Option β) :=
  if right.any (on a) then (right.filter (on a)).map some else [none]

/-- `left LEFT JOIN right ON on`. -/
def leftJoin : List (α × Option β) :=
  left.flatMap fun a => (partners on right a).map fun b => (a, b)

theorem on_of_mem_partners {a : α} {b : β} (joined : some b ∈ partners on right a) :
    b ∈ right ∧ on a b := by
  unfold partners at joined
  split_ifs at joined
  · obtain ⟨b', listed, same⟩ := List.mem_map.mp joined
    cases same
    exact List.mem_filter.mp listed
  · cases List.mem_singleton.mp joined

/-- A condition on the left table can be applied first. -/
theorem filter_leftJoin (p : α → Bool) :
    (leftJoin on left right).filter (fun row => p row.1) = leftJoin on (left.filter p) right := by
  induction left with
  | nil => rfl
  | cons a rest ih =>
    have here : ((partners on right a).map fun b => (a, b)).filter (fun row => p row.1) =
        if p a then (partners on right a).map fun b => (a, b) else [] := by
      rw [List.filter_map]
      cases selected : p a <;> simp [Function.comp_def, selected]
    unfold leftJoin at ih ⊢
    rw [List.flatMap_cons, List.filter_append, here, ih, List.filter_cons]
    split_ifs <;> rfl

/-- A condition on the right table leaves the rows that the inner join has. -/
theorem filter_any_partners (q : β → Bool) (a : α) :
    (partners on right a).filter (·.any q) =
      (right.filter fun b => q b && on a b).map some := by
  unfold partners
  split_ifs with matched
  · rw [List.filter_map, List.filter_filter]
    rfl
  · have unmatched : right.filter (fun b => q b && on a b) = [] := by
      refine List.filter_eq_nil_iff.mpr fun b listed both => matched ?_
      exact List.any_eq_true.mpr ⟨b, listed, (Bool.and_eq_true _ _ ▸ both).2⟩
    rw [unmatched]
    rfl

/-- The join with a table on its key adds the row that is found under it. -/
theorem leftJoin_key [DecidableEq κ] {key : β → κ} (t : Table key) (reference : α → Option κ) :
    leftJoin (fun a b => reference a = some (key b)) left t.rows =
      left.map fun a => (a, (reference a).bind t.find?) := by
  have single (a : α) : partners (fun a b => reference a = some (key b)) t.rows a =
      [(reference a).bind t.find?] := by
    have found_iff (b : β) : (reference a).bind t.find? = some b ↔
        b ∈ t.rows.filter fun b => reference a = some (key b) := by
      rw [Option.bind_eq_some_iff, List.mem_filter, decide_eq_true_eq]
      constructor
      · rintro ⟨k, names, found⟩
        obtain ⟨listed, rfl⟩ := Table.mem_of_find? found
        exact ⟨listed, names⟩
      · rintro ⟨listed, names⟩
        exact ⟨key b, names, Table.find?_of_mem listed⟩
    unfold partners
    cases found : (reference a).bind t.find? with
    | some b =>
      have listed := (found_iff b).mp found
      have only : t.rows.filter (fun b => reference a = some (key b)) = [b] := by
        refine List.perm_singleton.mp ((List.perm_ext_iff_of_nodup
          (t.nodup.of_map.filter _) (List.nodup_singleton b)).mpr fun c => ?_)
        rw [← found_iff c, found, List.mem_singleton, Option.some.injEq]
        exact eq_comm
      obtain ⟨inTable, names⟩ := List.mem_filter.mp listed
      rw [if_pos (List.any_eq_true.mpr ⟨b, inTable, names⟩), only]
      rfl
    | none =>
      rw [if_neg]
      rintro matched
      obtain ⟨b, inTable, names⟩ := List.any_eq_true.mp matched
      have := (found_iff b).mpr (List.mem_filter.mpr ⟨inTable, names⟩)
      rw [found] at this
      cases this
  unfold leftJoin
  rw [← List.flatMap_pure_eq_map]
  congr 1
  funext a
  rw [single, List.map_singleton]
  rfl

end Relational
