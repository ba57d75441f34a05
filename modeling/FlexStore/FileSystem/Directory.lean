import FlexStore.Relational.Table
import Mathlib.Algebra.BigOperators.Group.List.Basic
import Mathlib.Algebra.Order.BigOperators.Group.List
import Mathlib.Algebra.Order.Ring.Int

/-!
# Directories

A directory has files under names, each with its bytes. Writing a name replaces the file
that has it. `size` and `count` are what a walk over the directory adds up; the lemmas say
how one change moves them.
-/

namespace FileSystem

open Relational

variable {ν β : Type}

/-- The files of a directory, under their names. -/
abbrev Directory (ν β : Type) := Table (Prod.fst : ν × List β → ν)

namespace Directory

def size (d : Directory ν β) : Int := (d.rows.map fun f => (f.2.length : Int)).sum

def count (d : Directory ν β) : Int := d.rows.length

theorem size_nonneg (d : Directory ν β) : 0 ≤ d.size := by
  refine List.sum_nonneg fun n listed => ?_
  obtain ⟨file, -, rfl⟩ := List.mem_map.mp listed
  exact Int.natCast_nonneg _

variable [DecidableEq ν]

def read (d : Directory ν β) (name : ν) : Option (List β) := (d.find? name).map Prod.snd

/-- A file takes the place of the one that has the name. -/
def put (d : Directory ν β) (name : ν) (bytes : List β) : Directory ν β :=
  d.upsert (name, bytes) fun f => (f.1, bytes)

def remove (d : Directory ν β) (name : ν) : Directory ν β := d.deleteWhere fun f => f.1 = name

/-- Every file is removed, one after the other. -/
def clear (d : Directory ν β) : Directory ν β :=
  d.rows.foldl (fun rest f => remove rest f.1) d

variable {d : Directory ν β} {name : ν} {bytes : List β}

theorem read_put (d : Directory ν β) (name other : ν) (bytes : List β) :
    (d.put name bytes).read other = if other = name then some bytes else d.read other := by
  unfold put read
  rw [Table.find?_upsert]
  by_cases same : other = name
  · subst same
    rw [if_pos rfl, if_pos rfl]
    cases d.find? other <;> rfl
  · rw [if_neg same, if_neg fun h => same h.symm]

theorem read_remove (d : Directory ν β) (name other : ν) :
    (d.remove name).read other = if other = name then none else d.read other := by
  unfold remove read
  rw [Table.find?_deleteWhere]
  cases found : d.find? other with
  | none => simp
  | some f =>
    have named : f.1 = other := (Table.mem_of_find? found).2
    by_cases same : other = name
    · simp [named, same]
    · rw [if_neg same, Option.filter_some, if_pos (by simp [named, same])]

/-- Nothing is left after every file has been removed. -/
theorem read_clear (d : Directory ν β) (name : ν) : d.clear.read name = none := by
  have gone (files : List (ν × List β)) (rest : Directory ν β)
      (all : ∀ other, rest.read other ≠ none → other ∈ files.map Prod.fst) :
      (files.foldl (fun rest f => remove rest f.1) rest).read name = none := by
    induction files generalizing rest with
    | nil =>
      by_contra left
      exact (List.not_mem_nil (all name left)).elim
    | cons f files ih =>
      refine ih _ fun other left => ?_
      rw [read_remove] at left
      split_ifs at left with same
      · exact absurd rfl left
      · exact (List.mem_cons.mp (all other left)).resolve_left same
  refine gone d.rows d fun other there => ?_
  obtain ⟨f, found⟩ := Option.isSome_iff_exists.mp (Option.isSome_map.symm.trans
    (Option.isSome_iff_ne_none.mpr there))
  obtain ⟨listed, rfl⟩ := Table.mem_of_find? found
  exact List.mem_map_of_mem listed

section Walk

/-- The other files of a directory, around one that is found. -/
theorem rows_of_read (found : d.read name = some bytes) :
    ∃ front back, d.rows = front ++ (name, bytes) :: back ∧ ∀ f ∈ front ++ back, f.1 ≠ name := by
  obtain ⟨f, held, rfl⟩ := Option.map_eq_some_iff.mp found
  obtain ⟨listed, rfl⟩ := Table.mem_of_find? held
  obtain ⟨front, back, split⟩ := List.append_of_mem listed
  refine ⟨front, back, split, fun g other same => ?_⟩
  have distinct := d.nodup
  rw [split, List.map_append, List.map_cons, List.nodup_middle, ← List.map_append,
    List.nodup_cons] at distinct
  exact distinct.1 (same ▸ List.mem_map_of_mem other)

/-- A new file adds to what a walk finds. -/
theorem walk_put_new (fresh : d.read name = none) (bytes : List β) :
    (d.put name bytes).size = d.size + bytes.length ∧ (d.put name bytes).count = d.count + 1 := by
  have absent : d.find? name = none := Option.map_eq_none_iff.mp fresh
  have rows : (d.put name bytes).rows = d.rows ++ [(name, bytes)] := by
    unfold put Table.upsert
    rw [dif_pos (show d.find? (name, bytes).1 = none from absent)]
    rfl
  unfold size count
  rw [rows]
  simp

/-- A file that is removed is taken out. -/
theorem walk_remove (found : d.read name = some bytes) :
    (d.remove name).size = d.size - bytes.length ∧ (d.remove name).count = d.count - 1 := by
  obtain ⟨front, back, split, others⟩ := rows_of_read found
  have rows : (d.remove name).rows = front ++ back := by
    unfold remove Table.deleteWhere
    have kept : (front ++ back).filter (fun f => !decide (f.1 = name)) = front ++ back := by
      refine List.filter_eq_self.mpr fun f listed => ?_
      simpa using others f listed
    rw [List.filter_append] at kept
    simp only [split, List.filter_append, List.filter_cons]
    simpa using kept
  unfold size count
  rw [rows, split]
  simp
  omega

end Walk

end Directory

end FileSystem
