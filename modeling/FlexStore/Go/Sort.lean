import FlexStore.Go.Float
import Mathlib.Data.List.Sort

/-!
# Sorting by a comparison

`sort.Slice` promises a sorted slice if the comparison is a strict weak order, and says
nothing about elements that neither precedes. If these are equal, there is one sorted
arrangement only: the result does not depend on the order of the input, and leaving out
elements before or after sorting is the same.
-/

namespace Go

variable {α : Type}

/-- The comparison is irreflexive and transitive, and so is being neither before nor behind. -/
structure StrictWeak (less : α → α → Bool) : Prop where
  irrefl : ∀ a, less a a = false
  trans : ∀ a b c, less a b → less b c → less a c
  split : ∀ a b c, less a c → less a b ∨ less b c

/-- A comparison by a key. -/
theorem StrictWeak.of_key {β : Type} [LinearOrder β] (key : α → β) {less : α → α → Bool}
    (compares : ∀ a b, less a b = true ↔ key a < key b) : StrictWeak less where
  irrefl a := by
    rw [Bool.eq_false_iff]
    intro before
    exact lt_irrefl _ ((compares a a).mp before)
  trans a b c first second := by
    rw [compares] at first second ⊢
    exact first.trans second
  split a b c before := by
    rw [compares] at before
    obtain left | right := lt_or_ge (key a) (key b)
    · exact Or.inl ((compares a b).mpr left)
    · exact Or.inr ((compares b c).mpr (right.trans_lt before))

/-- No element of the list is before one that stands in front of it. -/
def Sorted (less : α → α → Bool) (l : List α) : Prop :=
  l.Pairwise fun a b => less b a = false

/-- `sort.Slice` with its promise. -/
structure SliceSort extends Sorter where
  sorted : ∀ {α : Type} {less : α → α → Bool} (l : List α), StrictWeak less →
    Sorted less (sort less l)

/-- Sorting by merging keeps the promise. -/
def SliceSort.merge : SliceSort where
  toSorter := Sorter.merge
  sorted := by
    intro α less l weak
    have placed : (l.mergeSort fun a b => !less b a).Pairwise fun a b => (!less b a) = true := by
      apply List.pairwise_mergeSort
      · intro a b c first second
        simp only [Bool.not_eq_true'] at first second ⊢
        rw [Bool.eq_false_iff]
        intro before
        obtain left | right := weak.split c b a before
        · exact absurd left (Bool.eq_false_iff.mp second)
        · exact absurd right (Bool.eq_false_iff.mp first)
      · intro a b
        rw [Bool.or_eq_true, Bool.not_eq_true', Bool.not_eq_true']
        by_contra both
        push Not at both
        simp only [ne_eq, Bool.not_eq_false] at both
        have loop := weak.trans b a b both.1 both.2
        rw [weak.irrefl] at loop
        cases loop
    exact placed.imp fun h => by simpa using h

variable {less : α → α → Bool} {l l' : List α}

/-- Elements of the list that neither precedes are equal. -/
def Decided (less : α → α → Bool) (l : List α) : Prop :=
  ∀ a ∈ l, ∀ b ∈ l, less a b = false → less b a = false → a = b

theorem Decided.mono (decided : Decided less l) (part : l' ⊆ l) : Decided less l' :=
  fun a mem b mem' => decided a (part mem) b (part mem')

/-- Two sorted arrangements of the same elements are one. -/
theorem Sorted.unique (decided : Decided less l) (perm : l.Perm l') (first : Sorted less l)
    (second : Sorted less l') : l = l' := by
  refine List.Perm.eq_of_pairwise ?_ first second perm
  intro a b mem mem' ahead behind
  exact decided a mem b (perm.mem_iff.mpr mem') behind ahead

namespace SliceSort

variable (sorter : SliceSort)

variable (weak : StrictWeak less) (decided : Decided less l)
include weak decided

/-- A sorted arrangement of the list is the one that is returned. -/
theorem sort_eq (perm : l.Perm l') (sorted : Sorted less l') : sorter.sort less l = l' := by
  have inside : Decided less (sorter.sort less l) := decided.mono (sorter.perm less l).subset
  exact Sorted.unique inside ((sorter.perm less l).trans perm) (sorter.sorted l weak) sorted

/-- The order of the input does not matter. -/
theorem sort_perm (perm : l.Perm l') : sorter.sort less l = sorter.sort less l' :=
  sorter.sort_eq weak decided (perm.trans (sorter.perm less l').symm) (sorter.sorted l' weak)

/-- Leaving out elements before or after sorting is the same. -/
theorem sort_filter (p : α → Bool) :
    sorter.sort less (l.filter p) = (sorter.sort less l).filter p := by
  apply sorter.sort_eq weak (decided.mono (List.filter_subset_self _))
  · exact (sorter.perm less l).symm.filter p
  · exact (sorter.sorted l weak).filter p

end SliceSort

end Go
