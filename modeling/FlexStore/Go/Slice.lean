import Mathlib.Data.List.Basic

/-!
# Slices

A slice is a window of an array: where it starts, how long it is, and how far it may grow in
place. Slices of one array share its elements. `append` writes behind the end of the slice if
the capacity allows it, and so changes every other slice that covers these places; otherwise
it copies to a new array. A slice is valid in a heap if its capacity lies within its array.
-/

namespace Go

/-- The arrays that have been allocated, by their numbers. -/
structure Heap (α : Type) where
  arrays : List (List α)

structure Slice where
  array : Nat
  offset : Nat
  len : Nat
  cap : Nat
  deriving DecidableEq, Repr

variable {α : Type}

namespace Heap

def elements (h : Heap α) (array : Nat) : List α := h.arrays.getD array []

def write (h : Heap α) (array position : Nat) (data : List α) : Heap α :=
  ⟨h.arrays.set array ((h.elements array).take position ++ data ++
    (h.elements array).drop (position + data.length))⟩

/-- A new array, and the slice of it with length `len` and the whole array as capacity. -/
def allocate (h : Heap α) (elements : List α) (len : Nat) : Heap α × Slice :=
  (⟨h.arrays ++ [elements]⟩, ⟨h.arrays.length, 0, len, elements.length⟩)

end Heap

namespace Slice

def contents (h : Heap α) (s : Slice) : List α :=
  ((h.elements s.array).drop s.offset).take s.len

structure Valid (h : Heap α) (s : Slice) : Prop where
  allocated : s.array < h.arrays.length
  len_le : s.len ≤ s.cap
  cap_le : s.offset + s.cap ≤ (h.elements s.array).length

/-- `s[low:high]`. -/
def reslice (s : Slice) (low high : Nat) : Slice :=
  ⟨s.array, s.offset + low, high - low, s.cap - low⟩

/-- `append(s, data...)`. A new array has the capacity that is needed and no more. -/
def append (h : Heap α) (s : Slice) (data : List α) : Heap α × Slice :=
  if s.len + data.length ≤ s.cap then
    (h.write s.array (s.offset + s.len) data, { s with len := s.len + data.length })
  else h.allocate (s.contents h ++ data) (s.len + data.length)

end Slice

/-- `make([]T, len, cap)`. -/
def makeSlice (h : Heap α) (zero : α) (len cap : Nat) : Heap α × Slice :=
  h.allocate (List.replicate cap zero) len

/-- The arrays of `h` are there in `h'` and have kept their lengths. -/
def Heap.Grows (h h' : Heap α) : Prop :=
  ∀ array < h.arrays.length,
    array < h'.arrays.length ∧ (h'.elements array).length = (h.elements array).length

variable {h h' : Heap α} {s : Slice} {data : List α}

theorem Heap.Grows.refl (h : Heap α) : h.Grows h := fun _ allocated => ⟨allocated, rfl⟩

theorem Heap.Grows.trans {h'' : Heap α} (first : h.Grows h') (second : h'.Grows h'') :
    h.Grows h'' := by
  intro array allocated
  obtain ⟨allocated, length⟩ := first array allocated
  obtain ⟨allocated, length'⟩ := second array allocated
  exact ⟨allocated, length'.trans length⟩

/-- A slice stays valid while its array keeps its length. -/
theorem Slice.Valid.mono (valid : s.Valid h) (grows : h.Grows h') : s.Valid h' := by
  obtain ⟨allocated, length⟩ := grows s.array valid.allocated
  exact ⟨allocated, valid.len_le, length ▸ valid.cap_le⟩

theorem Heap.elements_write {array : Nat} (allocated : array < h.arrays.length) (position : Nat)
    (data : List α) : (h.write array position data).elements array =
      (h.elements array).take position ++ data ++
        (h.elements array).drop (position + data.length) := by
  simp [Heap.write, Heap.elements, List.getD, allocated]

theorem Slice.Valid.length_contents (valid : s.Valid h) : (s.contents h).length = s.len := by
  have low := valid.len_le
  have high := valid.cap_le
  rw [Slice.contents, List.length_take, List.length_drop]
  omega

/-- A new slice is valid. -/
theorem Heap.allocate_valid {elements : List α} {len : Nat} (enough : len ≤ elements.length) :
    (h.allocate elements len).2.Valid (h.allocate elements len).1 where
  allocated := by simp [Heap.allocate]
  len_le := enough
  cap_le := by simp [Heap.allocate, Heap.elements]

theorem Heap.allocate_grows (h : Heap α) (elements : List α) (len : Nat) :
    h.Grows (h.allocate elements len).1 := by
  intro array allocated
  refine ⟨?_, ?_⟩
  · simp only [Heap.allocate, List.length_append, List.length_singleton]
    omega
  · simp [Heap.allocate, Heap.elements, List.getD, List.getElem?_append_left allocated]

theorem makeSlice_valid {zero : α} {len cap : Nat} (enough : len ≤ cap) :
    (makeSlice h zero len cap).2.Valid (makeSlice h zero len cap).1 :=
  Heap.allocate_valid (by simpa using enough)

/-- A part of a valid slice is valid. It may reach behind the length, up to the capacity. -/
theorem Slice.Valid.reslice {low high : Nat} (valid : s.Valid h) (order : low ≤ high)
    (inside : high ≤ s.cap) : (s.reslice low high).Valid h where
  allocated := valid.allocated
  len_le := by
    change high - low ≤ s.cap - low
    omega
  cap_le := by
    have within := valid.cap_le
    change s.offset + low + (s.cap - low) ≤ (h.elements s.array).length
    omega

/-- The elements of a part within the length. -/
theorem Slice.contents_reslice {low high : Nat} (inside : high ≤ s.len) :
    (s.reslice low high).contents h = ((s.contents h).take high).drop low := by
  rw [Slice.contents, Slice.contents, List.take_take, Nat.min_eq_left inside, List.drop_take,
    List.drop_drop]
  rfl

theorem Slice.contents_reslice_zero (s : Slice) (h : Heap α) : (s.reslice 0 0).contents h = [] := by
  simp [Slice.contents, Slice.reslice]

/-- Appending within the capacity keeps the array and the capacity. -/
theorem Slice.append_in_place (room : s.len + data.length ≤ s.cap) :
    s.append h data =
      (h.write s.array (s.offset + s.len) data, { s with len := s.len + data.length }) :=
  if_pos room

theorem Slice.Valid.append_in_place (valid : s.Valid h) (room : s.len + data.length ≤ s.cap) :
    (s.append h data).2.Valid (s.append h data).1 := by
  have within := valid.cap_le
  rw [Slice.append_in_place room]
  refine ⟨?_, room, ?_⟩
  · simpa [Heap.write] using valid.allocated
  · rw [Heap.elements_write valid.allocated]
    simp only [List.length_append, List.length_take, List.length_drop]
    omega

/-- Appending in place writes within the array. -/
theorem Slice.Valid.append_grows (valid : s.Valid h) (room : s.len + data.length ≤ s.cap) :
    h.Grows (s.append h data).1 := by
  have within := valid.cap_le
  rw [Slice.append_in_place room]
  intro array allocated
  refine ⟨by simpa [Heap.write] using allocated, ?_⟩
  by_cases same : array = s.array
  · subst same
    rw [Heap.elements_write valid.allocated]
    simp only [List.length_append, List.length_take, List.length_drop]
    omega
  · simp [Heap.write, Heap.elements, List.getD, Ne.symm same]

/-- The new elements stand behind the old ones. -/
theorem Slice.Valid.contents_append (valid : s.Valid h) (room : s.len + data.length ≤ s.cap) :
    (s.append h data).2.contents (s.append h data).1 = s.contents h ++ data := by
  have low := valid.len_le
  have within := valid.cap_le
  rw [Slice.append_in_place room, Slice.contents, Slice.contents,
    Heap.elements_write valid.allocated]
  simp only
  generalize h.elements s.array = elements at within
  have front : s.offset ≤ (elements.take (s.offset + s.len)).length := by
    rw [List.length_take]
    omega
  rw [List.append_assoc, List.drop_append_of_le_length front, List.drop_take,
    Nat.add_sub_cancel_left, ← List.append_assoc, List.take_left']
  rw [List.length_append, List.length_take, List.length_drop]
  omega

end Go
