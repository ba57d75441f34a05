import Mathlib.Data.List.Basic

/-!
# Errors as trees

An error may wrap one error, as `fmt.Errorf` with one `%w` makes it, or several, as
`errors.Join` and several `%w` do. A program may also declare a struct around an error, to
mark it. `errors.Is` and `errors.As` look at every error of the tree, an error before what
it wraps; `errors.Unwrap` answers only for an error that wraps one.
-/

namespace Go

/-- An error value. `ι` tells values apart, `μ` names the marking structs. -/
inductive ErrorTree (ι μ : Type) where
  | leaf (value : ι)
  | wrap (value : ι) (cause : ErrorTree ι μ)
  | multi (value : ι) (causes : List (ErrorTree ι μ))
  | marked (mark : μ) (cause : ErrorTree ι μ)

namespace ErrorTree

variable {ι μ : Type}

variable {mark : μ} {e target cause : ErrorTree ι μ}

mutual

/-- The errors of the tree, in the order in which they are looked at. -/
def nodes : ErrorTree ι μ → List (ErrorTree ι μ)
  | .leaf value => [.leaf value]
  | .wrap value cause => .wrap value cause :: cause.nodes
  | .multi value causes => .multi value causes :: nodesAll causes
  | .marked mark cause => .marked mark cause :: cause.nodes

def nodesAll : List (ErrorTree ι μ) → List (ErrorTree ι μ)
  | [] => []
  | e :: rest => e.nodes ++ nodesAll rest

end

/-- `errors.Is`. -/
def Is (e target : ErrorTree ι μ) : Prop := target ∈ e.nodes

def hasMark [DecidableEq μ] (mark : μ) : ErrorTree ι μ → Bool
  | .marked mark' _ => mark' = mark
  | _ => false

/-- `errors.As` for a marking struct: the first error of this type. -/
def as [DecidableEq μ] (mark : μ) (e : ErrorTree ι μ) : Option (ErrorTree ι μ) :=
  e.nodes.find? (hasMark mark)

/-- `errors.Unwrap`: `none` is `nil`. -/
def unwrap : ErrorTree ι μ → Option (ErrorTree ι μ)
  | .leaf _ => none
  | .wrap _ cause => some cause
  | .multi _ _ => none
  | .marked _ cause => some cause

/-- An induction has a hypothesis for every wrapped error. -/
theorem induction {P : ErrorTree ι μ → Prop} (leaf : ∀ value, P (.leaf value))
    (wrap : ∀ value cause, P cause → P (.wrap value cause))
    (multi : ∀ value causes, (∀ e ∈ causes, P e) → P (.multi value causes))
    (marked : ∀ mark cause, P cause → P (.marked mark cause)) (e : ErrorTree ι μ) : P e :=
  @ErrorTree.rec ι μ P (fun causes => ∀ e ∈ causes, P e) leaf wrap multi marked
    (fun _ listed => absurd listed List.not_mem_nil)
    (fun _ _ first rest => List.forall_mem_cons.mpr ⟨first, rest⟩) e

theorem nodesAll_eq (causes : List (ErrorTree ι μ)) : nodesAll causes = causes.flatMap nodes := by
  induction causes with
  | nil => rw [nodesAll, List.flatMap_nil]
  | cons e rest ih => rw [nodesAll, ih, List.flatMap_cons]

theorem Is.refl (e : ErrorTree ι μ) : e.Is e := by
  cases e <;> simp [Is, nodes]

theorem is_marked :
    (marked mark cause).Is target ↔ target = marked mark cause ∨ cause.Is target := by
  rw [Is, nodes, List.mem_cons, Is]

theorem is_wrap {value : ι} :
    (wrap value cause).Is target ↔ target = wrap value cause ∨ cause.Is target := by
  rw [Is, nodes, List.mem_cons, Is]

theorem is_multi {value : ι} {causes : List (ErrorTree ι μ)} :
    (multi value causes).Is target ↔
      target = multi value causes ∨ ∃ e ∈ causes, e.Is target := by
  rw [Is, nodes, List.mem_cons, nodesAll_eq, List.mem_flatMap]
  rfl

/-- What a wrapped error matches, the whole matches. -/
theorem Is.trans {middle : ErrorTree ι μ} (first : e.Is middle) (second : middle.Is target) :
    e.Is target := by
  induction e using ErrorTree.induction with
  | leaf value =>
    rw [Is, nodes, List.mem_singleton] at first
    rwa [first] at second
  | wrap value cause ih =>
    obtain rfl | inside := is_wrap.mp first
    · exact second
    · exact is_wrap.mpr (Or.inr (ih inside))
  | multi value causes ih =>
    obtain rfl | ⟨e, listed, inside⟩ := is_multi.mp first
    · exact second
    · exact is_multi.mpr (Or.inr ⟨e, listed, ih e listed inside⟩)
  | marked mark cause ih =>
    obtain rfl | inside := is_marked.mp first
    · exact second
    · exact is_marked.mpr (Or.inr (ih inside))

theorem hasMark_iff [DecidableEq μ] : e.hasMark mark = true ↔ ∃ cause, e = marked mark cause := by
  cases e with
  | marked mark' cause => simp [hasMark]
  | _ => simp [hasMark]

/-- A mark is found at any depth. -/
theorem isSome_as_iff [DecidableEq μ] : (e.as mark).isSome ↔ ∃ cause, e.Is (marked mark cause) := by
  rw [as, List.find?_isSome]
  constructor
  · rintro ⟨node, listed, found⟩
    obtain ⟨cause, rfl⟩ := hasMark_iff.mp found
    exact ⟨cause, listed⟩
  · rintro ⟨cause, listed⟩
    exact ⟨_, listed, hasMark_iff.mpr ⟨cause, rfl⟩⟩

/-- An error that does not wrap several is unwrapped to one that still matches whatever it
had marked. -/
theorem unwrap_is (single : ∀ value causes, e ≠ multi value causes)
    (found : e.Is (marked mark cause)) : ∃ e', e.unwrap = some e' ∧ e'.Is cause := by
  have inside : (marked mark cause).Is cause := is_marked.mpr (Or.inr (Is.refl cause))
  cases e with
  | leaf value =>
    rw [Is, nodes, List.mem_singleton] at found
    cases found
  | wrap value cause' =>
    obtain same | found := is_wrap.mp found
    · cases same
    · exact ⟨cause', rfl, found.trans inside⟩
  | multi value causes => exact absurd rfl (single value causes)
  | marked mark' cause' =>
    obtain same | found := is_marked.mp found
    · cases same
      exact ⟨cause, rfl, Is.refl cause⟩
    · exact ⟨cause', rfl, found.trans inside⟩

end ErrorTree

end Go
