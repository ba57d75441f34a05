import FlexStore.Transition.Run
import Mathlib.Algebra.BigOperators.Group.List.Basic
import Mathlib.Algebra.Order.Ring.Int
import Mathlib.Data.List.Pairwise

/-!
# Calls over a shared state

Calls are started at any time and take their steps in any order. A step of one call changes
the shared state and that call. Two rules carry what one step does to a whole run: a
quantity that the calls owe to the shared state stays balanced, and what each call relies on
survives the steps of the calls that are apart from it.
-/

namespace Transition

variable {σ π α : Type}

/-- The shared state and the calls, in the order in which they were started. -/
structure Pool (σ π : Type) where
  shared : σ
  calls : List π

namespace Pool

inductive Action (π α : Type) where
  | start (call : π)
  | advance (i : Nat) (choice : α)

def step (advance : σ → α → π → σ × π) (s : Pool σ π) : Action π α → Pool σ π
  | .start call => { s with calls := s.calls ++ [call] }
  | .advance i choice =>
    match s.calls[i]? with
    | none => s
    | some call =>
      ⟨(advance s.shared choice call).1, s.calls.set i (advance s.shared choice call).2⟩

variable {advance : σ → α → π → σ × π} {s : Pool σ π}

/-- The calls around the one that takes a step. -/
theorem step_advance (advance : σ → α → π → σ × π) {i : Nat} {call : π}
    (found : s.calls[i]? = some call) (choice : α) :
    ∃ front back, s.calls = front ++ call :: back ∧
      s.step advance (.advance i choice) = ⟨(advance s.shared choice call).1,
        front ++ (advance s.shared choice call).2 :: back⟩ := by
  obtain ⟨inside, rfl⟩ := List.getElem?_eq_some_iff.mp found
  refine ⟨s.calls.take i, s.calls.drop (i + 1), ?_, ?_⟩
  · rw [List.getElem_cons_drop, List.take_append_drop]
  · rw [step, found]
    dsimp only
    rw [List.set_eq_take_append_cons_drop, if_pos inside]

/-- What the shared state has and what the calls still owe to it. -/
def balance (value : σ → Int) (owed : π → Int) (s : Pool σ π) : Int :=
  value s.shared + (s.calls.map owed).sum

section Balance

variable {value : σ → Int} {owed : π → Int}

theorem balance_start {call : π} (nothing : owed call = 0) :
    (s.step advance (.start call)).balance value owed = s.balance value owed := by
  unfold balance step
  simp [nothing]

theorem balance_advance {i : Nat} {choice : α}
    (kept : ∀ call, s.calls[i]? = some call →
      value (advance s.shared choice call).1 + owed (advance s.shared choice call).2 =
        value s.shared + owed call) :
    (s.step advance (.advance i choice)).balance value owed = s.balance value owed := by
  cases found : s.calls[i]? with
  | none => rw [step, found]
  | some call =>
    obtain ⟨front, back, split, after⟩ := step_advance advance found choice
    have moved := kept call found
    rw [after]
    unfold balance
    rw [split]
    simp only [List.map_append, List.map_cons, List.sum_append, List.sum_cons]
    omega

end Balance

/-- Each call has what it relies on, and any two are apart. -/
structure Separate (Owns : σ → π → Prop) (Apart : π → π → Prop) (s : Pool σ π) : Prop where
  owns : ∀ call ∈ s.calls, Owns s.shared call
  apart : s.calls.Pairwise Apart

section Separate

variable {Owns : σ → π → Prop} {Apart : π → π → Prop}

theorem Separate.started (separate : s.Separate Owns Apart) {call : π} (own : Owns s.shared call)
    (apart : ∀ other ∈ s.calls, Apart other call) :
    (s.step advance (.start call)).Separate Owns Apart where
  owns other listed := by
    obtain old | new := List.mem_append.mp listed
    · exact separate.owns other old
    · rw [List.mem_singleton.mp new]
      exact own
  apart := by
    refine List.pairwise_append.mpr ⟨separate.apart, List.pairwise_singleton _ _, ?_⟩
    intro other listed new single
    rw [List.mem_singleton.mp single]
    exact apart other listed

theorem Separate.advanced (symm : ∀ {c d}, Apart c d → Apart d c)
    (separate : s.Separate Owns Apart) {i : Nat} {choice : α}
    (own : ∀ call, s.calls[i]? = some call → Owns s.shared call →
      Owns (advance s.shared choice call).1 (advance s.shared choice call).2)
    (others : ∀ call other, Owns s.shared call → Owns s.shared other → Apart call other →
      Owns (advance s.shared choice call).1 other ∧
        Apart (advance s.shared choice call).2 other) :
    (s.step advance (.advance i choice)).Separate Owns Apart := by
  cases found : s.calls[i]? with
  | none =>
    rw [step, found]
    exact separate
  | some call =>
    obtain ⟨front, back, split, after⟩ := step_advance advance found choice
    have owns := separate.owns
    have apart := separate.apart
    rw [split] at owns apart
    rw [List.pairwise_middle symm, List.pairwise_cons] at apart
    have held : Owns s.shared call := owns call (by simp)
    have around (other : π) (listed : other ∈ front ++ back) :
        Owns (advance s.shared choice call).1 other ∧
          Apart (advance s.shared choice call).2 other :=
      others call other held
        (owns other (List.perm_middle.mem_iff.mpr (List.mem_cons_of_mem call listed)))
        (apart.1 other listed)
    rw [after]
    refine ⟨fun other listed => ?_, ?_⟩
    · obtain rfl | listed := List.mem_cons.mp (List.perm_middle.mem_iff.mp listed)
      · exact own call found held
      · exact (around other listed).1
    · rw [List.pairwise_middle symm, List.pairwise_cons]
      exact ⟨fun other listed => (around other listed).2, apart.2⟩

end Separate

end Pool

end Transition
