import Mathlib.Logic.Basic

/-!
# Runs of a deterministic transition function

A run applies one action after another. `Guarded` says that every action met its
guard in the state where it was taken, and `Always` that a property held in every
state on the way, both ends included. An invariant that one guarded step preserves
holds along the whole guarded run; this is the only induction over runs that the
rest of the development needs.
-/

namespace Transition

variable {σ α : Type}

def run (step : σ → α → σ) (s : σ) (actions : List α) : σ := actions.foldl step s

/-- Every action is taken in a state that allows it. -/
def Guarded (step : σ → α → σ) (guard : σ → α → Prop) : σ → List α → Prop
  | _, [] => True
  | s, a :: rest => guard s a ∧ Guarded step guard (step s a) rest

/-- The property holds in every state of the run, the first and the last included. -/
def Always (step : σ → α → σ) (P : σ → Prop) : σ → List α → Prop
  | s, [] => P s
  | s, a :: rest => P s ∧ Always step P (step s a) rest

instance Guarded.decidable (step : σ → α → σ) (guard : σ → α → Prop)
    [∀ s a, Decidable (guard s a)] : ∀ s actions, Decidable (Guarded step guard s actions)
  | _, [] => isTrue trivial
  | s, a :: rest =>
    have := Guarded.decidable step guard (step s a) rest
    inferInstanceAs (Decidable (guard s a ∧ Guarded step guard (step s a) rest))

instance Always.decidable (step : σ → α → σ) (P : σ → Prop) [∀ s, Decidable (P s)] :
    ∀ s actions, Decidable (Always step P s actions)
  | s, [] => inferInstanceAs (Decidable (P s))
  | s, a :: rest =>
    have := Always.decidable step P (step s a) rest
    inferInstanceAs (Decidable (P s ∧ Always step P (step s a) rest))

variable {step : σ → α → σ} {guard guard' : σ → α → Prop} {P Q : σ → Prop}

variable {s : σ} {actions : List α}

@[simp] theorem run_nil (s : σ) : run step s [] = s := rfl

@[simp] theorem run_cons (s : σ) (a : α) (rest : List α) :
    run step s (a :: rest) = run step (step s a) rest := rfl

@[simp] theorem run_append (s : σ) (first second : List α) :
    run step s (first ++ second) = run step (run step s first) second :=
  List.foldl_append

/-- The induction over a guarded run. -/
theorem run_invariant (preserved : ∀ s a, P s → guard s a → P (step s a)) (start : P s)
    (guarded : Guarded step guard s actions) : P (run step s actions) := by
  induction actions generalizing s with
  | nil => exact start
  | cons a rest ih => exact ih (preserved s a start guarded.1) guarded.2

/-- The same for a property that every action preserves. -/
theorem run_preserved (preserved : ∀ s a, P s → P (step s a)) (start : P s) (actions : List α) :
    P (run step s actions) := by
  induction actions generalizing s with
  | nil => exact start
  | cons a rest ih => exact ih (preserved s a start)

/-- A preserved property holds in every state of a guarded run, not only the last. -/
theorem always_of_preserved (preserved : ∀ s a, P s → guard s a → P (step s a)) (start : P s)
    (guarded : Guarded step guard s actions) : Always step P s actions := by
  induction actions generalizing s with
  | nil => exact start
  | cons a rest ih => exact ⟨start, ih (preserved s a start guarded.1) guarded.2⟩

/-- An invariant turns the guard of a run into the guard it implies. -/
theorem Guarded.of_invariant (preserved : ∀ s a, P s → guard s a → P (step s a))
    (implied : ∀ s a, P s → guard s a → guard' s a) (start : P s)
    (guarded : Guarded step guard s actions) : Guarded step guard' s actions := by
  induction actions generalizing s with
  | nil => trivial
  | cons a rest ih =>
    exact ⟨implied s a start guarded.1, ih (preserved s a start guarded.1) guarded.2⟩

theorem Always.mono (weaken : ∀ s, P s → Q s) (h : Always step P s actions) :
    Always step Q s actions := by
  induction actions generalizing s with
  | nil => exact weaken s h
  | cons a rest ih => exact ⟨weaken s h.1, ih h.2⟩

theorem Always.last (h : Always step P s actions) : P (run step s actions) := by
  induction actions generalizing s with
  | nil => exact h
  | cons a rest ih => exact ih h.2

theorem Always.first (h : Always step P s actions) : P s := by
  cases actions with
  | nil => exact h
  | cons => exact h.1

theorem guarded_append {first second : List α} :
    Guarded step guard s (first ++ second) ↔
      Guarded step guard s first ∧ Guarded step guard (run step s first) second := by
  induction first generalizing s with
  | nil => simp [Guarded]
  | cons a rest ih => simp [Guarded, ih, and_assoc]

theorem Guarded.and (h : Guarded step guard s actions) (h' : Guarded step guard' s actions) :
    Guarded step (fun s a => guard s a ∧ guard' s a) s actions := by
  induction actions generalizing s with
  | nil => trivial
  | cons a rest ih => exact ⟨⟨h.1, h'.1⟩, ih h.2 h'.2⟩

/-- What holds in every state holds on both sides of every action. -/
theorem Always.guarded (h : Always step P s actions) :
    Guarded step (fun s a => P s ∧ P (step s a)) s actions := by
  induction actions generalizing s with
  | nil => trivial
  | cons a rest ih => exact ⟨⟨h.1, h.2.first⟩, ih h.2⟩

/-- A condition on the actions alone joins the guard. -/
theorem Guarded.and_forall {p : α → Prop} (h : Guarded step guard s actions)
    (all : ∀ a ∈ actions, p a) : Guarded step (fun s a => guard s a ∧ p a) s actions := by
  induction actions generalizing s with
  | nil => trivial
  | cons a rest ih =>
    exact ⟨⟨h.1, all a List.mem_cons_self⟩,
      ih h.2 fun b member => all b (List.mem_cons_of_mem a member)⟩

/-- A condition on the actions alone is a guard. -/
theorem guarded_of_forall {p : α → Prop} (all : ∀ a ∈ actions, p a) (s : σ) :
    Guarded step (fun _ a => p a) s actions := by
  induction actions generalizing s with
  | nil => trivial
  | cons a rest ih =>
    exact ⟨all a List.mem_cons_self, ih (fun b member => all b (List.mem_cons_of_mem a member)) _⟩

/-- If under an invariant every action is seen from above as no action or as one that is
allowed there, a guarded run is seen as a guarded run. -/
theorem Guarded.simulation {τ β : Type} {abstract : σ → τ} {above : τ → β → τ}
    {allowed : τ → β → Prop} (preserved : ∀ s a, P s → guard s a → P (step s a))
    (seen : ∀ s a, P s → guard s a → abstract (step s a) = abstract s ∨
      ∃ b, allowed (abstract s) b ∧ abstract (step s a) = above (abstract s) b) (start : P s)
    (guarded : Guarded step guard s actions) :
    ∃ actions', Guarded above allowed (abstract s) actions' ∧
      abstract (run step s actions) = run above (abstract s) actions' := by
  induction actions generalizing s with
  | nil => exact ⟨[], trivial, rfl⟩
  | cons a rest ih =>
    obtain ⟨actions', guarded', end_⟩ := ih (preserved s a start guarded.1) guarded.2
    obtain same | ⟨b, allows, moved⟩ := seen s a start guarded.1
    · rw [same] at guarded' end_
      exact ⟨actions', guarded', end_⟩
    · rw [moved] at guarded' end_
      exact ⟨b :: actions', ⟨allows, guarded'⟩, end_⟩

section Within

/-- After `n` good actions, or more, the run is in a state with the property. -/
def Within (step : σ → α → σ) (good : α → Prop) (n : Nat) (s : σ) (P : σ → Prop) : Prop :=
  ∀ actions, (∀ a ∈ actions, good a) → n ≤ actions.length → P (run step s actions)

variable {good : α → Prop} {n : Nat} {s : σ}

/-- One action, whichever it is. -/
theorem Within.next (next : ∀ a, good a → Within step good n (step s a) P) :
    Within step good (n + 1) s P := by
  intro actions all enough
  cases actions with
  | nil => exact absurd enough (Nat.not_succ_le_zero n)
  | cons a rest =>
    obtain ⟨here, others⟩ := List.forall_mem_cons.mp all
    exact next a here rest others (Nat.le_of_succ_le_succ enough)

/-- No action, in a state that the run does not leave. -/
theorem Within.stay (stays : ∀ a, step s a = s) (holds : P s) : Within step good 0 s P := by
  have same (actions : List α) : run step s actions = s := by
    induction actions with
    | nil => rfl
    | cons a rest ih => rw [run_cons, stays a, ih]
  intro actions _ _
  rw [same]
  exact holds

theorem Within.mono {m : Nat} (h : Within step good n s P) (le : n ≤ m) :
    Within step good m s P :=
  fun actions all enough => h actions all (Nat.le_trans le enough)

end Within

/-- If an invariant is kept exactly by the guarded actions, and any other action breaks the
property that it implies, a run keeps the property exactly if it is guarded. -/
theorem always_iff_guarded {I : σ → Prop} (implied : ∀ s, I s → P s)
    (preserved : ∀ s a, I s → guard s a → I (step s a))
    (broken : ∀ s a, I s → ¬ guard s a → ¬ P (step s a)) {s : σ} {actions : List α}
    (start : I s) : Always step P s actions ↔ Guarded step guard s actions := by
  constructor
  · intro always
    induction actions generalizing s with
    | nil => trivial
    | cons a rest ih =>
      have allowed : guard s a := by
        refine Classical.byContradiction fun refused => ?_
        exact broken s a start refused always.2.first
      exact ⟨allowed, ih (preserved s a start allowed) always.2⟩
  · intro guarded
    exact (always_of_preserved preserved start guarded).mono implied

end Transition
