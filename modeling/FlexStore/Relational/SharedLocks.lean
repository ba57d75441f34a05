import FlexStore.Relational.Transaction
import Mathlib.Data.Set.Basic

/-!
# Shared row locks and deadlocks

`SELECT ... FOR SHARE` takes a lock of a row that several transactions can have at a time. It
conflicts with the lock that `FOR UPDATE` or a write takes, and like every lock it is kept
until the transaction ends. Which locking statements take a shared lock is told by their
names.

Transactions are deadlocked when each one of a set waits for a lock that another one of the
set has: no turn gets them out of it. There is no deadlock while one transaction has all the
locks, and so there is none in a system whose transactions all start with a shared lock of
the same row, as long as they are admitted to it one at a time.
-/

namespace Relational

open Transition

inductive LockMode where
  | share
  | exclusive
  deriving DecidableEq

variable {ι κ : Type} {ν : κ → Type} {σ ε α δ : Type}

/-- The lock that a transaction needs for its next step. -/
def Activity.request (mode : σ → LockMode) : Activity ν σ ε α → Option (κ × LockMode)
  | .ready (.lock name k _) => some (k, mode name)
  | .writing _ (k :: _) _ _ => some (k, .exclusive)
  | _ => none

/-- A system with shared locks beside the exclusive ones of its store. -/
structure SharingSystem (ι : Type) {κ : Type} (ν : κ → Type) (σ ε α : Type) extends
    System ι ν σ ε α where
  shares : ι → κ → Bool

namespace SharingSystem

def start (programs : ι → Txn ν σ ε α) (rows : (k : κ) → ν k) : SharingSystem ι ν σ ε α :=
  ⟨.start programs rows, fun _ _ => false⟩

/-- The transaction has a lock of the row that conflicts with the mode. -/
def conflicts (s : SharingSystem ι ν σ ε α) (u : ι) (k : κ) : LockMode → Bool
  | .share => s.store.locks u k
  | .exclusive => s.store.locks u k || s.shares u k

def Holds (s : SharingSystem ι ν σ ε α) (t : ι) : Prop :=
  ∃ k, s.store.locks t k ∨ s.shares t k

theorem holds_of_conflicts {s : SharingSystem ι ν σ ε α} {u : ι} {k : κ} {m : LockMode}
    (taken : s.conflicts u k m) : s.Holds u := by
  cases m with
  | share => exact ⟨k, Or.inl taken⟩
  | exclusive => exact ⟨k, Bool.or_eq_true_iff.mp taken⟩

section Waiting

variable [DecidableEq ι] (mode : σ → LockMode)

/-- The next step of the one transaction needs a lock that conflicts with one that the other
transaction has. -/
def waitsFor (s : SharingSystem ι ν σ ε α) (t u : ι) : Bool :=
  u ≠ t && ((s.activity t).request mode).any fun (k, m) => s.conflicts u k m

/-- Each one of a set of transactions waits for a lock that another one of the set has. -/
def Deadlocked (s : SharingSystem ι ν σ ε α) : Prop :=
  ∃ waiting : Set ι, waiting.Nonempty ∧ ∀ t ∈ waiting, ∃ u ∈ waiting, s.waitsFor mode t u

variable {mode} {s : SharingSystem ι ν σ ε α} {t u : ι}

theorem waitsFor_iff : s.waitsFor mode t u ↔
    u ≠ t ∧ ∃ k m, (s.activity t).request mode = some (k, m) ∧ s.conflicts u k m := by
  simp [waitsFor, Option.any_eq_true]

/-- One transaction alone cannot be waited for and wait. -/
theorem not_deadlocked (one : ∀ t u, s.Holds t → s.Holds u → t = u) : ¬s.Deadlocked mode := by
  rintro ⟨waiting, ⟨t, first⟩, blocked⟩
  obtain ⟨u, second, waits⟩ := blocked t first
  obtain ⟨v, -, waits'⟩ := blocked u second
  obtain ⟨-, k, m, -, taken⟩ := waitsFor_iff.mp waits
  obtain ⟨other, l, n, -, taken'⟩ := waitsFor_iff.mp waits'
  exact other (one v u (holds_of_conflicts taken') (holds_of_conflicts taken))

end Waiting

section Admission

variable (mode : σ → LockMode) (k : κ)

/-- The first statement takes a shared lock of the row, unless the transaction fails before
it. -/
def Enters : Txn ν σ ε α → Prop
  | .lock name l _ => l = k ∧ mode name = .share
  | .fail _ => True
  | _ => False

/-- A transaction takes a shared lock of the row only while no other one has such a lock. -/
def Admits (s : SharingSystem ι ν σ ε α) (t : ι) : Prop :=
  (s.activity t).request mode = some (k, .share) → ∀ u, u ≠ t → s.shares u k = false

instance [DecidableEq ι] [Fintype ι] [DecidableEq κ] (s : SharingSystem ι ν σ ε α) (t : ι) :
    Decidable (s.Admits mode k t) :=
  inferInstanceAs (Decidable (_ → _))

/-- At most one transaction has been admitted, and the others have no lock: they have not
started or they have ended. -/
structure OneAdmitted (s : SharingSystem ι ν σ ε α) : Prop where
  outside : ∀ t, s.shares t k ∨ ¬s.Holds t ∧
    ((∃ p, s.activity t = .ready p ∧ Enters mode k p) ∨ ∃ r, s.activity t = .ended r)
  one : ∀ {t u}, s.shares t k → s.shares u k → t = u

variable {mode k} {s : SharingSystem ι ν σ ε α} {t : ι}

theorem OneAdmitted.start {programs : ι → Txn ν σ ε α} (enters : ∀ t, Enters mode k (programs t))
    (rows : (k : κ) → ν k) : (start programs rows).OneAdmitted mode k where
  outside t := by
    refine Or.inr ⟨?_, Or.inl ⟨programs t, rfl, enters t⟩⟩
    rintro ⟨l, held | held⟩ <;> cases held
  one held := by cases held

theorem OneAdmitted.holds (admitted : s.OneAdmitted mode k) (holds : s.Holds t) :
    s.shares t k :=
  (admitted.outside t).resolve_right fun outside => outside.1 holds

theorem OneAdmitted.not_deadlocked [DecidableEq ι] (admitted : s.OneAdmitted mode k) :
    ¬s.Deadlocked mode :=
  SharingSystem.not_deadlocked fun _ _ first second =>
    admitted.one (admitted.holds first) (admitted.holds second)

end Admission

section Step

variable [DecidableEq ι] [Fintype ι] [DecidableEq κ] [DecidableEq δ] (ix : UniqueIndex ν δ ε)
  (mode : σ → LockMode)

/-- A transaction takes a shared lock of a row and goes on. -/
def share (s : SharingSystem ι ν σ ε α) (t : ι) (k : κ) (rest : Txn ν σ ε α) :
    SharingSystem ι ν σ ε α where
  store := s.store
  activity := Function.update s.activity t (.ready rest)
  shares := Function.update s.shares t (Function.update (s.shares t) k true)

/-- What a step that takes no shared lock leaves. A transaction that ends releases its
locks. -/
def after (s : SharingSystem ι ν σ ε α) (t : ι) (store : ReadCommitted ι ν)
    (act : Activity ν σ ε α) : SharingSystem ι ν σ ε α where
  store
  activity := Function.update s.activity t act
  shares := if act.ended?.isSome then Function.update s.shares t fun _ => false else s.shares

/-- A transaction takes a step that needs no shared lock. -/
def advance (s : SharingSystem ι ν σ ε α) (t : ι) : SharingSystem ι ν σ ε α :=
  match (s.activity t).advance ix s.store t with
  | none => s
  | some (store, act) => s.after t store act

def step (s : SharingSystem ι ν σ ε α) (t : ι) : SharingSystem ι ν σ ε α :=
  if ∃ u, s.waitsFor mode t u then s
  else match s.activity t with
    | .ready (.lock name k next) =>
      if mode name = .share then s.share t k (next (s.store.read t k)) else s.advance ix t
    | _ => s.advance ix t

variable {ix mode} {s : SharingSystem ι ν σ ε α} {t u : ι}

omit [Fintype ι] in
theorem shares_share {k l : κ} {rest : Txn ν σ ε α} :
    (s.share t l rest).shares u k = (s.shares u k || decide (u = t ∧ k = l)) := by
  by_cases mine : u = t
  · subst mine
    by_cases same : k = l
    · subst same
      simp [share]
    · simp [share, same]
  · simp [share, mine]

/-- A turn is spent waiting, takes a shared lock, or is one of those of a system without
shared locks. -/
theorem step_cases {R : SharingSystem ι ν σ ε α → Prop} (waits : R s)
    (shares : ∀ name k next, (∀ u, ¬s.waitsFor mode t u) →
      s.activity t = .ready (.lock name k next) → mode name = .share →
      R (s.share t k (next (s.store.read t k))))
    (moves : ∀ store act, (∀ u, ¬s.waitsFor mode t u) →
      Turn ix s.store t (s.activity t) store act →
      (∀ name k next, s.activity t = .ready (.lock name k next) → mode name ≠ .share) →
      R (s.after t store act)) :
    R (s.step ix mode t) := by
  have plain (free : ∀ u, ¬s.waitsFor mode t u)
      (exclusive : ∀ name k next, s.activity t = .ready (.lock name k next) → mode name ≠ .share) :
      R (s.advance ix t) := by
    rw [advance]
    split
    · exact waits
    · next store act h => exact moves store act free (Activity.turn_of_advance h) exclusive
  rw [step]
  split
  · exact waits
  · next free =>
      rw [not_exists] at free
      split
      · next name k next act =>
          split
          · next shared => exact shares name k next free act shared
          · next exclusive =>
              refine plain free fun name' k' next' act' => ?_
              cases act.symm.trans act'
              exact exclusive
      · next other => exact plain free fun name k next act => absurd act (other name k next)

variable (ix mode s) in
/-- The others keep what they do and the locks that they have. -/
theorem step_others (other : u ≠ t) : (s.step ix mode t).activity u = s.activity u ∧
    (s.step ix mode t).store.locks u = s.store.locks u ∧
    (s.step ix mode t).shares u = s.shares u := by
  refine step_cases (R := fun s' => s'.activity u = s.activity u ∧
    s'.store.locks u = s.store.locks u ∧ s'.shares u = s.shares u) ⟨rfl, rfl, rfl⟩
    (fun name k next free act shared => ?_) fun store act free turn exclusive => ?_
  · simp [share, other]
  · refine ⟨Function.update_of_ne other _ _, (turn.others other).2, ?_⟩
    rw [after]
    split
    · exact Function.update_of_ne other _ _
    · rfl

/-- Whoever waits for another goes on waiting until the other one has its turn. -/
theorem waitsFor_step {v : ι} (waits : s.waitsFor mode u v) (same : (s.step ix mode t) = s ∨
    u ≠ t ∧ v ≠ t) : (s.step ix mode t).waitsFor mode u v := by
  rcases same with same | ⟨first, second⟩
  · rw [same]
    exact waits
  · obtain ⟨other, k, m, needs, taken⟩ := waitsFor_iff.mp waits
    obtain ⟨activity, -, -⟩ := step_others ix mode s first
    obtain ⟨-, locks, shares⟩ := step_others ix mode s second
    refine waitsFor_iff.mpr ⟨other, k, m, activity ▸ needs, ?_⟩
    cases m with
    | share => simpa only [conflicts, locks] using taken
    | exclusive => simpa only [conflicts, locks, shares] using taken

/-- No turn gets transactions out of a deadlock. -/
theorem Deadlocked.step (stuck : s.Deadlocked mode) (t : ι) :
    (s.step ix mode t).Deadlocked mode := by
  obtain ⟨waiting, nonempty, blocked⟩ := stuck
  refine ⟨waiting, nonempty, fun u member => ?_⟩
  obtain ⟨v, member', waits⟩ := blocked u member
  refine ⟨v, member', waitsFor_step waits ?_⟩
  by_cases mine : t ∈ waiting
  · obtain ⟨w, -, stops⟩ := blocked t mine
    exact Or.inl (if_pos ⟨w, stops⟩)
  · refine Or.inr ⟨?_, ?_⟩
    · rintro rfl
      exact mine member
    · rintro rfl
      exact mine member'

theorem Deadlocked.run (stuck : s.Deadlocked mode) (schedule : List ι) :
    (Transition.run (SharingSystem.step ix mode) s schedule).Deadlocked mode :=
  run_preserved (P := Deadlocked mode) (fun _ t stuck => stuck.step t) stuck schedule

section Admission

variable {k : κ}

/-- A transaction that has ended has no lock. -/
theorem not_holds_of_ended {store : ReadCommitted ι ν} {act : Activity ν σ ε α} {r : Except ε α}
    (turn : Turn ix s.store t act store (.ended r)) : ¬(s.after t store (.ended r)).Holds t := by
  rintro ⟨l, held | held⟩
  · exact Bool.false_ne_true ((turn.released l).symm.trans held)
  · simp [after, Activity.ended?] at held

/-- A transaction that has had its turn is admitted, or has ended without a lock. -/
theorem OneAdmitted.outside_step (admitted : s.OneAdmitted mode k) :
    (s.step ix mode t).shares t k ∨ ¬(s.step ix mode t).Holds t ∧
      ((∃ p, (s.step ix mode t).activity t = .ready p ∧ Enters mode k p) ∨
        ∃ r, (s.step ix mode t).activity t = .ended r) := by
  refine step_cases (R := fun s' => s'.shares t k ∨ ¬s'.Holds t ∧
    ((∃ p, s'.activity t = .ready p ∧ Enters mode k p) ∨ ∃ r, s'.activity t = .ended r))
    (admitted.outside t) (fun name l next free act shared => Or.inl ?_)
    fun store act free turn exclusive => ?_
  · obtain inside | ⟨-, ⟨p, start, enters⟩ | ⟨r, ended⟩⟩ := admitted.outside t
    · rw [shares_share, inside]
      rfl
    · cases act.symm.trans start
      simp [shares_share, enters.1]
    · cases act.symm.trans ended
  · obtain inside | ⟨-, ⟨p, start, enters⟩ | ⟨r, ended⟩⟩ := admitted.outside t
    · cases act with
      | ended r =>
        exact Or.inr ⟨not_holds_of_ended turn, Or.inr ⟨r, Function.update_self ..⟩⟩
      | ready | writing => exact Or.inl inside
    · rw [start] at turn
      cases p with
      | fail e =>
        obtain ⟨r, rfl⟩ : ∃ r, act = .ended r := by
          cases turn
          exact ⟨_, rfl⟩
        exact Or.inr ⟨not_holds_of_ended turn, Or.inr ⟨r, Function.update_self ..⟩⟩
      | lock name l next => exact absurd enters.2 (exclusive name l next start)
      | done | select | update => cases enters
    · rw [ended] at turn
      cases turn

/-- One turn keeps it so if nobody else is inside when a transaction is admitted. -/
theorem OneAdmitted.step (admitted : s.OneAdmitted mode k) (admits : s.Admits mode k t) :
    (s.step ix mode t).OneAdmitted mode k where
  outside u := by
    by_cases mine : u = t
    · subst mine
      exact admitted.outside_step
    · obtain ⟨activity, locks, shares⟩ := step_others ix mode s mine
      rw [Holds, activity, locks, shares]
      exact admitted.outside u
  one {u v} := by
    refine step_cases (R := fun s' => s'.shares u k → s'.shares v k → u = v) admitted.one
      (fun name l next free act shared first second => ?_)
      fun store act free turn exclusive first second => ?_
    · have alone (here : k = l) (w : ι) (other : w ≠ t) : s.shares w k = false := by
        refine admits ?_ w other
        rw [act, here, ← shared]
        rfl
      simp only [shares_share, Bool.or_eq_true, decide_eq_true_eq] at first second
      rcases first with first | ⟨rfl, here⟩
      · rcases second with second | ⟨rfl, here⟩
        · exact admitted.one first second
        · by_contra other
          simp [alone here u other] at first
      · rcases second with second | ⟨rfl, -⟩
        · by_contra other
          simp [alone here v fun same => other same.symm] at second
        · rfl
    · have before {w : ι} (held : (s.after t store act).shares w k) : s.shares w k := by
        simp only [after] at held
        split at held
        · by_cases mine : w = t
          · simp [mine] at held
          · rwa [Function.update_of_ne mine] at held
        · exact held
      exact admitted.one (before first) (before second)

/-- Transactions that all start with a shared lock of one row, and are admitted to it one at
a time, are never deadlocked. -/
theorem always_not_deadlocked {programs : ι → Txn ν σ ε α}
    (enters : ∀ t, Enters mode k (programs t)) {rows : (k : κ) → ν k} {schedule : List ι}
    (admits : Guarded (step ix mode) (Admits mode k) (start programs rows) schedule) :
    Always (step ix mode) (¬Deadlocked mode ·) (start programs rows) schedule :=
  (always_of_preserved (P := OneAdmitted mode k) (fun _ _ admitted admits => admitted.step admits)
    (.start enters rows) admits).mono fun _ admitted => admitted.not_deadlocked

end Admission

end Step

end SharingSystem

end Relational
