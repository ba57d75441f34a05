import Mathlib.Data.Fintype.Basic
import Mathlib.Logic.Function.Basic

/-!
# Transactions at READ COMMITTED

Concurrent transactions at the level of their statements. The rows have committed versions,
and a transaction has versions of its own that nobody else sees and row locks that it keeps
until it commits. A statement reads what is committed when it starts and the transaction's
own versions (`read`); what it then writes, it writes to rows whose lock it can take
(`free`), and the latest version of such a row is again what `read` says.

Whoever has a version of a row has its lock, and a lock has one holder (`Locked`). So a
commit cannot change a row under a transaction that holds its lock.
-/

namespace Relational

/-- The committed versions of the rows, and for each transaction its own versions and the
rows that it has locked. Rows are named by `κ`, and the row `k` has versions in `ν k`. -/
structure ReadCommitted (ι : Type) {κ : Type} (ν : κ → Type) where
  committed : (k : κ) → ν k
  own : ι → (k : κ) → Option (ν k)
  locks : ι → κ → Bool

namespace ReadCommitted

variable {ι κ : Type} {ν : κ → Type}

def idle (rows : (k : κ) → ν k) : ReadCommitted ι ν := ⟨rows, fun _ _ => none, fun _ _ => false⟩

/-- What a statement of the transaction sees if it starts now. -/
def read (s : ReadCommitted ι ν) (t : ι) : (k : κ) → ν k := fun k =>
  (s.own t k).getD (s.committed k)

/-- Locks are exclusive, and every version has one. -/
structure Locked (s : ReadCommitted ι ν) : Prop where
  exclusive : ∀ {k t u}, s.locks t k → s.locks u k → t = u
  covered : ∀ {t k}, s.own t k ≠ none → s.locks t k

variable {s : ReadCommitted ι ν} {t u : ι} {k l : κ}

theorem locked_idle (rows : (k : κ) → ν k) : Locked (idle rows : ReadCommitted ι ν) where
  exclusive held := by cases held
  covered version := absurd rfl version

theorem read_of_own_none (none_ : s.own t k = none) : s.read t k = s.committed k := by
  rw [read, none_]
  rfl

section Free

variable [DecidableEq ι] [Fintype ι]

/-- No other transaction has locked the row. -/
def free (s : ReadCommitted ι ν) (t : ι) (k : κ) : Bool :=
  decide (∀ u, u ≠ t → s.locks u k = false)

theorem free_idle (rows : (k : κ) → ν k) : (idle rows : ReadCommitted ι ν).free t k := by
  simp [free, idle]

end Free

section Commit

variable [DecidableEq ι]

/-- Publish the transaction's versions and release its locks. -/
def commit (s : ReadCommitted ι ν) (t : ι) : ReadCommitted ι ν where
  committed := s.read t
  own := Function.update s.own t fun _ => none
  locks := Function.update s.locks t fun _ => false

/-- Drop the transaction's versions and release its locks. -/
def rollback (s : ReadCommitted ι ν) (t : ι) : ReadCommitted ι ν where
  committed := s.committed
  own := Function.update s.own t fun _ => none
  locks := Function.update s.locks t fun _ => false

@[simp] theorem own_commit_self : (s.commit t).own t k = none := by
  simp [commit]

theorem own_commit_of_ne (other : u ≠ t) : (s.commit t).own u = s.own u := by
  simp [commit, other]

theorem read_commit_self : (s.commit t).read t = s.read t :=
  funext fun _ => read_of_own_none own_commit_self

/-- A commit does not change what another transaction sees in a row that was not written. -/
theorem read_commit_of_ne (other : u ≠ t) (unwritten : s.own t k = none) :
    (s.commit t).read u k = s.read u k := by
  have committed : (s.commit t).committed k = s.committed k := read_of_own_none unwritten
  rw [read, own_commit_of_ne other, committed]
  rfl

theorem Locked.commit (locked : s.Locked) (t : ι) : (s.commit t).Locked where
  exclusive {k u v} first second := by
    by_cases mine : u = t
    · simp [ReadCommitted.commit, mine] at first
    · by_cases mine' : v = t
      · simp [ReadCommitted.commit, mine'] at second
      · simp only [ReadCommitted.commit, Function.update_of_ne mine] at first
        simp only [ReadCommitted.commit, Function.update_of_ne mine'] at second
        exact locked.exclusive first second
  covered {u k} version := by
    by_cases mine : u = t
    · subst mine
      simp at version
    · rw [own_commit_of_ne mine] at version
      simpa [ReadCommitted.commit, mine] using locked.covered version

theorem Locked.rollback (locked : s.Locked) (t : ι) : (s.rollback t).Locked :=
  ⟨(locked.commit t).exclusive, (locked.commit t).covered⟩

end Commit

section Write

variable [DecidableEq ι] [DecidableEq κ]

def lock (s : ReadCommitted ι ν) (t : ι) (k : κ) : ReadCommitted ι ν :=
  { s with locks := Function.update s.locks t (Function.update (s.locks t) k true) }

/-- Take the lock of a row and write a version of it. -/
def write (s : ReadCommitted ι ν) (t : ι) (k : κ) (v : ν k) : ReadCommitted ι ν :=
  { s.lock t k with own := Function.update s.own t (Function.update (s.own t) k (some v)) }

theorem locks_lock : (s.lock t k).locks u l = (s.locks u l || decide (u = t ∧ l = k)) := by
  by_cases mine : u = t
  · subst mine
    by_cases same : l = k
    · subst same
      simp [lock]
    · simp [lock, same]
  · simp [lock, mine]

@[simp] theorem own_write_self {v : ν k} : (s.write t k v).own t k = some v := by
  simp [write]

theorem own_write_of_ne {v : ν k} (other : u ≠ t ∨ l ≠ k) :
    (s.write t k v).own u l = s.own u l := by
  by_cases mine : u = t
  · subst mine
    have apart : l ≠ k := other.resolve_left fun differ => differ rfl
    simp [write, apart]
  · simp [write, mine]

theorem read_write_of_ne {v : ν k} (other : u ≠ t ∨ l ≠ k) :
    (s.write t k v).read u l = s.read u l := by
  rw [read, own_write_of_ne other]
  rfl

/-- A transaction sees its own write. -/
theorem read_write_self {v : ν k} : (s.write t k v).read t = Function.update (s.read t) k v := by
  funext l
  by_cases same : l = k
  · subst same
    simp [read]
  · rw [read_write_of_ne (Or.inr same), Function.update_of_ne same]

variable [Fintype ι]

/-- A transaction does not block itself. -/
theorem free_write {v : ν k} (free : s.free t l) : (s.write t k v).free t l := by
  simp only [ReadCommitted.free, decide_eq_true_eq] at free ⊢
  intro u other
  change (s.lock t k).locks u l = false
  rw [locks_lock, free u other]
  simp [other]

theorem Locked.lock (locked : s.Locked) (free : s.free t k) : (s.lock t k).Locked where
  exclusive {l u v} first second := by
    have alone : ∀ u, u ≠ t → s.locks u k = false := by simpa [ReadCommitted.free] using free
    simp only [locks_lock, Bool.or_eq_true, decide_eq_true_eq] at first second
    rcases first with held | ⟨rfl, rfl⟩
    · rcases second with held' | ⟨rfl, rfl⟩
      · exact locked.exclusive held held'
      · by_contra differ
        simp [alone u differ] at held
    · rcases second with held' | ⟨rfl, -⟩
      · by_contra differ
        simp [alone v fun same => differ same.symm] at held'
      · rfl
  covered version := by
    rw [locks_lock, locked.covered version]
    rfl

theorem Locked.write (locked : s.Locked) (free : s.free t k) (v : ν k) :
    (s.write t k v).Locked where
  exclusive := (locked.lock free).exclusive
  covered {u l} version := by
    change (s.lock t k).locks u l
    rw [locks_lock]
    by_cases mine : u = t ∧ l = k
    · simp [mine]
    · have apart : u ≠ t ∨ l ≠ k := not_and_or.mp mine
      rw [own_write_of_ne apart] at version
      rw [locked.covered version]
      rfl

end Write

end ReadCommitted

end Relational
