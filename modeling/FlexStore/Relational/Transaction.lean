import FlexStore.Relational.ReadCommitted
import FlexStore.Transition.Run

/-!
# Transactions as programs of statements

A transaction (`Txn`) is a program whose instructions are statements. What it does alone is
`serial`. In a `System` any number of them run at READ COMMITTED, statement by statement: a
schedule says whose turn it is, and a transaction that has to wait for a lock, or for the
outcome of another one that has its hands on a unique index entry, lets its turn pass.

The `outcome` of a transaction is what it would come to if it were left alone from now on.
Its own steps never change that, and steps of others change it only when they commit, since
only then does what the transaction sees change.
-/

namespace Relational

open Transition

/-- What a statement does with a row that it has found: leave it as it is, write a version
of it, or fail. -/
inductive Verdict (ε ν : Type) where
  | leave
  | write (version : ν)
  | refuse (error : ε)

/-- A transaction. Its statements have names and hand what they return to the rest. `select`
looks at a snapshot, `lock` is `SELECT ... FOR UPDATE` of one row, and `update` finds rows in
a snapshot, decides about each once it is locked, and returns what it wrote. -/
inductive Txn {κ : Type} (ν : κ → Type) (σ ε α : Type) where
  | done (result : α)
  | fail (error : ε)
  | select (name : σ) (next : ((k : κ) → ν k) → Txn ν σ ε α)
  | lock (name : σ) (k : κ) (next : ν k → Txn ν σ ε α)
  | update (name : σ) (find : ((k : κ) → ν k) → List κ)
      (change : ((k : κ) → ν k) → (k : κ) → ν k → Verdict ε (ν k))
      (next : List ((k : κ) × ν k) → Txn ν σ ε α)

/-- A unique index: the rows that it covers and the entry that a version has in it, if any. -/
structure UniqueIndex {κ : Type} (ν : κ → Type) (δ ε : Type) where
  rows : List κ
  entry : (k : κ) → ν k → Option δ
  error : δ → ε

variable {ι κ : Type} {ν : κ → Type} {σ ε α β δ : Type}

namespace Txn

/-- Go on with another transaction's statements. -/
def bind : Txn ν σ ε α → (α → Txn ν σ ε β) → Txn ν σ ε β
  | done a, f => f a
  | fail e, _ => fail e
  | select name next, f => select name fun rows => (next rows).bind f
  | lock name k next, f => lock name k fun row => (next row).bind f
  | update name find change next, f =>
    update name find change fun touched => (next touched).bind f

instance : Monad (Txn ν σ ε) where
  pure := done
  bind := bind

def name? : Txn ν σ ε α → Option σ
  | done _ | fail _ => none
  | select name _ | lock name _ _ | update name _ _ _ => some name

/-- Every statement that can still come is one of the given ones. -/
def Uses (p : σ → Prop) : Txn ν σ ε α → Prop
  | done _ | fail _ => True
  | select name next => p name ∧ ∀ rows, (next rows).Uses p
  | lock name _ next => p name ∧ ∀ row, (next row).Uses p
  | update name _ _ next => p name ∧ ∀ touched, (next touched).Uses p

theorem uses_bind {p : σ → Prop} {x : Txn ν σ ε α} {f : α → Txn ν σ ε β} (first : x.Uses p)
    (rest : ∀ a, (f a).Uses p) : (x >>= f).Uses p := by
  change (x.bind f).Uses p
  induction x with
  | done a => exact rest a
  | fail e => trivial
  | select name next ih | lock name k next ih | update name find change next ih =>
    exact ⟨first.1, fun r => ih r (first.2 r)⟩

theorem uses_forM {p : σ → Prop} {γ : Type} {f : γ → Txn ν σ ε PUnit} (each : ∀ c, (f c).Uses p)
    (l : List γ) : (forM l f).Uses p := by
  induction l with
  | nil => trivial
  | cons c rest ih =>
    rw [List.forM_cons]
    exact uses_bind (each c) fun _ => ih

end Txn

namespace UniqueIndex

variable [DecidableEq κ] [DecidableEq δ] (ix : UniqueIndex ν δ ε)

/-- Another row has the entry of this version: the statement fails. -/
def violation (rows : (k : κ) → ν k) (k : κ) (v : ν k) : Option ε :=
  (ix.entry k v).bind fun e =>
    if ix.rows.any fun l => l ≠ k ∧ ix.entry l (rows l) = some e then some (ix.error e) else none

/-- Another transaction is about to give the entry of this version to another row, or to take
it from one: whether the entry is free is seen when that transaction has ended. -/
def contested [DecidableEq ι] [Fintype ι] (s : ReadCommitted ι ν) (t : ι) (k : κ) (v : ν k) :
    Bool :=
  (ix.entry k v).any fun e => ix.rows.any fun l => decide (l ≠ k ∧ ∃ u, u ≠ t ∧
    (s.own u l).isSome ∧ (ix.entry l (s.read u l) = some e ∨ ix.entry l (s.committed l) = some e))

end UniqueIndex

section Serial

variable [DecidableEq κ] [DecidableEq δ] (ix : UniqueIndex ν δ ε)

/-- Go through the rows that a statement has found. -/
def amend (change : (k : κ) → ν k → Verdict ε (ν k)) :
    List κ → List ((k : κ) × ν k) → ((k : κ) → ν k) →
      Except ε (List ((k : κ) × ν k) × ((k : κ) → ν k))
  | [], touched, rows => .ok (touched, rows)
  | k :: found, touched, rows =>
    match change k (rows k) with
    | .leave => amend change found touched rows
    | .refuse e => .error e
    | .write v =>
      match ix.violation rows k v with
      | some e => .error e
      | none => amend change found (touched ++ [⟨k, v⟩]) (Function.update rows k v)

/-- What a transaction does that runs alone. -/
def Txn.serial : Txn ν σ ε α → ((k : κ) → ν k) → Except ε (α × ((k : κ) → ν k))
  | .done a, rows => .ok (a, rows)
  | .fail e, _ => .error e
  | .select _ next, rows => (next rows).serial rows
  | .lock _ k next, rows => (next (rows k)).serial rows
  | .update _ find change next, rows =>
    amend ix (change rows) (find rows) [] rows >>= fun r => (next r.1).serial r.2

/-- Run alone, the transaction leaves the busy rows alone. -/
def Txn.Avoids (busy : κ → Prop) : Txn ν σ ε α → ((k : κ) → ν k) → Prop
  | .done _, _ | .fail _, _ => True
  | .select _ next, rows => (next rows).Avoids busy rows
  | .lock _ k next, rows => ¬busy k ∧ (next (rows k)).Avoids busy rows
  | .update _ find change next, rows => (∀ k ∈ find rows, ¬busy k) ∧
      ∀ r, amend ix (change rows) (find rows) [] rows = .ok r → (next r.1).Avoids busy r.2

variable {ix}

theorem Txn.serial_bind (p : Txn ν σ ε α) (f : α → Txn ν σ ε β) (rows : (k : κ) → ν k) :
    (p >>= f).serial ix rows = p.serial ix rows >>= fun r => (f r.1).serial ix r.2 := by
  change (p.bind f).serial ix rows = _
  induction p generalizing rows with
  | done a => rfl
  | fail e => rfl
  | select name next ih => exact ih rows rows
  | lock name k next ih => exact ih (rows k) rows
  | update name find change next ih =>
    simp only [Txn.bind, Txn.serial]
    cases amend ix (change rows) (find rows) [] rows with
    | error e => rfl
    | ok r => exact ih r.1 r.2

theorem Txn.avoids_bind {busy : κ → Prop} {p : Txn ν σ ε α} {f : α → Txn ν σ ε β}
    {rows : (k : κ) → ν k} (first : p.Avoids ix busy rows)
    (rest : ∀ r, p.serial ix rows = .ok r → (f r.1).Avoids ix busy r.2) :
    (p >>= f).Avoids ix busy rows := by
  change (p.bind f).Avoids ix busy rows
  induction p generalizing rows with
  | done a => exact rest (a, rows) rfl
  | fail e => trivial
  | select name next ih => exact ih rows first rest
  | lock name k next ih => exact ⟨first.1, ih (rows k) first.2 rest⟩
  | update name find change next ih =>
    refine ⟨first.1, fun r found => ih r.1 (first.2 r found) fun r' ended => rest r' ?_⟩
    rw [Txn.serial, found]
    exact ended

/-- A statement that writes every row it has found. No other row has the index entry of what
is written, neither before nor after. -/
theorem amend_of_free {change : (k : κ) → ν k → Verdict ε (ν k)} {f : (k : κ) → ν k → ν k}
    {found : List κ} (distinct : found.Nodup) (touched : List ((k : κ) × ν k))
    (rows : (k : κ) → ν k) (writes : ∀ k ∈ found, change k (rows k) = .write (f k (rows k)))
    (free : ∀ k ∈ found, ∀ l, l ≠ k → ∀ e, ix.entry k (f k (rows k)) = some e →
      ix.entry l (rows l) ≠ some e ∧ (l ∈ found → ix.entry l (f l (rows l)) ≠ some e)) :
    amend ix change found touched rows =
      .ok (touched ++ found.map fun k => ⟨k, f k (rows k)⟩,
        fun k => if k ∈ found then f k (rows k) else rows k) := by
  induction found generalizing touched rows with
  | nil => simp [amend]
  | cons k rest ih =>
    obtain ⟨first, later⟩ := List.nodup_cons.mp distinct
    have quiet : ix.violation rows k (f k (rows k)) = none := by
      cases entry : ix.entry k (f k (rows k)) with
      | none => simp [UniqueIndex.violation, entry]
      | some e =>
        simp only [UniqueIndex.violation, entry, Option.bind_some, ite_eq_right_iff]
        intro taken
        obtain ⟨l, -, other⟩ := List.any_eq_true.mp taken
        obtain ⟨other, same⟩ := of_decide_eq_true other
        exact absurd same (free k List.mem_cons_self l other e entry).1
    have kept {l : κ} (member : l ∈ rest) :
        Function.update rows k (f k (rows k)) l = rows l := by
      refine Function.update_of_ne ?_ _ _
      rintro rfl
      exact first member
    simp only [amend, writes k List.mem_cons_self, quiet]
    rw [ih later]
    · simp only [List.append_assoc, List.map_cons, List.singleton_append, Except.ok.injEq,
        Prod.mk.injEq, List.append_cancel_left_eq, List.cons.injEq, true_and]
      refine ⟨List.map_congr_left fun l member => by rw [kept member], funext fun l => ?_⟩
      by_cases same : l = k
      · subst same
        simp [first]
      · simp [same]
    · intro l member
      rw [kept member]
      exact writes l (List.mem_cons_of_mem k member)
    · intro l member m other e entry
      rw [kept member] at entry
      obtain ⟨before, after⟩ := free l (List.mem_cons_of_mem k member) m other e entry
      refine ⟨?_, fun listed => ?_⟩
      · by_cases same : m = k
        · subst same
          rw [Function.update_self]
          exact after List.mem_cons_self
        · rwa [Function.update_of_ne same]
      · rw [kept listed]
        exact after (List.mem_cons_of_mem k listed)

/-- A statement that writes every row it has found, without touching the index. -/
theorem amend_of_writes {change : (k : κ) → ν k → Verdict ε (ν k)} {f : (k : κ) → ν k → ν k}
    {found : List κ} (distinct : found.Nodup) (touched : List ((k : κ) × ν k))
    (rows : (k : κ) → ν k) (writes : ∀ k ∈ found, change k (rows k) = .write (f k (rows k)))
    (plain : ∀ k ∈ found, ix.entry k (f k (rows k)) = none) :
    amend ix change found touched rows =
      .ok (touched ++ found.map fun k => ⟨k, f k (rows k)⟩,
        fun k => if k ∈ found then f k (rows k) else rows k) := by
  refine amend_of_free distinct touched rows writes fun k member l _ e entry => ?_
  rw [plain k member] at entry
  cases entry

end Serial

/-- What a transaction is doing: it is about to start a statement, goes through the rows that
a statement has found, or has ended. -/
inductive Activity {κ : Type} (ν : κ → Type) (σ ε α : Type) where
  | ready (rest : Txn ν σ ε α)
  | writing (change : (k : κ) → ν k → Verdict ε (ν k)) (found : List κ)
      (touched : List ((k : κ) × ν k)) (next : List ((k : κ) × ν k) → Txn ν σ ε α)
  | ended (result : Except ε α)

namespace Activity

/-- What the transaction has come to, if it has ended. -/
def ended? : Activity ν σ ε α → Option (Except ε α)
  | ended result => some result
  | _ => none

theorem ended?_eq_some {act : Activity ν σ ε α} {result : Except ε α} :
    act.ended? = some result ↔ act = .ended result := by
  cases act <;> simp [ended?]

end Activity

structure System (ι : Type) {κ : Type} (ν : κ → Type) (σ ε α : Type) where
  store : ReadCommitted ι ν
  activity : ι → Activity ν σ ε α

def System.start (programs : ι → Txn ν σ ε α) (rows : (k : κ) → ν k) : System ι ν σ ε α :=
  ⟨.idle rows, fun t => .ready (programs t)⟩

section Step

variable [DecidableEq ι] [Fintype ι] [DecidableEq κ] [DecidableEq δ] (ix : UniqueIndex ν δ ε)

/-- The next step of a transaction, unless it has to wait or has ended. -/
def Activity.advance (s : ReadCommitted ι ν) (t : ι) :
    Activity ν σ ε α → Option (ReadCommitted ι ν × Activity ν σ ε α)
  | .ready (.done a) => some (s.commit t, .ended (.ok a))
  | .ready (.fail e) => some (s.rollback t, .ended (.error e))
  | .ready (.select _ next) => some (s, .ready (next (s.read t)))
  | .ready (.lock _ k next) =>
    if s.free t k then some (s.lock t k, .ready (next (s.read t k))) else none
  | .ready (.update _ find change next) =>
    some (s, .writing (change (s.read t)) (find (s.read t)) [] next)
  | .writing _ [] touched next => some (s, .ready (next touched))
  | .writing change (k :: found) touched next =>
    if s.free t k then
      match change k (s.read t k) with
      | .leave => some (s.lock t k, .writing change found touched next)
      | .refuse e => some (s.rollback t, .ended (.error e))
      | .write v =>
        if ix.contested s t k v then none
        else match ix.violation (s.read t) k v with
          | some e => some (s.rollback t, .ended (.error e))
          | none => some (s.write t k v, .writing change found (touched ++ [⟨k, v⟩]) next)
    else none
  | .ended _ => none

def System.step (s : System ι ν σ ε α) (t : ι) : System ι ν σ ε α :=
  match (s.activity t).advance ix s.store t with
  | none => s
  | some (store, activity) => ⟨store, Function.update s.activity t activity⟩

/-- What the transaction comes to if it is left alone from now on. -/
def Activity.outcome : Activity ν σ ε α → ((k : κ) → ν k) → Except ε (α × ((k : κ) → ν k))
  | .ready rest, rows => rest.serial ix rows
  | .writing change found touched next, rows =>
    amend ix change found touched rows >>= fun r => (next r.1).serial ix r.2
  | .ended (.ok a), rows => .ok (a, rows)
  | .ended (.error e), _ => .error e

/-- Every statement that can still start is one of the given ones. -/
def Activity.Uses (p : σ → Prop) : Activity ν σ ε α → Prop
  | .ready rest => rest.Uses p
  | .writing _ _ _ next => ∀ touched, (next touched).Uses p
  | .ended _ => True

/-- Left alone from now on, the transaction leaves the busy rows alone. -/
def Activity.Avoids (busy : κ → Prop) : Activity ν σ ε α → ((k : κ) → ν k) → Prop
  | .ready rest, rows => rest.Avoids ix busy rows
  | .writing change found touched next, rows => (∀ k ∈ found, ¬busy k) ∧
      ∀ r, amend ix change found touched rows = .ok r → (next r.1).Avoids ix busy r.2
  | .ended _, _ => True

variable (s : ReadCommitted ι ν) (t : ι)

/-- The turns of a transaction, with what they leave. -/
inductive Turn : Activity ν σ ε α → ReadCommitted ι ν → Activity ν σ ε α → Prop where
  | done {a : α} : Turn (.ready (.done a)) (s.commit t) (.ended (.ok a))
  | fail {e : ε} : Turn (.ready (.fail e)) (s.rollback t) (.ended (.error e))
  | select {name next} : Turn (.ready (.select name next)) s (.ready (next (s.read t)))
  | lock {name k next} (free : s.free t k) :
      Turn (.ready (.lock name k next)) (s.lock t k) (.ready (next (s.read t k)))
  | start {name find change next} : Turn (.ready (.update name find change next)) s
      (.writing (change (s.read t)) (find (s.read t)) [] next)
  | finish {change touched next} : Turn (.writing change [] touched next) s (.ready (next touched))
  | leave {change k found touched next} (free : s.free t k)
      (verdict : change k (s.read t k) = .leave) :
      Turn (.writing change (k :: found) touched next) (s.lock t k)
        (.writing change found touched next)
  | refuse {change k found touched next e} (free : s.free t k)
      (verdict : change k (s.read t k) = .refuse e) :
      Turn (.writing change (k :: found) touched next) (s.rollback t) (.ended (.error e))
  | violate {change k found touched next v e} (free : s.free t k)
      (verdict : change k (s.read t k) = .write v) (uncontested : ix.contested s t k v = false)
      (taken : ix.violation (s.read t) k v = some e) :
      Turn (.writing change (k :: found) touched next) (s.rollback t) (.ended (.error e))
  | write {change k found touched next v} (free : s.free t k)
      (verdict : change k (s.read t k) = .write v) (uncontested : ix.contested s t k v = false)
      (valid : ix.violation (s.read t) k v = none) :
      Turn (.writing change (k :: found) touched next) (s.write t k v)
        (.writing change found (touched ++ [⟨k, v⟩]) next)

variable {ix s t} {s' : ReadCommitted ι ν} {u : ι} {act act' : Activity ν σ ε α}

theorem Activity.turn_of_advance (h : act.advance ix s t = some (s', act')) :
    Turn ix s t act s' act' := by
  cases act with
  | ready rest =>
    cases rest with
    | done a => cases h; exact .done
    | fail e => cases h; exact .fail
    | select name next => cases h; exact .select
    | lock name k next =>
      obtain ⟨free, h⟩ := Option.ite_none_right_eq_some.mp h
      cases h
      exact .lock free
    | update name find change next => cases h; exact .start
  | ended => cases h
  | writing change found touched next =>
    cases found with
    | nil => cases h; exact .finish
    | cons k found =>
      obtain ⟨free, h⟩ := Option.ite_none_right_eq_some.mp h
      cases verdict : change k (s.read t k) with
      | leave => rw [verdict] at h; cases h; exact .leave free verdict
      | refuse e => rw [verdict] at h; cases h; exact .refuse free verdict
      | write v =>
        rw [verdict] at h
        obtain ⟨uncontested, h⟩ := Option.ite_none_left_eq_some.mp h
        rw [Bool.not_eq_true] at uncontested
        cases valid : ix.violation (s.read t) k v with
        | some e => rw [valid] at h; cases h; exact .violate free verdict uncontested valid
        | none => rw [valid] at h; cases h; exact .write free verdict uncontested valid

namespace Turn

variable (turn : Turn ix s t act s' act')

include turn

theorem locked (locked : s.Locked) : s'.Locked := by
  cases turn with
  | done => exact locked.commit t
  | fail | refuse | violate => exact locked.rollback t
  | select | start | finish => exact locked
  | lock free | leave free => exact locked.lock free
  | write free => exact locked.write free _

/-- A transaction does not touch the versions and locks of the others. -/
theorem others (other : u ≠ t) : s'.own u = s.own u ∧ s'.locks u = s.locks u := by
  cases turn with
  | done => simp [ReadCommitted.commit, other]
  | fail | refuse | violate => simp [ReadCommitted.rollback, other]
  | select | start | finish => exact ⟨rfl, rfl⟩
  | lock | leave => simp [ReadCommitted.lock, other]
  | write => simp [ReadCommitted.write, ReadCommitted.lock, other]

/-- Only the successful end of a transaction changes what is committed. -/
theorem committed : (s'.committed = s.committed ∧ ∀ a, act' ≠ .ended (.ok a)) ∨
    ∃ a, act = .ready (.done a) ∧ s' = s.commit t ∧ act' = .ended (.ok a) := by
  cases turn with
  | done => exact Or.inr ⟨_, rfl, rfl, rfl⟩
  | _ => exact Or.inl ⟨rfl, fun _ ended => by cases ended⟩

omit turn in
/-- A transaction that has ended has no lock. -/
theorem released {r : Except ε α} (turn : Turn ix s t act s' (.ended r)) (k : κ) :
    s'.locks t k = false := by
  cases turn <;> simp [ReadCommitted.commit, ReadCommitted.rollback]

/-- A turn in which a transaction fails is the end of one that was bound to fail. -/
theorem running (unfinished : ∀ a, act ≠ .ready (.done a)) {a : α} {rows : (k : κ) → ν k}
    (succeeds : act'.outcome ix (s'.read t) = .ok (a, rows)) (result : Except ε α) :
    act' ≠ .ended result := by
  cases turn with
  | done => exact absurd rfl (unfinished _)
  | fail | refuse | violate => cases succeeds
  | _ => exact fun ended => by cases ended

/-- A transaction's own turns do not change its outcome. -/
theorem outcome : act'.outcome ix (s'.read t) = act.outcome ix (s.read t) := by
  cases turn with
  | done =>
    rw [ReadCommitted.read_commit_self]
    rfl
  | fail | select | lock | start | finish => rfl
  | leave free verdict | refuse free verdict => simp only [Activity.outcome, amend, verdict]; rfl
  | violate free verdict uncontested taken =>
    simp only [Activity.outcome, amend, verdict, taken]
    rfl
  | write free verdict uncontested valid =>
    simp only [Activity.outcome, amend, verdict, valid, ReadCommitted.read_write_self]

theorem uses {p : σ → Prop} (before : act.Uses p) : act'.Uses p := by
  cases turn with
  | done | fail | refuse | violate => trivial
  | select | lock => exact before.2 _
  | start => exact before.2
  | finish => exact before _
  | leave | write => exact before

theorem avoids {busy : κ → Prop} (before : act.Avoids ix busy (s.read t)) :
    act'.Avoids ix busy (s'.read t) := by
  cases turn with
  | done | fail | refuse | violate => trivial
  | select | start => exact before
  | finish => exact before.2 _ rfl
  | lock => exact before.2
  | leave free verdict =>
    refine ⟨fun l member => before.1 l (List.mem_cons_of_mem _ member), fun r ended => ?_⟩
    refine before.2 r ?_
    simp only [amend, verdict]
    exact ended
  | write free verdict uncontested valid =>
    refine ⟨fun l member => before.1 l (List.mem_cons_of_mem _ member), fun r ended => ?_⟩
    refine before.2 r ?_
    rw [ReadCommitted.read_write_self] at ended
    simp only [amend, verdict, valid]
    exact ended

end Turn

section Descent

variable (ix)

/-- One activity follows another in some store. -/
def Follows (ι : Type) [DecidableEq ι] [Fintype ι] (act' act : Activity ν σ ε α) : Prop :=
  ∃ (s : ReadCommitted ι ν) (t : ι) (s' : ReadCommitted ι ν), Turn ix s t act s' act'

variable {ix}

theorem acc_ended (result : Except ε α) :
    Acc (Follows ix ι) (.ended result : Activity ν σ ε α) := by
  refine ⟨_, fun act' h => ?_⟩
  obtain ⟨s, t, s', turn⟩ := h
  cases turn

theorem acc_writing {change : (k : κ) → ν k → Verdict ε (ν k)}
    {next : List ((k : κ) × ν k) → Txn ν σ ε α}
    (rest : ∀ touched, Acc (Follows ix ι) (.ready (next touched))) (found : List κ)
    (touched : List ((k : κ) × ν k)) :
    Acc (Follows ix ι) (.writing change found touched next) := by
  induction found generalizing touched with
  | nil =>
    refine ⟨_, fun act' h => ?_⟩
    obtain ⟨s, t, s', turn⟩ := h
    cases turn
    exact rest touched
  | cons k found ih =>
    refine ⟨_, fun act' h => ?_⟩
    obtain ⟨s, t, s', turn⟩ := h
    cases turn with
    | leave => exact ih touched
    | refuse | violate => exact acc_ended _
    | write => exact ih _

theorem acc_ready (rest : Txn ν σ ε α) : Acc (Follows ix ι) (.ready rest) := by
  induction rest with
  | done | fail =>
    refine ⟨_, fun act' h => ?_⟩
    obtain ⟨s, t, s', turn⟩ := h
    cases turn
    exact acc_ended _
  | select name next ih | lock name k next ih =>
    refine ⟨_, fun act' h => ?_⟩
    obtain ⟨s, t, s', turn⟩ := h
    cases turn
    exact ih _
  | update name find change next ih =>
    refine ⟨_, fun act' h => ?_⟩
    obtain ⟨s, t, s', turn⟩ := h
    cases turn
    exact acc_writing ih _ _

/-- No transaction has infinitely many turns, whatever the others do. -/
theorem wellFounded_follows :
    WellFounded (Follows ix ι : Activity ν σ ε α → Activity ν σ ε α → Prop) := by
  refine ⟨fun act => ?_⟩
  cases act with
  | ready rest => exact acc_ready rest
  | writing change found touched next => exact acc_writing (fun _ => acc_ready _) found touched
  | ended result => exact acc_ended result

end Descent

/-- The others have written nothing, and the rows that they have locked are busy. -/
def Undisturbed (busy : κ → Prop) (s : ReadCommitted ι ν) (t : ι) : Prop :=
  ∀ u, u ≠ t → (∀ k, s.own u k = none) ∧ ∀ k, s.locks u k → busy k

/-- A transaction that avoids the rows that others have locked does not wait. -/
theorem Activity.advance_of_avoids {busy : κ → Prop} (alone : Undisturbed busy s t)
    (avoids : act.Avoids ix busy (s.read t)) :
    (∃ r, act = .ended r) ∨ ∃ s' act', act.advance ix s t = some (s', act') := by
  have free {k : κ} (idle : ¬busy k) : s.free t k := by
    simp only [ReadCommitted.free, decide_eq_true_eq]
    intro u other
    exact Bool.eq_false_iff.mpr fun held => idle ((alone u other).2 k held)
  have uncontested {k : κ} (v : ν k) : ix.contested s t k v = false := by
    simp only [UniqueIndex.contested, Option.any_eq_false, List.any_eq_false, decide_eq_true_eq]
    rintro e - l - ⟨-, u, other, written, -⟩
    simp [(alone u other).1 l] at written
  cases act with
  | ended r => exact Or.inl ⟨r, rfl⟩
  | ready rest =>
    refine Or.inr ?_
    cases rest with
    | done | fail | select | update => exact ⟨_, _, rfl⟩
    | lock name k next => simp [Activity.advance, free avoids.1]
  | writing change found touched next =>
    refine Or.inr ?_
    cases found with
    | nil => exact ⟨_, _, rfl⟩
    | cons k found =>
      simp only [Activity.advance, free (avoids.1 k List.mem_cons_self), if_true]
      cases change k (s.read t k) with
      | leave | refuse => exact ⟨_, _, rfl⟩
      | write v =>
        simp only [uncontested v]
        cases ix.violation (s.read t) k v with
        | none | some => exact ⟨_, _, rfl⟩

namespace System

variable {s : System ι ν σ ε α} {t u : ι}

/-- A turn leaves the system as it is, or it is one of those that a transaction can have. -/
theorem step_cases {R : System ι ν σ ε α → Prop} (waits : R s)
    (moves : ∀ store act, Turn ix s.store t (s.activity t) store act →
      R ⟨store, Function.update s.activity t act⟩) : R (s.step ix t) := by
  unfold step
  split
  · exact waits
  · next store act h => exact moves store act (Activity.turn_of_advance h)

/-- Undisturbed, a transaction comes to its end. -/
theorem exists_ended {busy : κ → Prop} {guard : System ι ν σ ε α → ι → Prop}
    (alone : Undisturbed busy s.store t)
    (avoids : (s.activity t).Avoids ix busy (s.store.read t))
    (allowed : ∀ s' : System ι ν σ ε α, (∀ u, u ≠ t → s'.activity u = s.activity u) → guard s' t) :
    ∃ n, Guarded (step ix) guard s (List.replicate n t) ∧
      (∃ r, (run (step ix) s (List.replicate n t)).activity t = .ended r) ∧
      ∀ u, u ≠ t → (run (step ix) s (List.replicate n t)).activity u = s.activity u := by
  induction act : s.activity t using wellFounded_follows.induction (r := Follows ix ι)
    generalizing s with
  | h act ih =>
    subst act
    obtain ended | ⟨store, act', h⟩ := Activity.advance_of_avoids alone avoids
    · exact ⟨0, trivial, ended, fun _ _ => rfl⟩
    · have turn := Activity.turn_of_advance h
      have stepped : s.step ix t = ⟨store, Function.update s.activity t act'⟩ := by
        rw [step, h]
      have same {v : ι} (other : v ≠ t) : (s.step ix t).activity v = s.activity v := by
        rw [stepped]
        exact Function.update_of_ne other _ _
      have next : (s.step ix t).activity t = act' := by
        rw [stepped]
        exact Function.update_self ..
      have alone' : Undisturbed busy (s.step ix t).store t := by
        intro v other
        rw [stepped, (turn.others other).1, (turn.others other).2]
        exact alone v other
      have avoids' : ((s.step ix t).activity t).Avoids ix busy ((s.step ix t).store.read t) := by
        rw [next, stepped]
        exact turn.avoids avoids
      obtain ⟨n, guarded, ended, others⟩ := ih act' ⟨s.store, t, store, turn⟩ alone' avoids'
        (fun s' agree => allowed s' fun v other => (agree v other).trans (same other)) next
      exact ⟨n + 1, ⟨allowed s fun _ _ => rfl, guarded⟩, ended,
        fun v other => (others v other).trans (same other)⟩

end System

end Step

end Relational
