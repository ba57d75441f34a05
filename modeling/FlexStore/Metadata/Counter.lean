import FlexStore.Metadata.Accounting
import FlexStore.Relational.ReadCommitted
import Mathlib.Data.Fintype.Card

/-!
# The durability counter under concurrent transactions

The trigger on `chunk_replicas` recounts the AVAILABLE replicas of a chunk and writes the
count into the chunk's row, in the transaction that changed the replica. Here the
transactions run statement by statement at READ COMMITTED, with the rows of one chunk: its
own row, which holds the counter, and its replica rows.

The trigger's UPDATE counts in the snapshot it takes when it starts. If it then has to wait
for the lock of the chunk's row, whoever held the lock has committed a change that the
snapshot does not show, and the count that is written is too old. In a run in which no
replica changes between the start of such an UPDATE and its write, the counter is exact
whenever it can be read. A call that runs alone does what the store's transaction does.
-/

namespace FlexStore.Metadata.Counter

open Relational Transition

variable {ι Node : Type}

/-- The rows of one chunk: its own and one for each node. -/
inductive RowKey (Node : Type) where
  | chunk
  | replica (n : Node)
  deriving DecidableEq

/-- The versions of a row: the counter, and the state of a replica if there is one. -/
@[reducible] def RowKey.Version : RowKey Node → Type
  | .chunk => Nat
  | .replica _ => Option ReplicaState

abbrev Rows (Node : Type) := (k : RowKey Node) → k.Version

/-- `SELECT COUNT(*) FROM chunk_replicas WHERE state = 'AVAILABLE'`. -/
def available [Fintype Node] (rows : Rows Node) : Nat :=
  Fintype.card { n : Node // rows (.replica n) = some .available }

/-- What a statement does to a replica row: the new version, or `none` if the row does not
meet the statement's condition. A row is inserted, as by CompleteRepair, where there was none,
and deleted, as by FinishDeletion, where the new version is none. -/
abbrev Update := Option ReplicaState → Option (Option ReplicaState)

/-- `UPDATE ... SET state = s WHERE ... AND p state`. -/
def setWhere (p : ReplicaState → Bool) (s : ReplicaState) : Update := fun old =>
  if old.any p then some (some s) else none

/-- The statements of a transaction that concern the chunk: `SELECT ... FOR UPDATE` of its
row, with which CommitChunk and TrimOverReplicatedChunks begin, and a statement that changes
replica rows. -/
inductive Statement (Node : Type) where
  | lockChunk
  | change (rows : List (Node × Update))

/-- What a transaction is doing: nothing, changing the rows that are left of its statement,
or counting in the trigger. Both happen in the snapshot that the statement took when it
started. -/
inductive Phase (Node : Type) where
  | ready
  | changing (snapshot : Rows Node) (rows : List (Node × Update))
  | counting (snapshot : Rows Node)

/-- Where a transaction stands: the statements that are left, what it is doing, and for how
many changed rows the trigger has still to fire. -/
structure Script (Node : Type) where
  statements : List (Statement Node)
  phase : Phase Node
  due : Nat
  ended : Bool

structure System (ι Node : Type) where
  store : ReadCommitted ι (@RowKey.Version Node)
  scripts : ι → Script Node

/-- The steps of a transaction: a statement starts, changes its next row or ends, the
trigger's UPDATE starts, it writes, the transaction commits. -/
inductive Event (ι : Type) where
  | start (t : ι)
  | row (t : ι)
  | trigger (t : ι)
  | refresh (t : ι)
  | commit (t : ι)

namespace System

def start (programs : ι → List (Statement Node)) (rows : Rows Node) : System ι Node :=
  ⟨.idle rows, fun t => ⟨programs t, .ready, 0, false⟩⟩

variable [DecidableEq ι]

def set (s : System ι Node) (t : ι) (store : ReadCommitted ι (@RowKey.Version Node))
    (script : Script Node) : System ι Node :=
  ⟨store, Function.update s.scripts t script⟩

variable [Fintype Node]

/-- The committed counter is the number of committed AVAILABLE replicas. -/
def Exact (s : System ι Node) : Prop := s.store.committed .chunk = available s.store.committed

variable [Fintype ι] [DecidableEq Node]

/-- One step. A step that is not the transaction's turn, or that has to wait for a lock, does
nothing. -/
def step (s : System ι Node) : Event ι → System ι Node
  | .start t =>
    match s.scripts t with
    | ⟨.lockChunk :: rest, .ready, 0, ended⟩ =>
      if s.store.free t .chunk then s.set t (s.store.lock t .chunk) ⟨rest, .ready, 0, ended⟩
      else s
    | ⟨.change rows :: rest, .ready, 0, ended⟩ =>
      s.set t s.store ⟨rest, .changing (s.store.read t) rows, 0, ended⟩
    | _ => s
  | .row t =>
    match s.scripts t with
    | ⟨rest, .changing _ [], due, ended⟩ => s.set t s.store ⟨rest, .ready, due, ended⟩
    | ⟨rest, .changing snapshot ((n, update) :: rows), due, ended⟩ =>
      -- The row is found in the snapshot, and looked at again once it is locked.
      if (update (snapshot (.replica n))).isNone then
        s.set t s.store ⟨rest, .changing snapshot rows, due, ended⟩
      else if s.store.free t (.replica n) then
        match update (s.store.read t (.replica n)) with
        | none => s.set t (s.store.lock t (.replica n))
            ⟨rest, .changing snapshot rows, due, ended⟩
        | some v => s.set t (s.store.write t (.replica n) v)
            ⟨rest, .changing snapshot rows, due + 1, ended⟩
      else s
    | _ => s
  | .trigger t =>
    match s.scripts t with
    | ⟨rest, .ready, due + 1, ended⟩ =>
      s.set t s.store ⟨rest, .counting (s.store.read t), due + 1, ended⟩
    | _ => s
  | .refresh t =>
    match s.scripts t with
    | ⟨rest, .counting snapshot, due + 1, ended⟩ =>
      if s.store.free t .chunk then
        s.set t (s.store.write t .chunk (available snapshot)) ⟨rest, .ready, due, ended⟩
      else s
    | _ => s
  | .commit t =>
    match s.scripts t with
    | ⟨[], .ready, 0, _⟩ => s.set t (s.store.commit t) ⟨[], .ready, 0, true⟩
    | _ => s

/-- No replica has changed since the trigger's UPDATE that is about to write has started. -/
def current (s : System ι Node) : Event ι → Bool
  | .refresh t =>
    match (s.scripts t).phase with
    | .counting snapshot =>
      decide (∀ n, snapshot (.replica n) = s.store.read t (.replica n))
    | _ => true
  | _ => true

end System

section Invariant

variable [Fintype Node]

theorem available_congr {rows rows' : Rows Node}
    (same : ∀ n, rows (.replica n) = rows' (.replica n)) : available rows = available rows' := by
  simp only [available, same]

/-- The invariant: the committed counter is exact, and so is the counter of a transaction
for which no trigger is due, as the transaction sees the rows. A transaction that has
changed a replica has the chunk's row when no trigger is due. -/
structure Counted (s : System ι Node) : Prop where
  locked : s.store.Locked
  exact : s.Exact
  refreshed : ∀ t k, (s.scripts t).due = 0 → s.store.own t .chunk = some k →
    k = available (s.store.read t)
  recounted : ∀ t n, (s.scripts t).due = 0 → s.store.own t (.replica n) ≠ none →
    s.store.own t .chunk ≠ none

theorem counted_start {programs : ι → List (Statement Node)} {rows : Rows Node}
    (exact : rows .chunk = available rows) : Counted (System.start programs rows) where
  locked := ReadCommitted.locked_idle rows
  exact
  refreshed t k _ own := by cases own
  recounted t n _ own := absurd rfl own

namespace Counted

variable [DecidableEq ι] {s : System ι Node} {t : ι} {script : Script Node}
  {store : ReadCommitted ι (@RowKey.Version Node)}

/-- A step of one transaction keeps the invariant, if it keeps what the others have written
and, for the one that has the chunk's row, what it sees. -/
theorem set (counted : Counted s) (locked : store.Locked)
    (exact : store.committed .chunk = available store.committed)
    (others : ∀ u, u ≠ t → store.own u = s.store.own u ∧ (s.store.own u .chunk ≠ none →
      ∀ n, store.read u (.replica n) = s.store.read u (.replica n)))
    (mine : script.due = 0 →
      (∀ k, store.own t .chunk = some k → k = available (store.read t)) ∧
        ∀ n, store.own t (.replica n) ≠ none → store.own t .chunk ≠ none) :
    Counted (s.set t store script) where
  locked
  exact
  refreshed u k idle own := by
    change store.own u .chunk = some k at own
    change k = available (store.read u)
    by_cases same : u = t
    · subst same
      exact (mine (by simpa [System.set] using idle)).1 k own
    · obtain ⟨kept, seen⟩ := others u same
      rw [kept] at own
      rw [counted.refreshed u k (by simpa [System.set, same] using idle) own]
      exact available_congr fun n => (seen (by simp [own]) n).symm
  recounted u n idle own := by
    change store.own u (.replica n) ≠ none at own
    change store.own u .chunk ≠ none
    by_cases same : u = t
    · subst same
      exact (mine (by simpa [System.set] using idle)).2 n own
    · rw [(others u same).1] at own ⊢
      exact counted.recounted u n (by simpa [System.set, same] using idle) own

/-- The transaction has not written. -/
theorem moved (counted : Counted s) (due : script.due = (s.scripts t).due)
    (locked : store.Locked) (committed : store.committed = s.store.committed)
    (own : store.own = s.store.own) : Counted (s.set t store script) := by
  have read : store.read = s.store.read := by
    unfold ReadCommitted.read
    rw [committed, own]
  refine counted.set locked (by rw [committed]; exact counted.exact) (fun u _ => ?_) fun idle => ?_
  · rw [own, read]
    exact ⟨rfl, fun _ _ => rfl⟩
  · rw [own, read]
    exact ⟨fun k => counted.refreshed t k (due ▸ idle), fun n => counted.recounted t n (due ▸ idle)⟩

/-- Whoever commits has counted what it has changed, and nobody else has the chunk's row. -/
theorem commit (counted : Counted s) (idle : (s.scripts t).due = 0) :
    Counted (s.set t (s.store.commit t) script) := by
  have unchanged (none_ : s.store.own t .chunk = none) (n : Node) :
      s.store.own t (.replica n) = none := by
    by_contra own
    exact counted.recounted t n idle own none_
  refine counted.set (counted.locked.commit t) ?_ (fun u other => ?_) fun _ => ?_
  · change s.store.read t .chunk = available (s.store.read t)
    cases own : s.store.own t .chunk with
    | none =>
      rw [ReadCommitted.read_of_own_none own, counted.exact]
      exact available_congr fun n => (ReadCommitted.read_of_own_none (unchanged own n)).symm
    | some k =>
      rw [← counted.refreshed t k idle own, ReadCommitted.read, own]
      rfl
  · refine ⟨ReadCommitted.own_commit_of_ne other, fun held n => ?_⟩
    refine ReadCommitted.read_commit_of_ne other (unchanged ?_ n)
    by_contra own
    exact other (counted.locked.exclusive (counted.locked.covered held)
      (counted.locked.covered own))
  · exact ⟨fun k own => by simp at own, fun n own => absurd ReadCommitted.own_commit_self own⟩

variable [DecidableEq Node] [Fintype ι]

/-- The transaction has changed a replica, and the trigger is due. -/
theorem changed (counted : Counted s) {n : Node} {v : Option ReplicaState}
    (free : s.store.free t (.replica n)) (due : script.due ≠ 0) :
    Counted (s.set t (s.store.write t (.replica n) v) script) := by
  refine counted.set (counted.locked.write free v) counted.exact (fun u other => ?_) fun idle =>
    absurd idle due
  refine ⟨funext fun k => ReadCommitted.own_write_of_ne (Or.inl other), fun _ m => ?_⟩
  exact ReadCommitted.read_write_of_ne (Or.inl other)

/-- The trigger has written a count that is not too old. -/
theorem refresh (counted : Counted s) {snapshot : Rows Node} (free : s.store.free t .chunk)
    (current : ∀ n, snapshot (.replica n) = s.store.read t (.replica n)) :
    Counted (s.set t (s.store.write t .chunk (available snapshot)) script) := by
  have seen (n : Node) : (s.store.write t .chunk (available snapshot)).read t (.replica n) =
      snapshot (.replica n) := by
    rw [current]
    exact ReadCommitted.read_write_of_ne (Or.inr (by simp))
  refine counted.set (counted.locked.write free _) counted.exact (fun u other => ?_) fun _ => ?_
  · refine ⟨funext fun k => ReadCommitted.own_write_of_ne (Or.inl other), fun _ m => ?_⟩
    exact ReadCommitted.read_write_of_ne (Or.inl other)
  · refine ⟨fun k own => ?_, fun n _ => by simp⟩
    rw [ReadCommitted.own_write_self] at own
    rw [← Option.some.inj own]
    exact (available_congr seen).symm

/-- Every step keeps the invariant, unless the trigger writes a count that is too old. -/
theorem step {e : Event ι} (counted : Counted s) (current : s.current e) :
    Counted (s.step e) := by
  cases e with
  | start t =>
    rw [System.step]
    split
    · next before =>
        split
        · next free =>
            exact counted.moved (by simp [before]) (counted.locked.lock free) rfl rfl
        · exact counted
    · next before => exact counted.moved (by simp [before]) counted.locked rfl rfl
    · exact counted
  | row t =>
    rw [System.step]
    split
    · next before => exact counted.moved (by simp [before]) counted.locked rfl rfl
    · next before =>
        split
        · exact counted.moved (by simp [before]) counted.locked rfl rfl
        · split
          · next free =>
              split
              · exact counted.moved (by simp [before]) (counted.locked.lock free) rfl rfl
              · exact counted.changed free (Nat.succ_ne_zero _)
          · exact counted
    · exact counted
  | trigger t =>
    rw [System.step]
    split
    · next before => exact counted.moved (by simp [before]) counted.locked rfl rfl
    · exact counted
  | refresh t =>
    rw [System.step]
    split
    · next before =>
        split
        · next free =>
            refine counted.refresh free ?_
            simpa [System.current, before] using current
        · exact counted
    · exact counted
  | commit t =>
    rw [System.step]
    split
    · next before => exact counted.commit (by simp [before])
    · exact counted

end Counted

/-- For any number of transactions on one chunk, whatever they change, and every
interleaving of their statements: if no replica changes between the start of a trigger's
UPDATE and its write, the committed counter is the number of committed AVAILABLE replicas in
every state, and in particular once all have committed. -/
theorem counter_exact [DecidableEq ι] [Fintype ι] [DecidableEq Node]
    {programs : ι → List (Statement Node)} {rows : Rows Node}
    (exact : rows .chunk = available rows) {events : List (Event ι)}
    (undisturbed : Guarded System.step (fun s e => s.current e) (System.start programs rows)
      events) : Always System.step System.Exact (System.start programs rows) events := by
  have counted : Always System.step Counted (System.start programs rows) events :=
    always_of_preserved (fun _ _ counted current => counted.step current) (counted_start exact)
      undisturbed
  exact counted.mono fun _ counted => counted.exact

end Invariant

def markReplicaCorrupt (n : Node) : List (Statement Node) :=
  [.change [(n, setWhere (· ≠ .deleting) .corrupt)]]

/-- `SetNodeHealth` with DEAD, as far as the chunk is concerned. -/
def setNodeDead (n : Node) : List (Statement Node) :=
  [.change [(n, setWhere (fun s => s = .available || s = .writing) .unavailable)]]

section Store

variable [DecidableEq ι] [Fintype ι]

/-- The steps of a transaction with one statement that changes one row. -/
def alone (t : ι) : List (Event ι) :=
  [.start t, .row t, .row t, .trigger t, .refresh t, .commit t]

/-- A transaction that runs alone changes its row and leaves the counter exact. -/
theorem committed_alone [DecidableEq Node] [Fintype Node] {programs : ι → List (Statement Node)}
    {rows rows' : Rows Node} {t : ι} {n : Node} {update : Update}
    (program : programs t = [.change [(n, update)]]) (exact : rows .chunk = available rows)
    (exact' : rows' .chunk = available rows') (changed : ∀ m, rows' (.replica m) =
      Function.update rows (.replica n) ((update (rows (.replica n))).getD (rows (.replica n)))
        (.replica m)) :
    (run System.step (System.start programs rows) (alone t)).store.committed = rows' := by
  have read : (ReadCommitted.idle rows : ReadCommitted ι _).read t = rows := rfl
  have same (final : Rows Node) (counted : final .chunk = available final)
      (equal : ∀ m, rows' (.replica m) = final (.replica m)) : rows' = final := by
    funext k
    cases k with
    | chunk => exact (exact'.trans (available_congr equal)).trans counted.symm
    | replica m => exact equal m
  cases out : update (rows (.replica n)) with
  | none =>
    rw [same rows exact (by simpa [out] using changed)]
    simp [alone, run, System.step, System.start, System.set, program, read, out,
      ReadCommitted.commit]
  | some v =>
    have after : ((ReadCommitted.idle rows).write t (.replica n) v).read t =
        Function.update rows (.replica n) v := ReadCommitted.read_write_self
    rw [same (Function.update (Function.update rows (.replica n) v) .chunk
      (available (Function.update rows (.replica n) v)))
      ((Function.update_self ..).trans (available_congr fun m => by simp))
      (by simpa [out] using changed)]
    simp [alone, run, System.step, System.start, System.set, program, read, out, after,
      ReadCommitted.commit, ReadCommitted.free_idle, ReadCommitted.free_write,
      ReadCommitted.read_write_self]

/-- The rows of a chunk in the database, for nodes on a list. -/
def rowsOf (db : Database) (roster : Finset NodeID) (c : UUID) : Rows roster
  | .chunk => (db.availableReplicas c).toNat
  | .replica n => db.replicaState c n

variable {db : Database} {roster : Finset NodeID} {c : UUID}

/-- If the list is complete and the counter exact, so is the counter of the rows. -/
theorem exact_rowsOf (counted : Metadata.Counted db)
    (enrolled : ∀ n, (db.replicaState c n).isSome → n ∈ roster) :
    rowsOf db roster c .chunk = available (rowsOf db roster c) := by
  have listed : {n | db.replicaState c n = some .available} =
      Subtype.val '' {n : roster | db.replicaState c n = some .available} := by
    ext n
    constructor
    · intro held
      exact ⟨⟨n, enrolled n (Option.isSome_of_eq_some held)⟩, held, rfl⟩
    · rintro ⟨m, held, rfl⟩
      exact held
  rw [rowsOf, counted c, Int.toNat_natCast, countAvailable_eq_ncard, listed,
    Set.ncard_image_of_injective _ Subtype.val_injective, available, ← Nat.card_eq_fintype_card]
  rfl

/-- Each of the two calls, run alone, does to the rows of the chunk what the store's
transaction does. -/
theorem alone_refines {programs : ι → List (Statement roster)} {t : ι} {n : roster} {now : Time}
    (counted : Metadata.Counted db) (enrolled : ∀ n, (db.replicaState c n).isSome → n ∈ roster) :
    (∀ detail, programs t = markReplicaCorrupt n →
      (run System.step (System.start programs (rowsOf db roster c)) (alone t)).store.committed =
        rowsOf (demoteCorrupt now c n detail db) roster c) ∧
    (programs t = setNodeDead n →
      (run System.step (System.start programs (rowsOf db roster c)) (alone t)).store.committed =
        rowsOf (setNodeHealth now n .dead db).2 roster c) := by
  -- Both are one UPDATE of the replica row, with the trigger behind it.
  have update {db' : Database} {meets : ReplicaState → Bool} {state : ReplicaState}
      (program : programs t = [.change [(n, setWhere meets state)]])
      (kept : Metadata.Counted db') (states : ∀ m, db'.replicaState c m =
        (db.replicaState c m).map fun old => if m = n && meets old then state else old) :
      (run System.step (System.start programs (rowsOf db roster c)) (alone t)).store.committed =
        rowsOf db' roster c := by
    refine committed_alone program (exact_rowsOf counted enrolled)
      (exact_rowsOf kept fun m held => enrolled m (by simpa [states] using held)) fun m => ?_
    refine (states m).trans ?_
    by_cases same : m = n
    · subst same
      rw [Function.update_self]
      cases held : db.replicaState c m <;> simp [setWhere, rowsOf, held]
      split <;> rfl
    · have other : m.1 ≠ n.1 := fun equal => same (Subtype.ext equal)
      simp [same, other, rowsOf]
  refine ⟨fun detail program => update program ?_ fun m => ?_,
    fun program => update program ?_ fun m => ?_⟩
  · exact (spares_updateReplicas db ..).maintains.2 counted
  · simpa [View.mapReplicas, Database.view] using
      congrArg (fun v => (v.slots c m).replica) (view_demoteCorrupt now c n detail db)
  · exact (spares_updateReplicas _ ..).maintains.2 counted
  · exact congrArg (fun v => (v.slots c m).replica) (view_setNodeHealth now n .dead db)

end Store

def twoReplicas : Rows Bool
  | .chunk => (2 : Nat)
  | .replica _ => some .available

/-- The first replica is reported corrupt, and the node of the second one dies. -/
def reportAndDeath : Bool → List (Statement Bool)
  | false => markReplicaCorrupt false
  | true => setNodeDead true

/-- The trigger of the second transaction fires when the first one has committed. -/
def inTurn : List (Event Bool) :=
  [.start false, .row false, .row false, .start true, .row true, .row true, .trigger false,
    .refresh false, .commit false, .trigger true, .refresh true, .commit true]

theorem counter_exact_inTurn :
    (∀ t, ((run System.step (System.start reportAndDeath twoReplicas) inTurn).scripts t).ended) ∧
      Always System.step System.Exact (System.start reportAndDeath twoReplicas) inTurn :=
  ⟨by decide, counter_exact (by decide) (by decide)⟩

/-- The trigger of the second transaction has counted when the first one commits, and writes
afterwards. -/
def overtaken : List (Event Bool) :=
  [.start false, .row false, .row false, .start true, .row true, .row true, .trigger false,
    .refresh false, .trigger true, .refresh true, .commit false, .refresh true, .commit true]

/-- Both have committed, no replica is AVAILABLE and the counter says one is. -/
theorem trigger_writes_stale_count :
    (∀ t, ((run System.step (System.start reportAndDeath twoReplicas) overtaken).scripts t).ended) ∧
      available (run System.step (System.start reportAndDeath twoReplicas)
        overtaken).store.committed = 0 ∧
      (run System.step (System.start reportAndDeath twoReplicas) overtaken).store.committed
        .chunk = (1 : Nat) := by
  decide

end FlexStore.Metadata.Counter
