import FlexStore.Digest.Sha256
import FlexStore.Go.Sort
import FlexStore.Go.Text
import FlexStore.Relational.Table
import FlexStore.Transition.Fallible
import FlexStore.Transition.Run

/-!
# Schema migrations

`Migrate` brings the schema up to date when a coordinator starts. Every run reads its own
list of migrations from the embedded files, waits for an advisory lock, and applies in
ascending order what `schema_migrations` does not record yet, each migration in a
transaction that executes its body and records its version.

Any number of runs are interleaved statement by statement. A statement can fail, its
connection can be lost, with or without its effect, and a process can crash. The schema keeps
the bodies that have been committed, oldest first, so that what the table says can be
compared with what happened.
-/

namespace FlexStore.Metadata.Migrations

open Go Relational Transition

abbrev Checksum := BitVec 256

/-- A migration. Its checksum is computed from its body when the file is read. -/
structure Migration where
  version : Int
  name : Bytes
  body : Bytes
  deriving DecidableEq, Repr

def Migration.checksum (m : Migration) : Checksum := Digest.sha256 m.body

section Load

structure File where
  name : Bytes
  isDir : Bool
  body : Bytes

/-- The errors of `loadMigrations`: `migration %q must be named <version>_<name>.sql`,
`migration %q has a non-numeric version` and `duplicate migration version %d`. -/
inductive LoadError where
  | named (filename : Bytes)
  | nonNumeric (filename : Bytes)
  | duplicate (version : Int)
  deriving DecidableEq, Repr

/-- `".sql"`. -/
def extension : Bytes := [0x2E, 0x73, 0x71, 0x6C]

def trimSuffix (s suffix : Bytes) : Bytes :=
  if suffix.isSuffixOf s then s.take (s.length - suffix.length) else s

def parseMigrationName (filename : Bytes) : Except LoadError (Int × Bytes) :=
  let base := trimSuffix filename extension
  match indexByte base 0x5F with
  | none => .error (.named filename)
  | some 0 => .error (.named filename)
  | some (i + 1) =>
    match parseInt (base.take (i + 1)) with
    | none => .error (.nonNumeric filename)
    | some version => .ok (version, base.drop (i + 2))

def readMigrations : List File → Except LoadError (List Migration)
  | [] => .ok []
  | e :: entries =>
    if e.isDir || !extension.isSuffixOf e.name then readMigrations entries
    else do
      let (version, name) ← parseMigrationName e.name
      let out ← readMigrations entries
      return ⟨version, name, e.body⟩ :: out

def duplicate : List Migration → Option Int
  | first :: second :: rest =>
    if second.version = first.version then some second.version else duplicate (second :: rest)
  | _ => none

/-- `sort.Slice` by version, and the refusal of a version that is there twice. -/
def sortMigrations (sorter : SliceSort) (out : List Migration) :
    Except LoadError (List Migration) :=
  let out := sorter.sort (fun a b : Migration => a.version < b.version) out
  match duplicate out with
  | some version => .error (.duplicate version)
  | none => .ok out

def loadMigrations (sorter : SliceSort) (entries : List File) :
    Except LoadError (List Migration) := do
  let out ← readMigrations entries
  sortMigrations sorter out

/-- A sorted list in which no two neighbours share a version is strictly ascending. -/
theorem ascending_of_duplicate {migs : List Migration}
    (sorted : migs.Pairwise fun a b => a.version ≤ b.version) (none : duplicate migs = none) :
    migs.Pairwise fun a b => a.version < b.version := by
  fun_induction duplicate migs with
  | case1 first second rest same => cases none
  | case2 first second rest differs ih =>
    obtain ⟨above, others⟩ := List.pairwise_cons.mp sorted
    refine List.pairwise_cons.mpr ⟨?_, ih others none⟩
    have next : first.version < second.version := by
      have := above second List.mem_cons_self
      omega
    intro m member
    obtain rfl | later := List.mem_cons.mp member
    · exact next
    · exact next.trans_le ((List.pairwise_cons.mp others).1 m later)
  | case3 migs short =>
    cases migs with
    | nil => exact List.Pairwise.nil
    | cons first rest =>
      cases rest with
      | nil => exact List.pairwise_singleton _ _
      | cons second rest => exact absurd rfl (short first second rest)

theorem sortMigrations_ascending {sorter : SliceSort} {out migs : List Migration}
    (sorted : sortMigrations sorter out = .ok migs) :
    migs.Pairwise fun a b => a.version < b.version := by
  rw [sortMigrations] at sorted
  split at sorted
  · cases sorted
  · rename_i none
    obtain rfl := Except.ok.inj sorted
    refine ascending_of_duplicate ?_ none
    refine (sorter.sorted out (StrictWeak.of_key Migration.version ?_)).imp ?_
    · intro a b
      exact decide_eq_true_iff
    · intro a b behind
      exact not_lt.mp (of_decide_eq_false behind)

theorem loadMigrations_ascending {sorter : SliceSort} {entries : List File}
    {migs : List Migration} (loaded : loadMigrations sorter entries = .ok migs) :
    migs.Pairwise fun a b => a.version < b.version := by
  obtain ⟨out, -, sorted⟩ := bind_eq_ok.mp loaded
  exact sortMigrations_ascending sorted

/-- The migrations of a run, in ascending order of their versions. -/
structure MigrationList where
  migs : List Migration
  ascending : migs.Pairwise fun a b => a.version < b.version

def MigrationList.load (sorter : SliceSort) (entries : List File) :
    Except LoadError MigrationList :=
  match h : loadMigrations sorter entries with
  | .error e => .error e
  | .ok migs => .ok ⟨migs, loadMigrations_ascending h⟩

end Load

structure MigrationRow where
  version : Int
  name : Bytes
  checksum : Checksum

/-- A body that has been executed and committed, and the run that did it. -/
structure Execution where
  run : Nat
  version : Int
  body : Bytes

/-- The database: the table and, oldest first, the committed bodies. -/
structure Schema where
  rows : Table MigrationRow.version
  executed : List Execution

/-- The versions that a run has committed, oldest first. -/
def Schema.commits (schema : Schema) (i : Nat) : List Int :=
  (schema.executed.filter fun e => e.run = i).map Execution.version

/-- The commit of a migration's transaction: its body and its row together. -/
def Schema.commit (schema : Schema) (i : Nat) (m : Migration) : Schema where
  rows := schema.rows.insertIgnore ⟨m.version, m.name, m.checksum⟩
  executed := schema.executed ++ [⟨i, m.version, m.body⟩]

/-- The errors of `Migrate`: those of the files, `acquire migration connection`,
`acquire advisory lock`, `create schema_migrations`, `read schema_migrations`,
`migration %d (%s) was modified after being applied (recorded %s, found %s)` and
`migration %d (%s)` with the failure of its transaction. -/
inductive MigrateError where
  | load (e : LoadError)
  | acquireConnection
  | acquireLock
  | createTable
  | readTable
  | modified (version : Int) (name : Bytes) (recorded found : Checksum)
  | migration (version : Int) (name : Bytes)

/-- What becomes of a statement. A lost one may have had its effect, but its session is gone
and with it the open transaction and the advisory lock. -/
inductive Outcome where
  | ok
  | failed
  | lost
  deriving DecidableEq, Repr

/-- The statement that a run is at. Inside the loop it knows `applied`, the table as it has
read it, the migration in hand and those behind it. -/
inductive Pc where
  | idle
  | acquire
  | lock
  | create
  | read
  | begin_ (applied : Table MigrationRow.version) (m : Migration) (rest : List Migration)
  | exec (applied : Table MigrationRow.version) (m : Migration) (rest : List Migration)
  | insert (applied : Table MigrationRow.version) (m : Migration) (rest : List Migration)
  | commit (applied : Table MigrationRow.version) (m : Migration) (rest : List Migration)
  | unlock (result : Except MigrateError Unit)
  | done (result : Except MigrateError Unit)
  | crashed

/-- The loop up to the next migration that has to be applied. -/
def advance (applied : Table MigrationRow.version) : List Migration → Pc
  | [] => .unlock (.ok ())
  | m :: rest =>
    match applied.find? m.version with
    | some row =>
      if row.checksum ≠ m.checksum then
        .unlock (.error (.modified m.version m.name row.checksum m.checksum))
      else advance applied rest
    | none => .begin_ applied m rest

/-- What a statement does besides moving its run on: the session gets the advisory lock or
loses it, and the migration in hand is committed. -/
inductive Effect where
  | none
  | take
  | drop
  | commit (m : Migration)
  | commitDrop (m : Migration)

/-- A statement under the lock was not answered. The lock is released by a statement of its
own, or it has gone with the session. -/
def fail (o : Outcome) (e : MigrateError) : Pc × Effect :=
  if o = .lost then (.done (.error e), .drop) else (.unlock (.error e), .none)

/-- The next statement of a run, for the table as it is and a lock that is free or not. -/
def Pc.next (rows : Table MigrationRow.version) (free : Bool) (migs : List Migration)
    (o : Outcome) : Pc → Pc × Effect
  | .idle => (.idle, .none)
  | .acquire =>
    if o = .ok then (.lock, .none) else (.done (.error .acquireConnection), .none)
  | .lock =>
    -- the statement waits as long as another session has the lock
    if o = .ok then if free then (.create, .take) else (.lock, .none)
    else (.done (.error .acquireLock), .none)
  | .create => if o = .ok then (.read, .none) else fail o .createTable
  | .read => if o = .ok then (advance rows migs, .none) else fail o .readTable
  | .begin_ applied m rest =>
    if o = .ok then (.exec applied m rest, .none) else fail o (.migration m.version m.name)
  | .exec applied m rest =>
    if o = .ok then (.insert applied m rest, .none) else fail o (.migration m.version m.name)
  | .insert applied m rest =>
    -- the primary key refuses a version that is in the table
    if o = .ok ∧ rows.find? m.version = none then (.commit applied m rest, .none)
    else fail o (.migration m.version m.name)
  | .commit applied m rest =>
    match o with
    | .ok => (advance applied rest, .commit m)
    | .failed => fail .failed (.migration m.version m.name)
    | .lost => (.done (.error (.migration m.version m.name)), .commitDrop m)
  -- the answer of the unlocking statement is ignored, and without it the lock stays
  | .unlock result => (.done result, if o = .failed then .none else .drop)
  | .done result => (.done result, .none)
  | .crashed => (.crashed, .none)

/-- The database with the runs on it, and the run whose session has the advisory lock. -/
structure World where
  schema : Schema
  holder : Option Nat
  migs : Nat → MigrationList
  pc : Nat → Pc

namespace World

def initial : World where
  schema := ⟨Table.empty, []⟩
  holder := none
  migs _ := ⟨[], List.Pairwise.nil⟩
  pc _ := .idle

def release (w : World) (i : Nat) : World :=
  { w with holder := if w.holder = some i then none else w.holder }

def apply (w : World) (i : Nat) : Effect → World
  | .none => w
  | .take => { w with holder := some i }
  | .drop => w.release i
  | .commit m => { w with schema := w.schema.commit i m }
  | .commitDrop m => { w with schema := w.schema.commit i m }.release i

/-- A run goes on to a statement, with the effect of the one before it. -/
def goto (w : World) (i : Nat) (x : Pc × Effect) : World :=
  { w.apply i x.2 with pc := Function.update w.pc i x.1 }

def statement (w : World) (i : Nat) (o : Outcome) : World :=
  w.goto i ((w.pc i).next w.schema.rows w.holder.isNone (w.migs i).migs o)

/-- The start of a run: the files are read before the database is asked. -/
def start (sorter : SliceSort) (w : World) (i : Nat) (entries : List File) : World :=
  match MigrationList.load sorter entries with
  | .error e => w.goto i (.done (.error (.load e)), .none)
  | .ok migs => { w with migs := Function.update w.migs i migs }.goto i (.acquire, .none)

/-- The end of a session. A run that has returned stays as it is. -/
def crash (w : World) (i : Nat) : World :=
  match w.pc i with
  | .done result => w.goto i (.done result, .drop)
  | _ => w.goto i (.crashed, .drop)

end World

/-- A run starts with the files of its program, takes its next statement, or ends: its
process crashes, or its session is closed after it has returned. -/
inductive Event where
  | start (i : Nat) (entries : List File)
  | statement (i : Nat) (o : Outcome)
  | crash (i : Nat)

def step (sorter : SliceSort) (w : World) : Event → World
  | .start i entries =>
    match w.pc i with
    | .idle => w.start sorter i entries
    | _ => w
  | .statement i o => w.statement i o
  | .crash i => w.crash i

end FlexStore.Metadata.Migrations
