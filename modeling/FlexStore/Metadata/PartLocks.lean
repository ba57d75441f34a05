import FlexStore.Metadata.Operation
import FlexStore.Metadata.Sessions
import FlexStore.Relational.SharedLocks

/-!
# The session lock of parts that are started at the same time

`BeginPart` locks its session FOR SHARE, so that parts can be started at the same time, and
ends with an update of the session's `updated_at`. The update needs the row for itself. Two
transactions that both have their share wait for each other there, and no turn gets them out
of it. They get past each other only if a transaction locks the session while no other one
has it locked, which is what FOR UPDATE would have done.
-/

namespace FlexStore.Metadata.Concurrent

open Relational Transition SharingSystem

/-- Of the locking statements only that of `BeginPart` takes a shared lock. -/
def Statement.mode : Statement → LockMode
  | .shareUpload => .share
  | _ => .exclusive

variable {ι : Type}

abbrev PartStarts (ι : Type) := SharingSystem ι RowKey.Version Statement StoreError Part

/-- The parts are about to be started. -/
def starting (cat : Catalog) (db : Database) (requests : ι → PartStart) : PartStarts ι :=
  .start (fun t => beginPart cat (requests t)) (rowsOf db.view)

theorem enters_beginPart (cat : Catalog) (r : PartStart) :
    Enters Statement.mode (.upload r.uploadID) (beginPart cat r) := by
  rw [beginPart]
  split
  · exact ⟨rfl, rfl⟩
  · trivial

variable [DecidableEq ι] [Fintype ι]

/-- Parts of one session are never deadlocked in a run in which a transaction takes its share
of the session only while no other one has a share. -/
theorem beginParts_never_deadlocked {cat : Catalog} {db : Database} {uploadID : UUID}
    {requests : ι → PartStart} (session : ∀ t, (requests t).uploadID = uploadID)
    {schedule : List ι}
    (admits : Guarded (SharingSystem.step (indexes cat) Statement.mode)
      (Admits Statement.mode (.upload uploadID)) (starting cat db requests) schedule) :
    Always (SharingSystem.step (indexes cat) Statement.mode) (¬Deadlocked Statement.mode ·)
      (starting cat db requests) schedule := by
  refine always_not_deadlocked (fun t => ?_) admits
  rw [← session t]
  exact enters_beginPart cat (requests t)

def openSession : Database :=
  run Metadata.step Database.empty [⟨0, .createMultipartUpload 7 "b" "k" "" 8⟩]

def twoParts : Bool → PartStart
  | false => ⟨1, 71, 7, 1⟩
  | true => ⟨2, 72, 7, 2⟩

/-- The rows of the session, with the parts that will be started. -/
def twoPartsCatalog : Catalog := { Catalog.of openSession with parts := [71, 72] }

theorem beginParts_never_deadlocked_inTurn :
    Always (SharingSystem.step (indexes twoPartsCatalog) Statement.mode)
      (¬Deadlocked Statement.mode ·) (starting twoPartsCatalog openSession twoParts)
      (List.replicate 11 false ++ List.replicate 11 true) :=
  @beginParts_never_deadlocked _ _ _ _ _ 7 _ (by decide) _ (by decide +kernel)

/-- Two transactions for different parts that have both locked the session wait for each
other, and go on waiting whatever happens. -/
theorem beginParts_deadlock :
    (openSession.uploads.find? 7).any (·.state = .inProgress) ∧
      (twoParts false).partNumber ≠ (twoParts true).partNumber ∧
      ∀ rest, Deadlocked Statement.mode
        (run (SharingSystem.step (indexes twoPartsCatalog) Statement.mode)
          (starting twoPartsCatalog openSession twoParts)
          ([false, true] ++ List.replicate 7 false ++ List.replicate 7 true ++ rest)) := by
  refine ⟨by decide, by decide, fun rest => ?_⟩
  rw [run_append]
  refine Deadlocked.run ⟨Set.univ, ⟨false, trivial⟩, fun t _ => ⟨!t, trivial, ?_⟩⟩ rest
  revert t
  decide +kernel

end FlexStore.Metadata.Concurrent
