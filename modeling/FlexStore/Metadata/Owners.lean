import FlexStore.Metadata.Deaths

/-!
# The status of an owner in the words of the queries

The queries spell out the states of objects, parts and sessions. Each of their
conditions on an owner is a condition on the owner's status.
-/

namespace FlexStore.Metadata

open Relational Transition View

/-- The owner accepts writes: an object that is UPLOADING, or a part that is UPLOADING in
a session that is IN_PROGRESS. -/
def Database.accepting (db : Database) : Owner → Bool
  | .object id => (db.objects.find? id).any (·.state = .uploading)
  | .part id => (db.parts.find? id).any fun p =>
    p.state = .uploading && (db.uploads.find? p.uploadID).any (·.state = .inProgress)

/-- The owner is an object that is DELETING or FAILED, or a part that is FAILED or whose
session is not IN_PROGRESS. -/
def Database.deadOwner (db : Database) : Owner → Bool
  | .object id => (db.objects.find? id).any fun o => o.state = .deleting || o.state = .failed
  | .part id => (db.parts.find? id).any fun p =>
    p.state = .failed || !(db.uploads.find? p.uploadID).any (·.state = .inProgress)

/-- The chunk row exists and its owner is dead. -/
def Database.deadChunk (db : Database) (c : UUID) : Bool :=
  (db.chunks.find? c).any fun row => db.deadOwner row.owner

def Database.complete (db : Database) (id : UUID) : Bool :=
  (db.objects.find? id).any (·.state = .complete)

variable {db : Database} {c id : UUID} {o : Owner}

theorem status_objectRow {row : ObjectRow} (found : db.objects.find? id = some row) :
    db.view.status (.object id) = row.state.status :=
  status_object found

theorem status_partRow {row : PartRow} (found : db.parts.find? id = some row) :
    db.view.status (.part id) =
      if (db.uploads.find? row.uploadID).any (·.state = .inProgress) then row.state.status
      else .dead :=
  status_part found

theorem status_objectRow_none (missing : db.objects.find? id = none) :
    db.view.status (.object id) = .absent := by
  simp [View.status, Database.view, missing]

theorem status_partRow_none (missing : db.parts.find? id = none) :
    db.view.status (.part id) = .absent := by
  simp [View.status, Database.view, missing]

/-- What the queries ask of an owner, by its status. -/
theorem owner_queries (db : Database) (o : Owner) :
    (db.accepting o ↔ db.view.status o = .accepting) ∧
      (db.deadOwner o ↔ db.view.status o = .dead) ∧
      (db.liveOwner o ↔ db.view.status o = .accepting ∨ db.view.status o = .sealed) := by
  cases o with
  | object id =>
    dsimp only [Database.accepting, Database.deadOwner, Database.liveOwner]
    cases found : db.objects.find? id with
    | none => simp [status_objectRow_none found]
    | some row =>
      rw [status_objectRow found]
      cases state : row.state <;> simp [state, ObjectState.status]
  | part id =>
    dsimp only [Database.accepting, Database.deadOwner, Database.liveOwner]
    cases found : db.parts.find? id with
    | none => simp [status_partRow_none found]
    | some row =>
      rw [status_partRow found]
      cases session : (db.uploads.find? row.uploadID).any (·.state = .inProgress) <;>
        cases state : row.state <;> simp [state, session, PartState.status]

theorem accepting_iff : db.accepting o ↔ db.view.status o = .accepting := (owner_queries db o).1

theorem deadOwner_iff : db.deadOwner o ↔ db.view.status o = .dead := (owner_queries db o).2.1

theorem liveOwner_iff : db.liveOwner o ↔
    db.view.status o = .accepting ∨ db.view.status o = .sealed := (owner_queries db o).2.2

theorem complete_iff : db.complete id ↔ db.view.status (.object id) = .sealed := by
  cases found : db.objects.find? id with
  | none => simp [Database.complete, found, status_objectRow_none found]
  | some row =>
    rw [status_objectRow found, Database.complete, found]
    cases state : row.state <;> simp [state, ObjectState.status]

theorem deadChunk_iff :
    db.deadChunk c ↔ ∃ row, db.view.chunks c = some row ∧ db.view.status row.owner = .dead := by
  simp only [Database.deadChunk, Option.any_eq_true, deadOwner_iff]
  rfl

theorem liveChunk_iff : db.liveChunk c ↔ ∃ row, db.view.chunks c = some row ∧
    (db.view.status row.owner = .accepting ∨ db.view.status row.owner = .sealed) := by
  simp only [Database.liveChunk, Option.any_eq_true, liveOwner_iff]
  rfl

/-- An owner whose own row accepts chunks is not sealed. -/
theorem View.writable_ne_sealed {v : View} (writable : v.writable o) : v.status o ≠ .sealed := by
  cases o with
  | object id =>
    obtain ⟨row, found, state⟩ := (Option.any_eq_true _ _).mp writable
    rw [status_object found, of_decide_eq_true state]
    simp [ObjectState.status]
  | part id =>
    obtain ⟨row, found, state⟩ := (Option.any_eq_true _ _).mp writable
    rw [status_part found, partStatus, of_decide_eq_true state]
    split <;> simp [PartState.status]

end FlexStore.Metadata
