import FlexStore.Metadata.Types
import FlexStore.Transition.Fallible

/-!
# The metadata database and its statements

`Database` is the content of the tables. The column `chunks.available_replicas`
is kept beside the `chunks` table as a function of the chunk id: it is written by
the trigger on `chunk_replicas` and by the verifier, never by a statement that
changes another column of `chunks`.

The statements below are the ones several store operations share. Each statement
that writes `chunk_replicas` runs the trigger for the chunks of the rows it
touched, and each delete carries out the cascades of its foreign keys.
-/

namespace FlexStore.Metadata

open Relational Transition

/-- The schema constraints that a statement can violate. A violation aborts the
transaction; it is never one of the store's own sentinel errors. -/
inductive Constraint where
  | check
  | primaryKey
  | foreignKey
  | objectsCurrentVersion
  | multipartPartsComplete
  | chunksOwnerIndex
  | repairJobsActive
  | encoding
  deriving DecidableEq, Repr

inductive StoreError where
  | notFound
  | conflict
  | durabilityNotMet
  | noRows
  | noRepairWork
  | noReconcileWork
  | constraint (violated : Constraint)
  deriving DecidableEq, Repr

abbrev Result (α : Type) := Except StoreError α

/-- The table `chunk_deletions` with the sequence behind its `id` column. A job is
identified by its pair and by its number: numbers are unique and come from the
sequence. -/
structure DeletionQueue where
  table : Table DeletionRow.key
  nextID : Nat
  ids : (table.rows.map (·.id)).Nodup
  issued : ∀ d ∈ table.rows, d.id < nextID

structure Database where
  nodes : Table NodeRow.id
  objects : Table ObjectRow.id
  uploads : Table MultipartUploadRow.id
  parts : Table PartRow.id
  chunks : Table ChunkRow.id
  availableReplicas : UUID → Int
  replicas : Table ReplicaRow.key
  deletions : DeletionQueue
  repairJobs : Table RepairJobRow.id
  nextRepairJobID : Nat
  reconciliations : Table ReconciliationRow.id
  nextReconciliationID : Nat

namespace DeletionQueue

def empty : DeletionQueue where
  table := .empty
  nextID := 1
  ids := List.nodup_nil
  issued := by simp [Table.empty]

/-- `INSERT INTO chunk_deletions ... ON CONFLICT (chunk_id, node_id) DO NOTHING`. A row
that is skipped has used up its sequence number. -/
def enqueue (q : DeletionQueue) (now : Time) (chunkID : UUID) (nodeID : NodeID) :
    DeletionQueue where
  table := q.table.insertIgnore
    { id := q.nextID, chunkID, nodeID, attempts := 0, lastError := none, createdAt := now,
      nextAttemptAt := now }
  nextID := q.nextID + 1
  ids := by
    rcases Table.rows_insertIgnore q.table _ with same | added
    · rw [same]
      exact q.ids
    · rw [added, List.map_append]
      refine List.nodup_append.mpr ⟨q.ids, List.nodup_singleton _, ?_⟩
      intro a old b new
      obtain ⟨d, member, rfl⟩ := List.mem_map.mp old
      rw [List.mem_singleton.mp new]
      exact Nat.ne_of_lt (q.issued d member)
  issued := by
    intro d member
    rcases Table.rows_insertIgnore q.table _ with same | added
    · rw [same] at member
      exact Nat.lt_succ_of_lt (q.issued d member)
    · rw [added, List.mem_append, List.mem_singleton] at member
      rcases member with old | rfl
      · exact Nat.lt_succ_of_lt (q.issued d old)
      · exact Nat.lt_succ_self _

/-- `UPDATE chunk_deletions SET ... WHERE p`, for columns other than the keys. -/
def updateWhere (q : DeletionQueue) (p : DeletionRow → Bool) (f : DeletionRow → DeletionRow)
    (keep : ∀ d, (f d).key = d.key := by intro _; rfl)
    (number : ∀ d, (f d).id = d.id := by intro _; rfl) : DeletionQueue where
  table := q.table.updateWhere p f keep
  nextID := q.nextID
  ids := by
    have same : (q.table.updateWhere p f keep).rows.map (·.id) = q.table.rows.map (·.id) := by
      simp only [Table.updateWhere, List.map_map]
      refine List.map_congr_left fun d _ => ?_
      by_cases h : p d = true <;> simp [h, number]
    rw [same]
    exact q.ids
  issued := by
    intro d member
    obtain ⟨old, inTable, rfl⟩ := List.mem_map.mp member
    by_cases h : p old = true <;> simpa [h, number] using q.issued old inTable

/-- `DELETE FROM chunk_deletions WHERE p`. -/
def deleteWhere (q : DeletionQueue) (p : DeletionRow → Bool) : DeletionQueue where
  table := q.table.deleteWhere p
  nextID := q.nextID
  ids := q.ids.sublist (List.filter_sublist.map _)
  issued := fun d member => q.issued d (List.mem_filter.mp member).1

/-- The same insert fed by a `SELECT`. -/
def enqueueAll (q : DeletionQueue) (now : Time) (pairs : List (UUID × NodeID)) : DeletionQueue :=
  pairs.foldl (fun q pair => q.enqueue now pair.1 pair.2) q

def holds (q : DeletionQueue) (chunkID : UUID) (nodeID : NodeID) : Bool :=
  (q.table.find? (chunkID, nodeID)).isSome

theorem holds_enqueue (q : DeletionQueue) (now : Time) (c c' : UUID) (n n' : NodeID) :
    (q.enqueue now c n).holds c' n' = (q.holds c' n' || decide (c = c' ∧ n = n')) := by
  simp only [holds, enqueue, Table.find?_insertIgnore, DeletionRow.key, Prod.mk.injEq,
    Option.isSome_or]
  by_cases same : c = c' ∧ n = n' <;> simp [same]

theorem holds_enqueueAll (q : DeletionQueue) (now : Time) (pairs : List (UUID × NodeID))
    (c : UUID) (n : NodeID) :
    (q.enqueueAll now pairs).holds c n = (q.holds c n || decide ((c, n) ∈ pairs)) := by
  induction pairs generalizing q with
  | nil => simp [enqueueAll]
  | cons pair rest ih =>
    have step := ih (q.enqueue now pair.1 pair.2)
    simp only [enqueueAll, List.foldl_cons] at step ⊢
    rw [step, holds_enqueue, Bool.or_assoc]
    congr 1
    rw [Bool.eq_iff_iff]
    simp only [Bool.or_eq_true, decide_eq_true_eq, List.mem_cons, Prod.ext_iff]
    tauto

end DeletionQueue

namespace Database

/-- The schema right after the migrations. -/
def empty : Database where
  nodes := .empty
  objects := .empty
  uploads := .empty
  parts := .empty
  chunks := .empty
  availableReplicas := fun _ => 0
  replicas := .empty
  deletions := .empty
  repairJobs := .empty
  nextRepairJobID := 1
  reconciliations := .empty
  nextReconciliationID := 1

def availableIn (replicas : Table ReplicaRow.key) (c : UUID) : Nat :=
  replicas.count fun r => r.chunkID = c && r.state = .available

/-- `SELECT COUNT(*) FROM chunk_replicas WHERE chunk_id = $1 AND state = 'AVAILABLE'`. -/
def countAvailable (db : Database) (c : UUID) : Nat := availableIn db.replicas c

/-- The chunk row exists and belongs to the given owner. -/
def ownedBy (db : Database) (c : UUID) (owner : Owner) : Bool :=
  (db.chunks.find? c).any (·.owner = owner)

/-- `liveOwnerPredicate`: the owner is an object that is COMPLETE or UPLOADING, or a
part that is UPLOADING or COMPLETE in a session that is IN_PROGRESS. -/
def liveOwner (db : Database) : Owner → Bool
  | .object id =>
    (db.objects.find? id).any fun o => o.state = .complete || o.state = .uploading
  | .part id =>
    (db.parts.find? id).any fun p => (p.state = .uploading || p.state = .complete) &&
      (db.uploads.find? p.uploadID).any (·.state = .inProgress)

/-- The chunk row exists and its owner is live. -/
def liveChunk (db : Database) (c : UUID) : Bool :=
  (db.chunks.find? c).any fun row => db.liveOwner row.owner

def replicaState (db : Database) (c : UUID) (n : NodeID) : Option ReplicaState :=
  (db.replicas.find? (c, n)).map (·.state)

def queued (db : Database) (c : UUID) (n : NodeID) : Bool := db.deletions.holds c n

/-- A statement that writes `chunk_replicas`, followed by the trigger
`flexstore_refresh_available_replicas` for the chunks of the rows it touched. -/
def writeReplicas (db : Database) (replicas : Table ReplicaRow.key) (touched : UUID → Bool) :
    Database :=
  { db with
    replicas
    availableReplicas := fun c =>
      if touched c then (availableIn replicas c : Int) else db.availableReplicas c }

/-- `UPDATE chunk_replicas SET state = ..., ... WHERE p`. -/
def updateReplicas (db : Database) (p : ReplicaRow → Bool) (f : ReplicaRow → ReplicaRow)
    (keep : ∀ r, (f r).key = r.key := by intro _; rfl) : Database :=
  db.writeReplicas (db.replicas.updateWhere p f keep)
    fun c => db.replicas.rows.any fun r => p r && r.chunkID = c

/-- `UPDATE chunk_replicas SET state = s, updated_at = now() WHERE p`. -/
def setReplicaState (db : Database) (now : Time) (p : ReplicaRow → Bool) (s : ReplicaState) :
    Database :=
  db.updateReplicas p fun r => { r with state := s, updatedAt := now }

/-- `DELETE FROM chunk_replicas WHERE p`. -/
def deleteReplicas (db : Database) (p : ReplicaRow → Bool) : Database :=
  db.writeReplicas (db.replicas.deleteWhere p)
    fun c => db.replicas.rows.any fun r => p r && r.chunkID = c

/-- `INSERT INTO chunk_replicas ... ON CONFLICT (chunk_id, node_id) DO UPDATE`. -/
def putReplica (db : Database) (row : ReplicaRow) (f : ReplicaRow → ReplicaRow)
    (keep : ∀ r, (f r).key = r.key := by intro _; rfl) : Database :=
  db.writeReplicas (db.replicas.upsert row f keep) (· = row.chunkID)

/-- The foreign keys of `chunk_replicas`. -/
def referenced (db : Database) (c : UUID) (n : NodeID) : Bool :=
  (db.chunks.find? c).isSome && (db.nodes.find? n).isSome

/-- The same insert, which the foreign keys refuse when the chunk or the node does not
exist. -/
def upsertReplica (db : Database) (row : ReplicaRow) (f : ReplicaRow → ReplicaRow)
    (keep : ∀ r, (f r).key = r.key := by intro _; rfl) : Result Database := do
  require (db.referenced row.chunkID row.nodeID) (.constraint .foreignKey)
  pure (db.putReplica row f keep)

/-- Queue a deletion for each of the given replica rows. -/
def enqueueDeletions (db : Database) (now : Time) (rows : List ReplicaRow) : Database :=
  { db with deletions := db.deletions.enqueueAll now (rows.map (·.key)) }

/-- `DELETE FROM chunks WHERE p`, with the cascades onto replicas and repair jobs. -/
def deleteChunks (db : Database) (p : ChunkRow → Bool) : Database :=
  let gone := fun c => (db.chunks.find? c).any p
  let db := db.deleteReplicas fun r => gone r.chunkID
  { db with
    chunks := db.chunks.deleteWhere p
    repairJobs := db.repairJobs.deleteWhere fun j => gone j.chunkID }

/-- `DELETE FROM objects WHERE p`, with the cascade onto chunks and the `SET NULL` on
the sessions that produced the objects. -/
def deleteObjects (db : Database) (p : ObjectRow → Bool) : Database :=
  let gone := fun id => (db.objects.find? id).any p
  let db := db.deleteChunks fun c => match c.owner with
    | .object id => gone id
    | .part _ => false
  { db with
    objects := db.objects.deleteWhere p
    uploads := db.uploads.updateWhere (fun u => u.objectID.any gone)
      fun u => { u with objectID := none } }

/-- `DELETE FROM multipart_uploads WHERE p`, with the cascades onto parts and chunks. -/
def deleteUploads (db : Database) (p : MultipartUploadRow → Bool) : Database :=
  let gone := fun id => (db.uploads.find? id).any p
  let goneParts := fun id => (db.parts.find? id).any fun part => gone part.uploadID
  let db := db.deleteChunks fun c => match c.owner with
    | .object _ => false
    | .part id => goneParts id
  { db with
    uploads := db.uploads.deleteWhere p
    parts := db.parts.deleteWhere fun part => gone part.uploadID }

end Database

/-- `s[:n]` on the bytes of a text, as the store cuts error texts before writing them.
A cut inside a character is not valid text and the statement is refused. -/
def truncate (s : String) (n : Nat) : Result String :=
  if s.utf8ByteSize ≤ n then .ok s
  else lookup (String.fromUTF8? (s.toUTF8.extract 0 n)) (.constraint .encoding)

end FlexStore.Metadata
