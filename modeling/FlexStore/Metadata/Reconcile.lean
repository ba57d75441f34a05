import FlexStore.Metadata.View
import Mathlib.Data.String.Basic

/-!
# Reconciliation

A returning node's replicas are STALE until its inventory has been compared with
the metadata: a copy found with the recorded checksum is promoted, a copy that is
missing is dropped, and a file that no row accounts for is queued for removal.
-/

namespace FlexStore.Metadata

open Relational Transition

/-- Demotes a returning node's UNAVAILABLE replicas to STALE. -/
def markReplicasStaleOnNode (now : Time) (nodeID : NodeID) (db : Database) : Nat × Database :=
  let returning := fun r : ReplicaRow => r.nodeID = nodeID && r.state = .unavailable
  (db.replicas.count returning, db.setReplicaState now returning .stale)

theorem view_markReplicasStaleOnNode (now : Time) (nodeID : NodeID) (db : Database) :
    (markReplicasStaleOnNode now nodeID db).2.view = db.view.mapReplicas fun _ n s =>
      if n = nodeID && s = .unavailable then .stale else s :=
  view_setReplicaState fun _ n s => n = nodeID && s = .unavailable

def ReconciliationRow.active (j : ReconciliationRow) : Bool :=
  j.state = .pending || j.state = .running

/-- Schedules an inventory comparison unless one is already pending or running. -/
def enqueueReconcile (now : Time) (nodeID : NodeID) (db : Database) :
    Result (Bool × Database) := do
  let conflict := db.reconciliations.rows.any fun j => j.nodeID = nodeID && j.active
  require (conflict ∨ (db.nodes.find? nodeID).isSome) (.constraint .foreignKey)
  let job : ReconciliationRow :=
    { id := db.nextReconciliationID, nodeID, state := .pending, result := {},
      lastError := none, owner := none, leaseExpiresAt := none, createdAt := now,
      updatedAt := now, finishedAt := none }
  pure (!conflict, { db with
    reconciliations := if conflict then db.reconciliations else db.reconciliations.insertIgnore job
    nextReconciliationID := db.nextReconciliationID + 1 })

/-- The HEALTHY nodes that still hold unverified replicas, in id order. -/
def nodesWithStaleReplicas (limit : Nat) (db : Database) : List NodeID :=
  ((((db.replicas.select fun r => r.state = .stale &&
      (db.nodes.find? r.nodeID).any (·.health = .healthy)).map (·.nodeID)).dedup.insertionSort
    (· ≤ ·))).take limit

/-- `UPDATE node_reconciliations SET ... WHERE p`. -/
def Database.updateReconciliations (db : Database) (p : ReconciliationRow → Bool)
    (f : ReconciliationRow → ReconciliationRow)
    (keep : ∀ j, (f j).id = j.id := by intro _; rfl) : Database :=
  { db with reconciliations := db.reconciliations.updateWhere p f keep }

/-- Returns abandoned reconciliations to PENDING. -/
def reclaimExpiredReconcileLeases (now : Time) (db : Database) : Nat × Database :=
  let expired := fun j : ReconciliationRow =>
    j.state = .running && j.leaseExpiresAt.any (· < now)
  (db.reconciliations.count expired, db.updateReconciliations expired fun j => { j with
    state := .pending
    owner := none
    leaseExpiresAt := none
    updatedAt := now })

structure ReconcileJob where
  id : Nat
  nodeID : NodeID
  address : String
  createdAt : Time
  deriving DecidableEq, Repr

/-- Leases the oldest pending reconciliation of a HEALTHY node. -/
def claimReconcileJob (now : Time) (owner : String) (lease : Duration) (db : Database) :
    Result (ReconcileJob × Database) := do
  let due := (db.reconciliations.select fun j => j.state = .pending &&
      (db.nodes.find? j.nodeID).any (·.health = .healthy)).insertionSort
    fun a b => a.createdAt < b.createdAt ∨ a.createdAt = b.createdAt ∧ a.id ≤ b.id
  let job ← lookup due.head? .noReconcileWork
  let leased : ReconcileJob :=
    { id := job.id, nodeID := job.nodeID,
      address := nullString ((db.nodes.find? job.nodeID).map (·.grpcAddress)),
      createdAt := job.createdAt }
  pure (leased, db.updateReconciliations (·.id = job.id) fun j => { j with
    state := .running
    owner := some owner
    leaseExpiresAt := some (now + lease)
    updatedAt := now })

def completeReconcile (now : Time) (jobID : Nat) (result : ReconcileResult) (db : Database) :
    Database :=
  db.updateReconciliations (·.id = jobID) fun j => { j with
    state := .succeeded
    owner := none
    leaseExpiresAt := none
    result
    lastError := none
    finishedAt := some now
    updatedAt := now }

def failReconcile (now : Time) (jobID : Nat) (cause : String) (db : Database) :
    Result Database := do
  let cause ← truncate cause 500
  pure (db.updateReconciliations (·.id = jobID) fun j => { j with
    state := .failed
    owner := none
    leaseExpiresAt := none
    lastError := some cause
    finishedAt := some now
    updatedAt := now })

/-- One replica awaiting verification on a returning node. -/
structure StaleReplicaOnNode where
  chunkID : UUID
  checksum : Option Checksum
  size : Nat
  deriving DecidableEq, Repr

/-- One page of the replicas that the reconciler must verify. -/
def staleReplicasOnNode (nodeID : NodeID) (after : UUID) (limit : Nat) (db : Database) :
    List StaleReplicaOnNode :=
  (((db.chunks.select fun c => after < c.id &&
      (db.replicas.find? (c.id, nodeID)).any (·.state = .stale)).insertionSort
    fun a b => a.id ≤ b.id).take limit).map fun c => ⟨c.id, c.checksum, c.sizeBytes⟩

/-- Marks a STALE replica AVAILABLE after its copy was confirmed with a matching
checksum. Only STALE rows are promoted. -/
def promoteVerifiedReplica (now : Time) (chunkID : UUID) (nodeID : NodeID) (db : Database) :
    Bool × Database :=
  let awaiting := fun r : ReplicaRow =>
    r.chunkID = chunkID && r.nodeID = nodeID && r.state = .stale
  (db.replicas.rows.any awaiting, db.updateReplicas awaiting fun r => { r with
    state := .available
    updatedAt := now
    verifiedAt := some now
    lastError := none })

theorem view_promoteVerifiedReplica (now : Time) (chunkID : UUID) (nodeID : NodeID)
    (db : Database) :
    (promoteVerifiedReplica now chunkID nodeID db).2.view = db.view.mapReplicas fun c n s =>
      if c = chunkID && n = nodeID && s = .stale then .available else s :=
  view_updateReplicas fun c n s => c = chunkID && n = nodeID && s = .stale

/-- The chunks that the metadata associates with a node, in any replica state. -/
def chunkIDsKnownOnNode (nodeID : NodeID) (db : Database) : List (UUID × ReplicaState) :=
  (db.replicas.select (·.nodeID = nodeID)).map fun r => (r.chunkID, r.state)

/-- The two guards of an orphan removal: no replica row for the pair, and no write of
the chunk in flight. -/
def unaccounted (chunkID : UUID) (nodeID : NodeID) (db : Database) : Bool :=
  (db.replicas.find? (chunkID, nodeID)).isNone &&
    !(db.chunks.find? chunkID).any (·.state = .pending)

/-- Schedules removal of a file that metadata does not account for, and reports whether
the removal was actually queued. -/
def queueOrphanDeletion (now : Time) (chunkID : UUID) (nodeID : NodeID) (db : Database) :
    Bool × Database :=
  if unaccounted chunkID nodeID db then
    (!db.queued chunkID nodeID, { db with deletions := db.deletions.enqueue now chunkID nodeID })
  else (false, db)

theorem view_queueOrphanDeletion (now : Time) (chunkID : UUID) (nodeID : NodeID) (db : Database) :
    (queueOrphanDeletion now chunkID nodeID db).2.view =
      if unaccounted chunkID nodeID db then
        db.view.enqueue fun c n => decide (chunkID = c ∧ nodeID = n)
      else db.view := by
  unfold queueOrphanDeletion
  split
  · exact view_enqueue chunkID nodeID
  · rfl

end FlexStore.Metadata
