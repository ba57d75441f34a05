import FlexStore.Metadata.Objects

/-!
# Repair

Under-replicated chunks become jobs, a job is leased, its copy is recorded and the
job is closed. Trimming removes the copies above the replication factor, and a
corruption report demotes one copy and queues its file for removal.
-/

namespace FlexStore.Metadata

open Relational Transition

/-- A COMMITTED chunk whose owner is live, which is what durability is accounted for. -/
def accounted (db : Database) (c : ChunkRow) : Bool := c.state = .committed && db.liveOwner c.owner

def RepairJobRow.active (j : RepairJobRow) : Bool := j.state = .pending || j.state = .running

/-- `repair_jobs_active_idx`: at most one PENDING or RUNNING job for each chunk. -/
def activeJobsUnique (jobs : Table RepairJobRow.id) : Prop :=
  ((jobs.select (·.active)).map (·.chunkID)).Nodup

instance (jobs : Table RepairJobRow.id) : Decidable (activeJobsUnique jobs) :=
  inferInstanceAs (Decidable (List.Nodup _))

/-- One row of `INSERT INTO repair_jobs ... ON CONFLICT DO NOTHING`. A row that is
skipped has used up its sequence number. -/
def enqueueRepair (now : Time) (db : Database) (chunkID : UUID) : Database :=
  let job : RepairJobRow :=
    { id := db.nextRepairJobID, chunkID, state := .pending, sourceNodeID := none,
      targetNodeID := none, attempts := 0, lastError := none, owner := none,
      leaseExpiresAt := none, nextAttemptAt := now, createdAt := now, updatedAt := now,
      finishedAt := none }
  let conflict := db.repairJobs.rows.any fun j => j.chunkID = chunkID && j.active
  { db with
    repairJobs := if conflict then db.repairJobs else db.repairJobs.insertIgnore job
    nextRepairJobID := db.nextRepairJobID + 1 }

/-- Creates PENDING jobs for under-replicated chunks, the most endangered first. -/
def enqueueRepairs (now : Time) (replicationFactor : Int) (limit : Nat) (db : Database) :
    Nat × Database :=
  let ids := (((db.chunks.select fun c => accounted db c &&
      db.availableReplicas c.id < replicationFactor && 0 < db.availableReplicas c.id).insertionSort
    fun a b => db.availableReplicas a.id < db.availableReplicas b.id ∨
      db.availableReplicas a.id = db.availableReplicas b.id ∧ a.id ≤ b.id).take limit).map (·.id)
  let after := ids.foldl (enqueueRepair now) db
  (after.repairJobs.rows.length - db.repairJobs.rows.length, after)

/-- The nodes of a chunk's AVAILABLE replicas, emptiest node first. -/
def rankedNodes (db : Database) (chunkID : UUID) : List NodeID :=
  let used := fun r : ReplicaRow => ((db.nodes.find? r.nodeID).map (·.stats.usedBytes)).getD 0
  ((db.replicas.select fun r => r.chunkID = chunkID && r.state = .available &&
      (db.nodes.find? r.nodeID).isSome).insertionSort
    fun a b => used a < used b ∨ used a = used b ∧ a.nodeID ≤ b.nodeID).map (·.nodeID)

/-- The transaction that trims one chunk: the AVAILABLE replicas ranked beyond the
replication factor become DELETING, and every DELETING replica is queued. -/
def trimChunk (now : Time) (replicationFactor : Int) (db : Database) (chunkID : UUID) :
    Database :=
  if (db.chunks.find? chunkID).isNone ∨ db.availableReplicas chunkID - replicationFactor ≤ 0 then
    db
  else
    let excess := (rankedNodes db chunkID).drop replicationFactor.toNat
    let db := db.setReplicaState now (fun r => r.chunkID = chunkID && r.nodeID ∈ excess) .deleting
    db.enqueueDeletions now
      (db.replicas.select fun r => r.chunkID = chunkID && r.state = .deleting)

/-- One trimmed copy: it was AVAILABLE and is now DELETING and queued, or it was DELETING
and is now queued for certain. -/
def Slot.Trimmed (s s' : Slot) : Prop :=
  s' = s ∨ ((s.replica = some .available ∨ s.replica = some .deleting) ∧
    s' = ⟨some .deleting, true⟩)

theorem Slot.Trimmed.trans {s s' s'' : Slot} (first : s.Trimmed s') (second : s'.Trimmed s'') :
    s.Trimmed s'' := by
  rcases first with rfl | ⟨state, rfl⟩
  · exact second
  · rcases second with rfl | ⟨-, rfl⟩
    · exact Or.inr ⟨state, rfl⟩
    · exact Or.inr ⟨state, rfl⟩

theorem mem_rankedNodes {db : Database} {chunkID : UUID} {n : NodeID}
    (h : n ∈ rankedNodes db chunkID) : (db.view.slots chunkID n).replica = some .available := by
  obtain ⟨r, sorted, rfl⟩ := List.mem_map.mp h
  obtain ⟨member, selected⟩ := List.mem_filter.mp ((List.mem_insertionSort _).mp sorted)
  simp only [Bool.and_eq_true, decide_eq_true_eq] at selected
  obtain ⟨⟨rfl, available⟩, -⟩ := selected
  exact replicaState_eq_some.mpr ⟨r, member, rfl, rfl, available⟩

theorem view_trimChunk (now : Time) (replicationFactor : Int) (db : Database) (chunkID : UUID) :
    ∃ slots : UUID → NodeID → Slot, (∀ c n, slots c n = db.view.slots c n ∨
        chunkID = c ∧ (db.view.slots c n).Trimmed (slots c n)) ∧
      (trimChunk now replicationFactor db chunkID).view = { db.view with slots } := by
  unfold trimChunk
  split
  next => exact ⟨db.view.slots, fun _ _ => Or.inl rfl, rfl⟩
  next =>
    rw [view_enqueueDeletions fun c _ s => c = chunkID && s = .deleting,
      view_setReplicaState fun c n _ => c = chunkID &&
        n ∈ (rankedNodes db chunkID).drop replicationFactor.toNat]
    refine ⟨_, fun c n => ?_, rfl⟩
    by_cases chunk : c = chunkID
    · subst chunk
      refine Or.inr ⟨rfl, ?_⟩
      by_cases excess : n ∈ (rankedNodes db c).drop replicationFactor.toNat
      · have available := mem_rankedNodes (List.mem_of_mem_drop excess)
        refine Or.inr ⟨Or.inl available, ?_⟩
        simp [View.mapReplicas, available, excess]
      · by_cases deleting : (db.view.slots c n).replica = some .deleting
        · refine Or.inr ⟨Or.inr deleting, ?_⟩
          simp [View.mapReplicas, deleting, excess]
        · refine Or.inl (Slot.ext ?_ ?_)
          · simp [View.mapReplicas, excess]
          · cases state : (db.view.slots c n).replica <;>
              simp_all [View.mapReplicas]
    · refine Or.inl (Slot.ext ?_ ?_) <;> simp [View.mapReplicas, chunk]

/-- The number of rows that the demotion of one trim transaction affects. -/
def demotedRows (replicationFactor : Int) (db : Database) (chunkID : UUID) : Nat :=
  if (db.chunks.find? chunkID).isNone ∨ db.availableReplicas chunkID - replicationFactor ≤ 0 then
    0
  else
    let excess := (rankedNodes db chunkID).drop replicationFactor.toNat
    db.replicas.count fun r => r.chunkID = chunkID && r.nodeID ∈ excess

/-- The chunks with a live owner and more replicas than the factor asks for, the most
over-replicated first. -/
def overReplicatedChunks (replicationFactor : Int) (limit : Nat) (db : Database) : List UUID :=
  (((db.chunks.select fun c =>
      accounted db c && replicationFactor < db.availableReplicas c.id).insertionSort
    fun a b => db.availableReplicas b.id < db.availableReplicas a.id ∨
      db.availableReplicas a.id = db.availableReplicas b.id ∧ a.id ≤ b.id).take limit).map (·.id)

/-- One round of the loop: the rows demoted so far and the state. -/
def trimNext (now : Time) (replicationFactor : Int) (acc : Nat × Database) (chunkID : UUID) :
    Nat × Database :=
  (acc.1 + demotedRows replicationFactor acc.2 chunkID,
    trimChunk now replicationFactor acc.2 chunkID)

/-- Removes replicas above the replication factor, one transaction for each chunk, and
returns the number of replicas demoted. -/
def trimOverReplicatedChunks (now : Time) (replicationFactor : Int) (limit : Nat)
    (db : Database) : Nat × Database :=
  (overReplicatedChunks replicationFactor limit db).foldl (trimNext now replicationFactor) (0, db)

theorem foldl_trimNext (now : Time) (replicationFactor : Int) (ids : List UUID)
    (acc : Nat × Database) :
    (ids.foldl (trimNext now replicationFactor) acc).2 =
      ids.foldl (trimChunk now replicationFactor) acc.2 := by
  induction ids generalizing acc with
  | nil => rfl
  | cons id rest ih => exact ih _

theorem trimOverReplicatedChunks_snd (now : Time) (replicationFactor : Int) (limit : Nat)
    (db : Database) :
    (trimOverReplicatedChunks now replicationFactor limit db).2 =
      (overReplicatedChunks replicationFactor limit db).foldl
        (trimChunk now replicationFactor) db :=
  foldl_trimNext now replicationFactor _ (0, db)

theorem view_foldl_trimChunk (now : Time) (replicationFactor : Int) (ids : List UUID)
    (db : Database) :
    ∃ slots : UUID → NodeID → Slot, (∀ c n, (db.view.slots c n).Trimmed (slots c n)) ∧
      (ids.foldl (trimChunk now replicationFactor) db).view = { db.view with slots } := by
  induction ids generalizing db with
  | nil => exact ⟨db.view.slots, fun _ _ => Or.inl rfl, rfl⟩
  | cons id rest ih =>
    obtain ⟨middle, first, effect⟩ := view_trimChunk now replicationFactor db id
    obtain ⟨slots, second, effects⟩ := ih (trimChunk now replicationFactor db id)
    rw [effect] at second effects
    refine ⟨slots, fun c n => Slot.Trimmed.trans ?_ (second c n), effects⟩
    exact (first c n).elim Or.inl And.right

/-- `UPDATE repair_jobs SET ... WHERE p`. -/
def Database.updateRepairJobs (db : Database) (p : RepairJobRow → Bool)
    (f : RepairJobRow → RepairJobRow) (keep : ∀ j, (f j).id = j.id := by intro _; rfl) :
    Database :=
  { db with repairJobs := db.repairJobs.updateWhere p f keep }

/-- Returns RUNNING jobs whose lease has expired to PENDING. -/
def reclaimExpiredRepairLeases (now : Time) (db : Database) : Nat × Database :=
  let expired := fun j : RepairJobRow => j.state = .running && j.leaseExpiresAt.any (· < now)
  (db.repairJobs.count expired, db.updateRepairJobs expired fun j => { j with
    state := .pending
    owner := none
    leaseExpiresAt := none
    nextAttemptAt := now
    updatedAt := now
    lastError := some (j.lastError.getD "lease expired; reclaimed after coordinator restart") })

/-- Everything a repair worker needs to run one job. -/
structure RepairTarget where
  jobID : Nat
  chunkID : UUID
  attempts : Nat
  lastError : String
  createdAt : Time
  size : Nat
  checksum : Option Checksum
  desiredReplicas : Int
  sources : List Replica
  occupied : List NodeID
  staleReplicas : Nat
  transientOccupancy : Nat

/-- The AVAILABLE replicas on nodes that are not DEAD, least loaded node first. -/
def repairSources (db : Database) (chunkID : UUID) : List Replica :=
  let load := fun r : ReplicaRow =>
    ((db.nodes.find? r.nodeID).map (·.stats.activeRequests)).getD 0
  ((db.replicas.select fun r => r.chunkID = chunkID && r.state = .available &&
      (db.nodes.find? r.nodeID).any (·.health ≠ .dead)).insertionSort
    fun a b => load a < load b ∨ load a = load b ∧ a.nodeID ≤ b.nodeID).map (scanReplica db)

/-- Leases the earliest due job and loads everything needed to run it. -/
def claimRepairJob (now : Time) (owner : String) (lease : Duration) (replicationFactor : Int)
    (db : Database) : Result (RepairTarget × Database) := do
  let due := (db.repairJobs.select fun j => j.state = .pending && j.nextAttemptAt ≤ now
    ).insertionSort fun a b => a.nextAttemptAt < b.nextAttemptAt ∨
      a.nextAttemptAt = b.nextAttemptAt ∧ a.id ≤ b.id
  let job ← lookup due.head? .noRepairWork
  let chunk ← lookup (db.chunks.find? job.chunkID) .notFound
  let rows := db.replicas.select (·.chunkID = job.chunkID)
  let target : RepairTarget :=
    { jobID := job.id, chunkID := job.chunkID, attempts := job.attempts + 1,
      lastError := nullString job.lastError, createdAt := job.createdAt,
      size := chunk.sizeBytes, checksum := chunk.checksum,
      desiredReplicas := max 0 (replicationFactor - db.availableReplicas job.chunkID),
      sources := repairSources db job.chunkID, occupied := rows.map (·.nodeID),
      staleReplicas := (rows.filter (·.state = .stale)).length,
      transientOccupancy := (rows.filter (·.state ≠ .available)).length }
  pure (target, db.updateRepairJobs (·.id = job.id) fun j => { j with
    state := .running
    owner := some owner
    leaseExpiresAt := some (now + lease)
    attempts := j.attempts + 1
    updatedAt := now })

/-- Stores the chosen source and destination before the copy starts. -/
def recordRepairPlan (now : Time) (jobID : Nat) (source target : NodeID) (db : Database) :
    Database :=
  db.updateRepairJobs (·.id = jobID) fun j => { j with
    sourceNodeID := some source
    targetNodeID := some target
    updatedAt := now }

def RepairJobRow.succeed (now : Time) (lastError : Option String) (j : RepairJobRow) :
    RepairJobRow :=
  { j with
    state := .succeeded
    owner := none
    leaseExpiresAt := none
    lastError
    finishedAt := some now
    updatedAt := now }

/-- The upsert that records a repaired copy. -/
def recordRepaired (now : Time) (chunkID : UUID) (targetNode : NodeID) (db : Database) :
    Result Database :=
  db.upsertReplica
    { chunkID, nodeID := targetNode, state := .available, createdAt := now, updatedAt := now,
      verifiedAt := some now, lastError := none }
    (fun old => { old with
      state := .available, updatedAt := now, verifiedAt := some now, lastError := none })
    (ReplicaRow.key_verified now)

/-- Records a successful copy: the new replica becomes AVAILABLE and the job is closed.
Neither the chunk's state, nor its owner, nor the node's health is looked at. -/
def completeRepair (now : Time) (jobID : Nat) (chunkID : UUID) (targetNode : NodeID)
    (db : Database) : Result (Int × Database) := do
  let db ← recordRepaired now chunkID targetNode db
  pure (db.availableReplicas chunkID,
    db.updateRepairJobs (·.id = jobID) (RepairJobRow.succeed now none))

theorem completeRepair_ok {now : Time} {jobID : Nat} {chunkID : UUID} {targetNode : NodeID}
    {available : Int} {db db' : Database}
    (h : completeRepair now jobID chunkID targetNode db = .ok (available, db')) :
    db.view.referenced chunkID targetNode ∧
      db'.view = db.view.setReplicas chunkID [targetNode] .available := by
  simp only [completeRepair, bind_eq_ok, pure_eq_ok, Prod.mk.injEq] at h
  obtain ⟨repaired, recorded, -, rfl⟩ := h
  exact upsertReplica_ok recorded

def finishRepairAsNoop (now : Time) (jobID : Nat) (reason : String) (db : Database) :
    Result Database := do
  let reason ← truncate reason 500
  pure (db.updateRepairJobs (·.id = jobID) (RepairJobRow.succeed now (some reason)))

/-- Records a failed attempt: re-queued below the cap, FAILED at it. -/
def failRepair (now : Time) (jobID : Nat) (cause : String) (backoff : Duration)
    (maxAttempts : Int) (db : Database) : Result (Bool × Database) := do
  let cause ← truncate cause 500
  let job ← lookup (db.repairJobs.find? jobID) .noRows
  let terminal := decide (maxAttempts ≤ job.attempts)
  let db := db.updateRepairJobs (·.id = jobID) fun j => { j with
    state := if terminal then .failed else .pending
    owner := none
    leaseExpiresAt := none
    lastError := some cause
    nextAttemptAt := now + backoff
    finishedAt := if terminal then some now else none
    updatedAt := now }
  require (activeJobsUnique db.repairJobs) (.constraint .repairJobsActive)
  pure (terminal, db)

/-- Gives terminally-failed jobs of COMMITTED chunks another chance. -/
def requeueFailedRepairs (now : Time) (limit : Nat) (db : Database) : Result (Nat × Database) := do
  let ids := (((db.repairJobs.select fun j =>
      j.state = .failed && (db.chunks.find? j.chunkID).any (·.state = .committed)).insertionSort
    fun a b => a.updatedAt ≤ b.updatedAt).take limit).map (·.id)
  let requeued := fun j : RepairJobRow => j.id ∈ ids &&
    !db.repairJobs.rows.any fun a => a.chunkID = j.chunkID && a.active
  let after := db.updateRepairJobs requeued fun j => { j with
    state := .pending
    attempts := 0
    nextAttemptAt := now
    finishedAt := none
    updatedAt := now }
  require (activeJobsUnique after.repairJobs) (.constraint .repairJobsActive)
  pure (db.repairJobs.count requeued, after)

/-- Demotes a replica that failed verification, unless it is DELETING. -/
def demoteCorrupt (now : Time) (chunkID : UUID) (nodeID : NodeID) (detail : String)
    (db : Database) : Database :=
  db.updateReplicas
    (fun r => r.chunkID = chunkID && r.nodeID = nodeID && r.state ≠ .deleting)
    fun r => { r with state := .corrupt, updatedAt := now, lastError := some detail }

theorem view_demoteCorrupt (now : Time) (chunkID : UUID) (nodeID : NodeID) (detail : String)
    (db : Database) :
    (demoteCorrupt now chunkID nodeID detail db).view = db.view.mapReplicas fun c n s =>
      if c = chunkID && n = nodeID && s ≠ .deleting then .corrupt else s :=
  view_updateReplicas fun c n s => c = chunkID && n = nodeID && s ≠ .deleting

/-- Demotes a replica that failed verification, queues its file for removal and returns
how many usable replicas remain. The removal is queued whether or not a replica row
was there to demote. -/
def markReplicaCorrupt (now : Time) (chunkID : UUID) (nodeID : NodeID) (detail : String)
    (db : Database) : Result (Int × Database) := do
  let detail ← truncate detail 500
  let db := demoteCorrupt now chunkID nodeID detail db
  let _ ← lookup (db.chunks.find? chunkID) .notFound
  pure (db.availableReplicas chunkID,
    { db with deletions := db.deletions.enqueue now chunkID nodeID })

theorem markReplicaCorrupt_ok {now : Time} {chunkID : UUID} {nodeID : NodeID} {detail : String}
    {remaining : Int} {db db' : Database}
    (h : markReplicaCorrupt now chunkID nodeID detail db = .ok (remaining, db')) :
    (db.view.chunks chunkID).isSome ∧ db'.view =
      (db.view.mapReplicas fun c n s =>
        if c = chunkID && n = nodeID && s ≠ .deleting then .corrupt else s).enqueue
          fun c n => decide (chunkID = c ∧ nodeID = n) := by
  simp only [markReplicaCorrupt, bind_eq_ok, lookup_eq_ok, pure_eq_ok, Prod.mk.injEq] at h
  obtain ⟨text, -, row, found, -, rfl⟩ := h
  refine ⟨Option.isSome_of_eq_some found, ?_⟩
  rw [view_enqueue, view_demoteCorrupt]

def dropReplica (chunkID : UUID) (nodeID : NodeID) (db : Database) : Database :=
  db.deleteReplicas fun r => r.chunkID = chunkID && r.nodeID = nodeID

theorem view_dropReplica (chunkID : UUID) (nodeID : NodeID) (db : Database) :
    (dropReplica chunkID nodeID db).view =
      db.view.dropReplicas fun c n _ => c = chunkID && n = nodeID :=
  view_deleteReplicas fun c n _ => c = chunkID && n = nodeID

/-- Trims job history: old SUCCEEDED jobs, oldest first, and FAILED jobs whose chunk is
no longer damaged. Nothing orders the second batch, so `pick` is the order in which
the planner met its rows. -/
def purgeFinishedRepairJobs (now : Time) (olderThan : Duration) (replicationFactor : Int)
    (limit : Nat) (pick : List Nat) (db : Database) : Nat × Database :=
  let old := (((db.repairJobs.select fun j =>
      j.state = .succeeded && j.finishedAt.any (· < now - olderThan)).insertionSort
    fun a b => a.finishedAt.getD 0 ≤ b.finishedAt.getD 0).take limit).map (·.id)
  let jobs := db.repairJobs.deleteWhere (·.id ∈ old)
  let resolved := (pick.dedup.filter fun id => (jobs.find? id).any fun j => j.state = .failed &&
    ((db.chunks.find? j.chunkID).isNone ||
      replicationFactor ≤ db.availableReplicas j.chunkID)).take limit
  (old.length + resolved.length, { db with repairJobs := jobs.deleteWhere (·.id ∈ resolved) })

/-- Recomputes the durability counters from the replica rows and returns how many chunks
were wrong. -/
def verifyDurabilityCounters (db : Database) : Nat × Database :=
  (db.chunks.count fun c => db.availableReplicas c.id ≠ db.countAvailable c.id,
    db.writeReplicas db.replicas fun c => (db.chunks.find? c).isSome)

end FlexStore.Metadata
