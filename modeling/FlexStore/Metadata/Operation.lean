import FlexStore.Metadata.Gc
import FlexStore.Metadata.Multipart
import FlexStore.Metadata.Nodes
import FlexStore.Metadata.Reconcile
import FlexStore.Metadata.Repair
import FlexStore.Transition.Run

/-!
# Store transactions

An `Op` is one call of the store that may write, with the arguments the caller
passes and the identifiers the call draws; the reads are functions of the database.
`exec` runs a call as one transaction at the time the database clock shows, and
`step` is its effect: a refused call changes nothing.

Two operations of the store are several transactions: trimming runs one for each
chunk and the session reaper one for each session. The transactions of both are
operations of their own here, next to the whole loop.
-/

namespace FlexStore.Metadata

open Relational Transition

/-- The calls of the store that may write. -/
inductive Op where
  | upsertNode (id : NodeID) (address : String) (health : Health) (stats : NodeStats) (at_ : Time)
  | recordHeartbeat (id : NodeID) (address : String) (stats : NodeStats) (health : Health)
      (at_ : Time)
  | setNodeHealth (id : NodeID) (health : Health)
  | markReplicasUnavailableOnNode (id : NodeID)
  | beginUpload (id : UUID) (bucket key contentType : String) (chunkSize : Int)
  | touchUpload (id : UUID)
  | completeUpload (id : UUID) (sizeBytes chunkCount : Int) (etag : String)
  | abortUpload (id : UUID) (reason : String)
  | deleteObject (bucket key : String)
  | reapStaleUploads (olderThan : Duration) (limit : Nat)
  | reserveChunk (newID : UUID) (owner : ChunkOwner) (index sizeBytes : Int)
  | recordChunkTargets (chunkID : UUID) (targets : List NodeID)
  | commitChunk (chunkID : UUID) (checksum : Checksum) (sizeBytes : Int)
      (succeeded failed : List NodeID) (minReplicas : Int)
  | createMultipartUpload (id : UUID) (bucket key contentType : String) (chunkSize : Int)
  | beginPart (id uploadID : UUID) (partNumber : Int)
  | completePart (id : UUID) (sizeBytes chunkCount : Int) (etag : String)
  | completeMultipartUpload (objectID uploadID : UUID) (expected : List CompletedPartRef)
  | abortMultipartUpload (uploadID : UUID)
  | reapStaleMultipartUploads (olderThan : Duration) (limit : Nat)
  | enqueueRepairs (replicationFactor : Int) (limit : Nat)
  | trimChunk (replicationFactor : Int) (chunkID : UUID)
  | trimOverReplicatedChunks (replicationFactor : Int) (limit : Nat)
  | reclaimExpiredRepairLeases
  | claimRepairJob (owner : String) (lease : Duration) (replicationFactor : Int)
  | recordRepairPlan (jobID : Nat) (source target : NodeID)
  | completeRepair (jobID : Nat) (chunkID : UUID) (targetNode : NodeID)
  | finishRepairAsNoop (jobID : Nat) (reason : String)
  | failRepair (jobID : Nat) (cause : String) (backoff : Duration) (maxAttempts : Int)
  | requeueFailedRepairs (limit : Nat)
  | markReplicaCorrupt (chunkID : UUID) (nodeID : NodeID) (detail : String)
  | dropReplica (chunkID : UUID) (nodeID : NodeID)
  | purgeFinishedRepairJobs (olderThan : Duration) (replicationFactor : Int) (limit : Nat)
      (pick : List Nat)
  | verifyDurabilityCounters
  | markReplicasStaleOnNode (nodeID : NodeID)
  | enqueueReconcile (nodeID : NodeID)
  | reclaimExpiredReconcileLeases
  | claimReconcileJob (owner : String) (lease : Duration)
  | completeReconcile (jobID : Nat) (result : ReconcileResult)
  | failReconcile (jobID : Nat) (cause : String)
  | promoteVerifiedReplica (chunkID : UUID) (nodeID : NodeID)
  | queueOrphanDeletion (chunkID : UUID) (nodeID : NodeID)
  | claimDeletions (limit : Nat) (lease : Duration)
  | finishDeletion (id : Nat) (chunkID : UUID) (nodeID : NodeID)
  | failDeletion (id : Nat) (cause : String) (backoff : Duration) (maxAttempts : Int)
  | purgeReclaimedChunks (limit : Nat) (pickChunks pickObjects : List UUID)
  | purgeCompletedMultipartUploads (olderThan : Duration) (limit : Nat) (pick : List UUID)

/-- A call and the time at which its transaction runs. -/
structure Call where
  now : Time
  op : Op

inductive Reply where
  | done
  | flag (value : Bool)
  | count (value : Nat)
  | available (value : Int)
  | purged (chunks objects : Nat)
  | chunk (id : UUID)
  | object (obj : Object)
  | deleted (id : Option UUID)
  | upload (upload : MultipartUpload)
  | part (part : Part)
  | repair (target : RepairTarget)
  | reconcile (job : ReconcileJob)
  | deletions (jobs : List PendingDeletion)

/-- The reply of a call that returns a value. -/
def answer {α : Type} (reply : α → Reply) (result : Result (α × Database)) :
    Result (Reply × Database) :=
  result.map fun x => (reply x.1, x.2)

/-- The reply of a call that returns nothing but an error. -/
def silent (result : Result Database) : Result (Reply × Database) :=
  result.map fun db => (.done, db)

@[simp] theorem answer_eq_ok {α : Type} {reply : α → Reply} {result : Result (α × Database)}
    {r : Reply} {db' : Database} :
    answer reply result = .ok (r, db') ↔ ∃ a, result = .ok (a, db') ∧ reply a = r := by
  cases result with
  | error e => simp [answer, Except.map]
  | ok x => rcases x with ⟨a, db⟩; simp [answer, Except.map, and_comm]

@[simp] theorem answer_eq_error {α : Type} {reply : α → Reply} {result : Result (α × Database)}
    {e : StoreError} : answer reply result = .error e ↔ result = .error e := by
  cases result <;> simp [answer, Except.map]

@[simp] theorem silent_eq_ok {result : Result Database} {r : Reply} {db' : Database} :
    silent result = .ok (r, db') ↔ result = .ok db' ∧ Reply.done = r := by
  cases result with
  | error e => simp [silent, Except.map]
  | ok x => simp [silent, Except.map, and_comm]

/-- A call that cannot be refused has the database that it returns. -/
theorem answered {α : Type} {x : α × Database} {reply : α → Reply} {r : Reply} {db' : Database}
    (h : answer reply (.ok x) = .ok (r, db')) : x.2 = db' := by
  obtain ⟨_, h, -⟩ := answer_eq_ok.mp h
  rw [Except.ok.inj h]

@[inherit_doc answered]
theorem silenced {x : Database} {r : Reply} {db' : Database}
    (h : silent (.ok x) = .ok (r, db')) : x = db' :=
  Except.ok.inj (silent_eq_ok.mp h).1

def exec (call : Call) (db : Database) : Result (Reply × Database) :=
  let now := call.now
  match call.op with
  | .upsertNode id address health stats at_ =>
    silent (upsertNode now id address health stats at_ db)
  | .recordHeartbeat id address stats health at_ =>
    silent (recordHeartbeat now id address stats health at_ db)
  | .setNodeHealth id health => answer .count (.ok (setNodeHealth now id health db))
  | .markReplicasUnavailableOnNode id =>
    answer .count (.ok (markReplicasUnavailableOnNode now id db))
  | .beginUpload id bucket key contentType chunkSize =>
    answer .object (beginUpload now id bucket key contentType chunkSize db)
  | .touchUpload id => silent (.ok (touchUpload now id db))
  | .completeUpload id sizeBytes chunkCount etag =>
    answer .object (completeUpload now id sizeBytes chunkCount etag db)
  | .abortUpload id reason => silent (abortUpload now id reason db)
  | .deleteObject bucket key => answer .deleted (.ok (deleteObject now bucket key db))
  | .reapStaleUploads olderThan limit =>
    answer .count (.ok (reapStaleUploads now olderThan limit db))
  | .reserveChunk newID owner index sizeBytes =>
    answer .chunk (reserveChunk now newID owner index sizeBytes db)
  | .recordChunkTargets chunkID targets => silent (recordChunkTargets now chunkID targets db)
  | .commitChunk chunkID checksum sizeBytes succeeded failed minReplicas =>
    answer .count (commitChunk now chunkID checksum sizeBytes succeeded failed minReplicas db)
  | .createMultipartUpload id bucket key contentType chunkSize =>
    answer .upload (createMultipartUpload now id bucket key contentType chunkSize db)
  | .beginPart id uploadID partNumber => answer .part (beginPart now id uploadID partNumber db)
  | .completePart id sizeBytes chunkCount etag =>
    silent (completePart now id sizeBytes chunkCount etag db)
  | .completeMultipartUpload objectID uploadID expected =>
    answer .object (completeMultipartUpload now objectID uploadID expected db)
  | .abortMultipartUpload uploadID => silent (abortMultipartUpload now uploadID db)
  | .reapStaleMultipartUploads olderThan limit =>
    answer .count (.ok (reapStaleMultipartUploads now olderThan limit db))
  | .enqueueRepairs replicationFactor limit =>
    answer .count (.ok (enqueueRepairs now replicationFactor limit db))
  | .trimChunk replicationFactor chunkID =>
    silent (.ok (trimChunk now replicationFactor db chunkID))
  | .trimOverReplicatedChunks replicationFactor limit =>
    answer .count (.ok (trimOverReplicatedChunks now replicationFactor limit db))
  | .reclaimExpiredRepairLeases => answer .count (.ok (reclaimExpiredRepairLeases now db))
  | .claimRepairJob owner lease replicationFactor =>
    answer .repair (claimRepairJob now owner lease replicationFactor db)
  | .recordRepairPlan jobID source target =>
    silent (.ok (recordRepairPlan now jobID source target db))
  | .completeRepair jobID chunkID targetNode =>
    answer .available (completeRepair now jobID chunkID targetNode db)
  | .finishRepairAsNoop jobID reason => silent (finishRepairAsNoop now jobID reason db)
  | .failRepair jobID cause backoff maxAttempts =>
    answer .flag (failRepair now jobID cause backoff maxAttempts db)
  | .requeueFailedRepairs limit => answer .count (requeueFailedRepairs now limit db)
  | .markReplicaCorrupt chunkID nodeID detail =>
    answer .available (markReplicaCorrupt now chunkID nodeID detail db)
  | .dropReplica chunkID nodeID => silent (.ok (dropReplica chunkID nodeID db))
  | .purgeFinishedRepairJobs olderThan replicationFactor limit pick =>
    answer .count
      (.ok (purgeFinishedRepairJobs now olderThan replicationFactor limit pick db))
  | .verifyDurabilityCounters => answer .count (.ok (verifyDurabilityCounters db))
  | .markReplicasStaleOnNode nodeID =>
    answer .count (.ok (markReplicasStaleOnNode now nodeID db))
  | .enqueueReconcile nodeID => answer .flag (enqueueReconcile now nodeID db)
  | .reclaimExpiredReconcileLeases =>
    answer .count (.ok (reclaimExpiredReconcileLeases now db))
  | .claimReconcileJob owner lease => answer .reconcile (claimReconcileJob now owner lease db)
  | .completeReconcile jobID result => silent (.ok (completeReconcile now jobID result db))
  | .failReconcile jobID cause => silent (failReconcile now jobID cause db)
  | .promoteVerifiedReplica chunkID nodeID =>
    answer .flag (.ok (promoteVerifiedReplica now chunkID nodeID db))
  | .queueOrphanDeletion chunkID nodeID =>
    answer .flag (.ok (queueOrphanDeletion now chunkID nodeID db))
  | .claimDeletions limit lease => answer .deletions (.ok (claimDeletions now limit lease db))
  | .finishDeletion id chunkID nodeID => silent (.ok (finishDeletion id chunkID nodeID db))
  | .failDeletion id cause backoff maxAttempts =>
    silent (failDeletion now id cause backoff maxAttempts db)
  | .purgeReclaimedChunks limit pickChunks pickObjects =>
    answer (fun n => .purged n.1 n.2)
      (.ok (purgeReclaimedChunks limit pickChunks pickObjects db))
  | .purgeCompletedMultipartUploads olderThan limit pick =>
    answer .count (.ok (purgeCompletedMultipartUploads now olderThan limit pick db))

/-- The database after a call. A refused call is rolled back. -/
def step (db : Database) (call : Call) : Database :=
  match exec call db with
  | .ok (_, db') => db'
  | .error _ => db

theorem step_of_ok {db db' : Database} {call : Call} {r : Reply}
    (h : exec call db = .ok (r, db')) : step db call = db' := by
  rw [step, h]

/-- To compare the databases around a call it is enough to look at successful ones. -/
theorem step_cases {R : Database → Prop} {db : Database} {call : Call} (refused : R db)
    (succeeded : ∀ r db', exec call db = .ok (r, db') → R db') : R (step db call) := by
  unfold step
  split
  next r db' h => exact succeeded r db' h
  next => exact refused

end FlexStore.Metadata
