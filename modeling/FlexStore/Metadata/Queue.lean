import FlexStore.Metadata.Operation

/-!
# The work queues across calls

A deletion job keeps its number and its pair until it is finished or given up by number.
Every other call leaves the jobs in the queue and at most adds some, and the calls that
are not about repair leave the repair queue as it is. The lookups of `Database.view` show
neither, so this is proved from the definitions of the calls.
-/

namespace FlexStore.Metadata

open Relational Transition

/-- Every job of the first queue is a job of the second, with its number. -/
def DeletionQueue.Within (q q' : DeletionQueue) : Prop :=
  ∀ d ∈ q.table.rows, ∃ d' ∈ q'.table.rows, d'.id = d.id ∧ d'.key = d.key

namespace DeletionQueue

variable {q q' q'' : DeletionQueue}

theorem Within.refl (q : DeletionQueue) : q.Within q := fun d member => ⟨d, member, rfl, rfl⟩

theorem Within.trans (first : q.Within q') (second : q'.Within q'') : q.Within q'' := by
  intro d member
  obtain ⟨d', member', number, pair⟩ := first d member
  obtain ⟨d'', member'', number', pair'⟩ := second d' member'
  exact ⟨d'', member'', number'.trans number, pair'.trans pair⟩

theorem within_enqueue (q : DeletionQueue) (now : Time) (c : UUID) (n : NodeID) :
    q.Within (q.enqueue now c n) := by
  intro d member
  refine ⟨d, ?_, rfl, rfl⟩
  rcases Table.rows_insertIgnore q.table _ with same | added
  · exact same ▸ member
  · exact added ▸ List.mem_append_left _ member

theorem within_enqueueAll (q : DeletionQueue) (now : Time) (pairs : List (UUID × NodeID)) :
    q.Within (q.enqueueAll now pairs) := by
  induction pairs generalizing q with
  | nil => exact .refl q
  | cons pair rest ih => exact (within_enqueue q now pair.1 pair.2).trans (ih _)

theorem within_updateWhere (q : DeletionQueue) (p : DeletionRow → Bool)
    (f : DeletionRow → DeletionRow) (keep : ∀ d, (f d).key = d.key)
    (number : ∀ d, (f d).id = d.id) : q.Within (q.updateWhere p f keep number) := by
  intro d member
  refine ⟨if p d then f d else d, List.mem_map_of_mem member, ?_, ?_⟩
  · split
    · exact number d
    · rfl
  · split
    · exact keep d
    · rfl

end DeletionQueue

/-- The call removes a deletion job from the queue. -/
def Op.settles : Op → Bool
  | .finishDeletion .. => true
  | .failDeletion .. => true
  | _ => false

/-- The call changes the repair queue, or removes chunks and the repair jobs with them. -/
def Op.repairs : Op → Bool
  | .enqueueRepairs .. => true
  | .reclaimExpiredRepairLeases => true
  | .claimRepairJob .. => true
  | .recordRepairPlan .. => true
  | .completeRepair .. => true
  | .finishRepairAsNoop .. => true
  | .failRepair .. => true
  | .requeueFailedRepairs .. => true
  | .purgeFinishedRepairJobs .. => true
  | .purgeReclaimedChunks .. => true
  | .purgeCompletedMultipartUploads .. => true
  | _ => false

/-- The deletion jobs of the first database are still queued in the second. -/
def KeepsJobs (db db' : Database) : Prop := db.deletions.Within db'.deletions

theorem KeepsJobs.of_eq {db db' : Database} (same : db'.deletions = db.deletions) :
    KeepsJobs db db' := by
  rw [KeepsJobs, same]
  exact .refl _

/-- Every counter is the number of AVAILABLE rows of its chunk. -/
def Counted (db : Database) : Prop := ∀ c, db.availableReplicas c = db.countAvailable c

/-- A chunk without a row has no AVAILABLE copy, which the foreign key enforces. -/
def Database.rooted (db : Database) : Prop :=
  ∀ c, db.chunks.find? c = none → db.countAvailable c = 0

/-- The deletion jobs are still queued, the repair queue is the same, and the counters are
exact if they were, given what the call may rely on. -/
def Spares (given : Prop) (db db' : Database) : Prop :=
  KeepsJobs db db' ∧ db'.repairJobs = db.repairJobs ∧
    db'.nextRepairJobID = db.nextRepairJobID ∧ (given → Counted db → Counted db')

/-- The same without a word on the repair queue. -/
def Maintains (db db' : Database) : Prop := KeepsJobs db db' ∧ (Counted db → Counted db')

theorem Spares.maintains {db db' : Database} (spares : Spares True db db') : Maintains db db' :=
  ⟨spares.1, spares.2.2.2 trivial⟩

theorem Maintains.trans {db db' db'' : Database} (first : Maintains db db')
    (second : Maintains db' db'') : Maintains db db'' :=
  ⟨DeletionQueue.Within.trans first.1 second.1, second.2 ∘ first.2⟩

theorem Maintains.of_eq {db db' : Database} (deletions : db'.deletions = db.deletions)
    (replicas : db'.replicas = db.replicas)
    (counters : db'.availableReplicas = db.availableReplicas) : Maintains db db' := by
  refine ⟨.of_eq deletions, fun counted c => ?_⟩
  rw [counters, counted c, Database.countAvailable, Database.countAvailable, replicas]

/-- A scan writes nothing but jobs. -/
theorem foldl_enqueueRepair_eq (now : Time) (ids : List UUID) (db : Database) :
    ∃ jobs next, ids.foldl (enqueueRepair now) db =
      { db with repairJobs := jobs, nextRepairJobID := next } := by
  induction ids generalizing db with
  | nil => exact ⟨_, _, rfl⟩
  | cons id rest ih =>
    obtain ⟨jobs, next, scanned⟩ := ih (enqueueRepair now db id)
    exact ⟨jobs, next, scanned⟩

section Statements

variable {db db' db'' : Database} {now : Time} {given : Prop}

theorem Spares.trans (first : Spares given db db') (second : Spares given db' db'') :
    Spares given db db'' :=
  ⟨DeletionQueue.Within.trans first.1 second.1, second.2.1.trans first.2.1,
    second.2.2.1.trans first.2.2.1,
    fun sound counted => second.2.2.2 sound (first.2.2.2 sound counted)⟩

/-- The queues, and the replica rows with their counters. -/
def queues (db : Database) :
    DeletionQueue × Table RepairJobRow.id × Nat × Table ReplicaRow.key × (UUID → Int) :=
  (db.deletions, db.repairJobs, db.nextRepairJobID, db.replicas, db.availableReplicas)

theorem Spares.of_eq (same : queues db' = queues db) : Spares given db db' := by
  simp only [queues, Prod.mk.injEq] at same
  obtain ⟨deletions, repairs, numbers, rows, counters⟩ := same
  have maintains := Maintains.of_eq deletions rows counters
  exact ⟨maintains.1, repairs, numbers, fun _ => maintains.2⟩

/-- A statement on the deletion queue. -/
theorem Spares.of_within {deletions : DeletionQueue} (within : db.deletions.Within deletions) :
    Spares given db { db with deletions } :=
  ⟨within, rfl, rfl, fun _ => id⟩

/-- A statement on the replica rows keeps the counters exact when the trigger runs for every
chunk whose number of AVAILABLE rows has changed. -/
theorem spares_writeReplicas {replicas : Table ReplicaRow.key} {touched : UUID → Bool}
    (others : ∀ c, touched c = false →
      Database.availableIn replicas c = Database.availableIn db.replicas c) :
    Spares given db (db.writeReplicas replicas touched) := by
  refine ⟨.of_eq rfl, rfl, rfl, fun _ counted c => ?_⟩
  cases hit : touched c with
  | true => simp [Database.writeReplicas, Database.countAvailable, hit]
  | false =>
    simp only [Database.writeReplicas, hit, Database.countAvailable, others c hit]
    exact counted c

theorem spares_updateReplicas (db : Database) (p : ReplicaRow → Bool)
    (f : ReplicaRow → ReplicaRow) (keep : ∀ r, (f r).key = r.key) :
    Spares given db (db.updateReplicas p f keep) := by
  refine spares_writeReplicas fun c untouched => ?_
  simp only [List.any_eq_false, Bool.and_eq_true, decide_eq_true_eq, not_and] at untouched
  simp only [Database.availableIn, Table.count, Table.updateWhere, List.countP_map]
  refine List.countP_congr fun r member => ?_
  by_cases chosen : p r = true
  · have chunk : (f r).chunkID = r.chunkID := congrArg Prod.fst (keep r)
    simp [chosen, chunk, untouched r member chosen]
  · simp [chosen]

theorem spares_putReplica (row : ReplicaRow) (f : ReplicaRow → ReplicaRow)
    (keep : ∀ r, (f r).key = r.key) (db : Database) :
    Spares given db (db.putReplica row f keep) := by
  refine spares_writeReplicas fun c untouched => ?_
  have other : row.chunkID ≠ c := fun same => by simp [same] at untouched
  unfold Table.upsert
  split
  · simp [Database.availableIn, Table.count, Table.append, other]
  · simp only [Database.availableIn, Table.count, Table.updateWhere, List.countP_map]
    refine List.countP_congr fun r _ => ?_
    by_cases chosen : r.key = row.key
    · have chunk : (f r).chunkID = row.chunkID :=
        congrArg Prod.fst ((keep r).trans chosen)
      have old : r.chunkID = row.chunkID := congrArg Prod.fst chosen
      simp [chosen, chunk, old, other]
    · simp [chosen]

theorem spares_deleteReplicas (db : Database) (p : ReplicaRow → Bool) :
    Spares given db (db.deleteReplicas p) := by
  refine spares_writeReplicas fun c untouched => ?_
  simp only [List.any_eq_false, Bool.and_eq_true, decide_eq_true_eq, not_and] at untouched
  simp only [Database.availableIn, Table.count, Table.deleteWhere, List.countP_filter]
  refine List.countP_congr fun r member => ?_
  by_cases chosen : p r = true
  · simp [chosen, untouched r member chosen]
  · simp [chosen]

theorem spares_foldl {α : Type} {f : Database → α → Database}
    (each : ∀ db a, Spares given db (f db a)) (items : List α) (db : Database) :
    Spares given db (items.foldl f db) := by
  induction items generalizing db with
  | nil => exact .of_eq rfl
  | cons a rest ih => exact (each db a).trans (ih (f db a))

theorem spares_foldlM {α : Type} {f : Database → α → Result Database}
    (each : ∀ db a db', f db a = .ok db' → Spares given db db') {items : List α}
    (h : items.foldlM f db = .ok db') : Spares given db db' := by
  induction items generalizing db with
  | nil =>
    obtain rfl : db = db' := pure_eq_ok.mp h
    exact .of_eq rfl
  | cons a rest ih =>
    rw [List.foldlM_cons, bind_eq_ok] at h
    obtain ⟨middle, first, second⟩ := h
    exact (each db a middle first).trans (ih second)

theorem maintains_deleteChunks (db : Database) (p : ChunkRow → Bool) :
    Maintains db (db.deleteChunks p) :=
  (spares_deleteReplicas db fun r => (db.chunks.find? r.chunkID).any p).maintains

theorem spares_upsertReplica {row : ReplicaRow} {f : ReplicaRow → ReplicaRow}
    {keep : ∀ r, (f r).key = r.key} (h : db.upsertReplica row f keep = .ok db') :
    Spares given db db' := by
  simp only [Database.upsertReplica, bind_eq_ok, pure_eq_ok] at h
  obtain ⟨-, -, rfl⟩ := h
  exact spares_putReplica row f keep db

theorem spares_condemnReplicas (now : Time) (chunk : UUID → Bool) (db : Database) :
    Spares given db (condemnReplicas now chunk db) :=
  (Spares.of_within (DeletionQueue.within_enqueueAll _ _ _)).trans
    (spares_updateReplicas _ _ _ _)

theorem spares_orphanObjectChunks (now : Time) (id : UUID) (db : Database) :
    Spares given db (orphanObjectChunks now id db) :=
  spares_condemnReplicas now _ { db with
    chunks := db.chunks.updateWhere (·.owner = .object id) ChunkRow.orphan }

theorem spares_supersedeCurrentVersion (now : Time) (bucket key : String) (id : UUID)
    (db : Database) : Spares given db (supersedeCurrentVersion now bucket key id db) := by
  have each : ∀ db id, Spares given db (enqueueObjectChunkDeletions now db id) :=
    fun db _ => spares_condemnReplicas _ _ db
  exact spares_foldl each _ { db with
    objects := db.objects.updateWhere (supersededBy bucket key id) (ObjectRow.retire now) }

theorem spares_promoteObject {id : UUID} {sizeBytes chunkCount : Int} {etag : String}
    {obj : Object} (h : promoteObject now id sizeBytes chunkCount etag db = .ok (obj, db')) :
    Spares given db db' := by
  simp only [promoteObject, bind_eq_ok, pure_eq_ok, Prod.mk.injEq] at h
  obtain ⟨_, -, _, -, _, -, -, rfl⟩ := h
  exact .of_eq rfl

theorem spares_supersedePriorParts (now : Time) (uploadID : UUID) (partNumber : Int)
    (db : Database) : Spares given db (supersedePriorParts now uploadID partNumber db) := by
  have each : ∀ db id, Spares given db (orphanPartChunks now db id) :=
    fun db id => spares_condemnReplicas now (fun c => db.ownedBy c (.part id)) db
  exact spares_foldl each _ { db with
    parts := db.parts.updateWhere (priorAttempt uploadID partNumber) (PartRow.fail now) }

theorem spares_enqueuePartChunkDeletions (now : Time) (uploadID : UUID) (db : Database) :
    Spares given db (enqueuePartChunkDeletions now uploadID db) :=
  spares_condemnReplicas now _ db

theorem spares_reclaimUpload (now : Time) (uploadID : UUID) (db : Database) :
    Spares given db (reclaimUpload now uploadID db) :=
  spares_enqueuePartChunkDeletions now uploadID db

theorem spares_abortSession (now : Time) (db : Database) (uploadID : UUID) :
    Spares given db (abortSession now db uploadID) := by
  unfold abortSession
  split
  · exact spares_reclaimUpload now uploadID { db with
      uploads := db.uploads.updateWhere (fun u => u.id = uploadID && u.isOpen)
        (MultipartUploadRow.abort now)
      parts := db.parts.updateWhere (fun p => p.uploadID = uploadID && p.state ≠ .failed)
        (PartRow.fail now) }
  · exact .of_eq rfl

theorem spares_trimChunk (now : Time) (replicationFactor : Int) (db : Database) (c : UUID) :
    Spares given db (trimChunk now replicationFactor db c) := by
  unfold trimChunk
  split
  · exact .of_eq rfl
  · exact (spares_updateReplicas _ _ _ _).trans
      (.of_within (DeletionQueue.within_enqueueAll _ _ _))

theorem spares_claimDeletions (now : Time) (limit : Nat) (lease : Duration) (db : Database) :
    Spares given db (claimDeletions now limit lease db).2 := by
  refine .of_within (DeletionQueue.within_updateWhere _ _ _ _ ?_)
  exact fun _ => rfl

end Statements

section Calls

variable {sizeBytes : Int} {call : Call} {c : UUID}

variable {db db' : Database} {r : Reply} {now : Time} {given : Prop}

theorem spares_completeUpload {id : UUID} {chunkCount : Int} {etag : String} {obj : Object}
    (h : completeUpload now id sizeBytes chunkCount etag db = .ok (obj, db')) :
    Spares given db db' := by
  simp only [completeUpload, bind_eq_ok] at h
  obtain ⟨_, -, _, -, _, -, promoted⟩ := h
  exact (spares_supersedeCurrentVersion _ _ _ _ _).trans (spares_promoteObject promoted)

theorem spares_completeMultipartUpload {objectID uploadID : UUID}
    {expected : List CompletedPartRef} {obj : Object}
    (h : completeMultipartUpload now objectID uploadID expected db = .ok (obj, db')) :
    Spares given db db' := by
  simp only [completeMultipartUpload, bind_eq_ok, pure_eq_ok, Prod.mk.injEq] at h
  obtain ⟨_, -, _, -, _, -, _, -, _, -, _, -, ⟨_, middle⟩, promoted, -, rfl⟩ := h
  have published : Spares given _ middle :=
    Spares.trans (spares_supersedeCurrentVersion _ _ _ _ _) (spares_promoteObject promoted)
  exact published.trans ((spares_reclaimUpload _ _ _).trans (.of_eq rfl))

theorem spares_beginPart {id uploadID : UUID} {partNumber : Int} {part : Part}
    (h : beginPart now id uploadID partNumber db = .ok (part, db')) : Spares given db db' := by
  simp only [beginPart, bind_eq_ok, pure_eq_ok, Prod.mk.injEq] at h
  obtain ⟨_, -, _, -, _, -, _, -, -, rfl⟩ := h
  exact (spares_supersedePriorParts _ _ _ _).trans (.of_eq rfl)

theorem spares_commitChunk {checksum : Checksum} {minReplicas : Int}
    {succeeded failed : List NodeID} {available : Nat}
    (h : commitChunk now c checksum sizeBytes succeeded failed minReplicas db =
      .ok (available, db')) : Spares given db db' := by
  simp only [commitChunk, bind_eq_ok, pure_eq_ok, Prod.mk.injEq] at h
  obtain ⟨_, -, middle, acknowledged, _, -, _, -, -, rfl⟩ := h
  refine Spares.trans (spares_foldl (f := markFailed now c) ?_ failed db)
    (Spares.trans (spares_foldlM ?_ acknowledged) (.of_eq rfl))
  · exact fun db _ => spares_updateReplicas db _ _ _
  · exact fun _ _ _ => spares_upsertReplica

theorem spares_reserveChunk {newID : UUID} {owner : ChunkOwner} {index : Int}
    (h : reserveChunk now newID owner index sizeBytes db = .ok (c, db')) :
    Spares db.rooted db db' := by
  simp only [reserveChunk, bind_eq_ok] at h
  obtain ⟨_, -, _, -, _, -, h⟩ := h
  split at h
  · obtain ⟨-, rfl⟩ := Prod.mk.inj (pure_eq_ok.mp h)
    exact .of_eq rfl
  · simp only [bind_eq_ok, pure_eq_ok, Prod.mk.injEq] at h
    obtain ⟨_, inserted, -, rfl⟩ := h
    obtain ⟨absent, -⟩ := Table.insert?_eq_some.mp (lookup_eq_ok.mp inserted)
    refine ⟨.of_eq rfl, rfl, rfl, fun rooted counted c => ?_⟩
    by_cases new : c = newID
    · subst new
      exact (if_pos rfl).trans (congrArg Nat.cast (rooted c absent)).symm
    · exact (if_neg new).trans (counted c)

theorem spares_markReplicaCorrupt {n : NodeID} {detail : String} {remaining : Int}
    (h : markReplicaCorrupt now c n detail db = .ok (remaining, db')) : Spares given db db' := by
  simp only [markReplicaCorrupt, bind_eq_ok, pure_eq_ok, Prod.mk.injEq] at h
  obtain ⟨_, -, _, -, -, rfl⟩ := h
  exact (spares_updateReplicas db _ _ _).trans (.of_within (DeletionQueue.within_enqueue _ _ _ _))

theorem spares_deleteObject (now : Time) (bucket key : String) (db : Database) :
    Spares given db (deleteObject now bucket key db).2 := by
  unfold deleteObject
  split
  · exact .of_eq rfl
  · exact spares_condemnReplicas now _ { db with
      objects := db.objects.updateWhere (currentVersion bucket key) (ObjectRow.retire now) }

theorem spares_queueOrphanDeletion (now : Time) (c : UUID) (n : NodeID) (db : Database) :
    Spares given db (queueOrphanDeletion now c n db).2 := by
  unfold queueOrphanDeletion
  split
  · exact .of_within (DeletionQueue.within_enqueue _ _ _ _)
  · exact .of_eq rfl

/-- Every call that is not about a queue leaves both queues alone. -/
theorem exec_spares (h : exec call db = .ok (r, db')) (other : call.op.settles = false)
    (idle : call.op.repairs = false) : Spares db.rooted db db' := by
  obtain ⟨now, op⟩ := call
  cases op with
  | upsertNode =>
    simp only [exec, silent_eq_ok, upsertNode, bind_eq_ok, pure_eq_ok] at h
    obtain ⟨⟨_, -, rfl⟩, -⟩ := h
    exact .of_eq rfl
  | recordHeartbeat =>
    simp only [exec, silent_eq_ok, recordHeartbeat, bind_eq_ok, pure_eq_ok] at h
    obtain ⟨⟨_, -, _, -, rfl⟩, -⟩ := h
    exact .of_eq rfl
  | beginUpload =>
    simp only [exec, answer_eq_ok, beginUpload, bind_eq_ok, pure_eq_ok, Prod.mk.injEq] at h
    obtain ⟨_, ⟨_, -, _, -, -, rfl⟩, -⟩ := h
    exact .of_eq rfl
  | createMultipartUpload =>
    simp only [exec, answer_eq_ok, createMultipartUpload, bind_eq_ok, pure_eq_ok,
      Prod.mk.injEq] at h
    obtain ⟨_, ⟨_, -, _, -, -, rfl⟩, -⟩ := h
    exact .of_eq rfl
  | setNodeHealth =>
    obtain rfl := answered h
    unfold setNodeHealth
    split
    · exact spares_updateReplicas _ _ _ _
    · exact .of_eq rfl
  | completeUpload =>
    obtain ⟨_, h, -⟩ := answer_eq_ok.mp h
    exact spares_completeUpload h
  | abortUpload =>
    simp only [exec, silent_eq_ok, abortUpload, bind_eq_ok] at h
    obtain ⟨⟨_, -, h⟩, -⟩ := h
    split at h <;> rw [← pure_eq_ok.mp h]
    · exact spares_orphanObjectChunks now _ { db with objects := _ }
    · exact .of_eq rfl
  | deleteObject =>
    obtain rfl := answered h
    exact spares_deleteObject _ _ _ _
  | reapStaleUploads =>
    obtain rfl := answered h
    have each : ∀ db' id, Spares db.rooted db' (reapUpload now db' id) :=
      fun db' id => spares_orphanObjectChunks now id { db' with objects := _ }
    exact spares_foldl each _ _
  | reserveChunk =>
    obtain ⟨_, h, -⟩ := answer_eq_ok.mp h
    exact spares_reserveChunk h
  | recordChunkTargets =>
    simp only [exec, silent_eq_ok, recordChunkTargets] at h
    exact spares_foldlM (fun _ _ _ => spares_upsertReplica) h.1
  | commitChunk =>
    obtain ⟨_, h, -⟩ := answer_eq_ok.mp h
    exact spares_commitChunk h
  | beginPart =>
    obtain ⟨_, h, -⟩ := answer_eq_ok.mp h
    exact spares_beginPart h
  | completePart =>
    simp only [exec, silent_eq_ok, completePart, bind_eq_ok, pure_eq_ok] at h
    obtain ⟨⟨_, -, _, -, _, -, _, -, _, -, rfl⟩, -⟩ := h
    exact .of_eq rfl
  | completeMultipartUpload =>
    obtain ⟨_, h, -⟩ := answer_eq_ok.mp h
    exact spares_completeMultipartUpload h
  | abortMultipartUpload =>
    simp only [exec, silent_eq_ok, abortMultipartUpload, bind_eq_ok, pure_eq_ok] at h
    obtain ⟨⟨_, -, rfl⟩, -⟩ := h
    exact spares_abortSession _ _ _
  | reapStaleMultipartUploads =>
    obtain rfl := answered h
    exact spares_foldl (spares_abortSession now) _ _
  | trimChunk =>
    obtain rfl := silenced h
    exact spares_trimChunk _ _ _ _
  | trimOverReplicatedChunks =>
    obtain rfl := answered h
    rw [trimOverReplicatedChunks_snd]
    exact spares_foldl (spares_trimChunk now _) _ _
  | markReplicaCorrupt =>
    obtain ⟨_, h, -⟩ := answer_eq_ok.mp h
    exact spares_markReplicaCorrupt h
  | enqueueReconcile =>
    simp only [exec, answer_eq_ok, enqueueReconcile, bind_eq_ok, pure_eq_ok, Prod.mk.injEq] at h
    obtain ⟨_, ⟨_, -, -, rfl⟩, -⟩ := h
    exact .of_eq rfl
  | claimReconcileJob =>
    simp only [exec, answer_eq_ok, claimReconcileJob, bind_eq_ok, pure_eq_ok,
      Prod.mk.injEq] at h
    obtain ⟨_, ⟨_, -, -, rfl⟩, -⟩ := h
    exact .of_eq rfl
  | failReconcile =>
    simp only [exec, silent_eq_ok, failReconcile, bind_eq_ok, pure_eq_ok] at h
    obtain ⟨⟨_, -, rfl⟩, -⟩ := h
    exact .of_eq rfl
  | queueOrphanDeletion =>
    obtain rfl := answered h
    exact spares_queueOrphanDeletion _ _ _ _
  | claimDeletions =>
    obtain rfl := answered h
    exact spares_claimDeletions _ _ _ _
  | finishDeletion | failDeletion => cases other
  | enqueueRepairs | reclaimExpiredRepairLeases | claimRepairJob | recordRepairPlan
  | completeRepair | finishRepairAsNoop | failRepair | requeueFailedRepairs
  | purgeFinishedRepairJobs | purgeReclaimedChunks | purgeCompletedMultipartUploads => cases idle
  | dropReplica =>
    obtain rfl := silenced h
    exact spares_deleteReplicas _ _
  | markReplicasUnavailableOnNode | markReplicasStaleOnNode | promoteVerifiedReplica =>
    obtain rfl := answered h
    exact spares_updateReplicas _ _ _ _
  | verifyDurabilityCounters =>
    obtain rfl := answered h
    exact spares_writeReplicas fun _ _ => rfl
  | touchUpload | completeReconcile =>
    obtain rfl := silenced h
    exact .of_eq rfl
  | _ =>
    obtain rfl := answered h
    exact .of_eq rfl

/-- A call on the repair queue keeps the deletion jobs, and the counters exact. -/
theorem exec_maintains (h : exec call db = .ok (r, db')) (repairs : call.op.repairs = true) :
    Maintains db db' := by
  obtain ⟨now, op⟩ := call
  cases op with
  | enqueueRepairs =>
    obtain rfl := answered h
    obtain ⟨jobs, next, scanned⟩ := foldl_enqueueRepair_eq now _ db
    rw [enqueueRepairs, scanned]
    exact .of_eq rfl rfl rfl
  | claimRepairJob =>
    simp only [exec, answer_eq_ok, claimRepairJob, bind_eq_ok, pure_eq_ok, Prod.mk.injEq] at h
    obtain ⟨_, ⟨_, -, _, -, -, rfl⟩, -⟩ := h
    exact .of_eq rfl rfl rfl
  | completeRepair =>
    simp only [exec, answer_eq_ok, completeRepair, bind_eq_ok, pure_eq_ok, Prod.mk.injEq] at h
    obtain ⟨_, ⟨_, recorded, -, rfl⟩, -⟩ := h
    exact (spares_upsertReplica recorded).maintains
  | finishRepairAsNoop =>
    simp only [exec, silent_eq_ok, finishRepairAsNoop, bind_eq_ok, pure_eq_ok] at h
    obtain ⟨⟨_, -, rfl⟩, -⟩ := h
    exact .of_eq rfl rfl rfl
  | failRepair =>
    simp only [exec, answer_eq_ok, failRepair, bind_eq_ok, pure_eq_ok, Prod.mk.injEq] at h
    obtain ⟨_, ⟨_, -, _, -, _, -, -, rfl⟩, -⟩ := h
    exact .of_eq rfl rfl rfl
  | requeueFailedRepairs =>
    simp only [exec, answer_eq_ok, requeueFailedRepairs, bind_eq_ok, pure_eq_ok,
      Prod.mk.injEq] at h
    obtain ⟨_, ⟨_, -, -, rfl⟩, -⟩ := h
    exact .of_eq rfl rfl rfl
  | purgeReclaimedChunks =>
    simp only [exec, answer_eq_ok, Except.ok.injEq] at h
    obtain ⟨_, h, -⟩ := h
    obtain rfl : _ = db' := congrArg Prod.snd h
    exact (maintains_deleteChunks _ _).trans (maintains_deleteChunks _ _)
  | purgeCompletedMultipartUploads =>
    obtain rfl := answered h
    exact maintains_deleteChunks db _
  | recordRepairPlan =>
    obtain rfl := silenced h
    exact .of_eq rfl rfl rfl
  | reclaimExpiredRepairLeases | purgeFinishedRepairJobs =>
    obtain rfl := answered h
    exact .of_eq rfl rfl rfl
  | _ => cases repairs

/-- Every call that does not settle a deletion job keeps the jobs that are queued. -/
theorem exec_keepsJobs (h : exec call db = .ok (r, db')) (other : call.op.settles = false) :
    KeepsJobs db db' := by
  cases repairs : call.op.repairs with
  | false => exact (exec_spares h other repairs).1
  | true => exact (exec_maintains h repairs).1

/-- The trigger keeps every counter exact, whatever the call. -/
theorem exec_counted (h : exec call db = .ok (r, db')) (rooted : db.rooted) (counted : Counted db) :
    Counted db' := by
  cases settles : call.op.settles with
  | false =>
    cases repairs : call.op.repairs with
    | false => exact (exec_spares h settles repairs).2.2.2 rooted counted
    | true => exact (exec_maintains h repairs).2 counted
  | true =>
    obtain ⟨now, op⟩ := call
    cases op with
    | finishDeletion =>
      obtain rfl := silenced h
      exact (spares_deleteReplicas db _).maintains.2 counted
    | failDeletion =>
      simp only [exec, silent_eq_ok, failDeletion] at h
      obtain ⟨h, -⟩ := h
      split at h
      · rw [← pure_eq_ok.mp h]
        exact (spares_deleteReplicas db _).maintains.2 counted
      · simp only [bind_eq_ok, pure_eq_ok] at h
        obtain ⟨_, -, rfl⟩ := h
        exact counted
    | _ => cases settles

end Calls

section Numbers

variable {db db' : Database} {id k : Nat} {pair : UUID × NodeID} {now : Time}

theorem jobPair_iff :
    jobPair db id = some pair ↔ ∃ d ∈ db.deletions.table.rows, d.id = id ∧ d.key = pair := by
  constructor
  · intro job
    obtain ⟨d, found, key⟩ := Option.map_eq_some_iff.mp job
    exact ⟨d, List.mem_of_find?_eq_some found, by simpa using List.find?_some found, key⟩
  · rintro ⟨d, member, number, rfl⟩
    exact (jobPair_eq_some member).mpr number

theorem queued_of_jobPair (job : jobPair db id = some pair) : db.queued pair.1 pair.2 := by
  obtain ⟨d, member, -, rfl⟩ := jobPair_iff.mp job
  exact Option.isSome_of_eq_some (Table.find?_of_mem member)

theorem KeepsJobs.pair_eq (kept : KeepsJobs db db') (job : jobPair db id = some pair) :
    jobPair db' id = some pair := by
  obtain ⟨d, member, number, key⟩ := jobPair_iff.mp job
  obtain ⟨d', member', number', key'⟩ := kept d member
  exact jobPair_iff.mpr ⟨d', member', number'.trans number, key'.trans key⟩

/-- Finishing a job leaves the others alone. -/
theorem jobPair_finishDeletion {c : UUID} {n : NodeID} (other : k ≠ id)
    (job : jobPair db k = some pair) : jobPair (finishDeletion id c n db) k = some pair := by
  obtain ⟨d, member, number, key⟩ := jobPair_iff.mp job
  refine jobPair_iff.mpr ⟨d, List.mem_filter.mpr ⟨member, ?_⟩, number, key⟩
  simpa [number] using other

/-- So does putting one off or giving it up. -/
theorem jobPair_failDeletion {cause : String} {backoff : Duration} {maxAttempts : Int}
    (h : failDeletion now id cause backoff maxAttempts db = .ok db') (other : k ≠ id)
    (job : jobPair db k = some pair) : jobPair db' k = some pair := by
  simp only [failDeletion] at h
  split at h
  · obtain rfl := pure_eq_ok.mp h
    obtain ⟨d, member, number, key⟩ := jobPair_iff.mp job
    refine jobPair_iff.mpr ⟨d, List.mem_filter.mpr ⟨member, ?_⟩, number, key⟩
    simp [number, other]
  · simp only [bind_eq_ok, pure_eq_ok] at h
    obtain ⟨_, -, rfl⟩ := h
    refine KeepsJobs.pair_eq (DeletionQueue.within_updateWhere _ _ _ ?_ ?_) job <;>
      exact fun _ => rfl

/-- The jobs that are handed out are in the queue under their numbers. -/
theorem jobPair_claimDeletions {limit : Nat} {lease : Duration} {job : PendingDeletion}
    (leased : job ∈ (claimDeletions now limit lease db).1) :
    jobPair (claimDeletions now limit lease db).2 job.id = some (job.chunkID, job.nodeID) := by
  obtain ⟨d, due, rfl⟩ := List.mem_map.mp leased
  have member : d ∈ db.deletions.table.rows :=
    (List.mem_filter.mp ((List.mem_insertionSort _).mp (List.mem_of_mem_take due))).1
  have kept : Spares True db _ := spares_claimDeletions now limit lease db
  exact KeepsJobs.pair_eq kept.1
    (jobPair_iff.mpr ⟨d, member, rfl, rfl⟩)

theorem nodup_claimDeletions (now : Time) (limit : Nat) (lease : Duration) (db : Database) :
    ((claimDeletions now limit lease db).1.map (·.id)).Nodup := by
  have distinct : ((dueDeletions now limit db).map (·.id)).Nodup := by
    refine List.Nodup.sublist ((List.take_sublist _ _).map _) ?_
    refine ((List.perm_insertionSort _ _).map _).nodup_iff.mpr ?_
    exact db.deletions.ids.sublist (List.filter_sublist.map _)
  rw [claimDeletions, List.map_map]
  exact distinct

end Numbers

end FlexStore.Metadata
