import FlexStore.Metadata.Operation

/-!
# What a transaction can do

`Change db db' op r` lists, once, everything a successful call can do to the lookups
of a database. The refinement theorem `exec_change` derives it from the code of each
operation; every invariant of the development is then a case analysis over `Change`,
and no later proof unfolds an operation.

Operations with the same effect share a case: a registration and a heartbeat, an
abort and a reaped upload, an aborted session and a reaped one, and every operation
that only keeps the books of repair, reconciliation or leases.
-/

namespace FlexStore.Metadata

open Relational Transition

/-- The node and health that a registration or a heartbeat records. -/
def Op.registers : Op → Option (NodeID × Health)
  | .upsertNode id _ health _ _ => some (id, health)
  | .recordHeartbeat id _ _ health _ => some (id, health)
  | _ => none

/-- The call may trim copies of the chunk. -/
def Op.trims (c : UUID) : Op → Bool
  | .trimChunk _ chunkID => chunkID = c
  | .trimOverReplicatedChunks .. => true
  | _ => false

/-- What a reply says about the current version of a key: a completion publishes an
object, a deletion that found one withdraws it, and nothing else speaks of it. -/
def publishes : Op → Reply → Option ((String × String) × Option Object)
  | .completeUpload .., .object obj => some ((obj.bucket, obj.key), some obj)
  | .completeMultipartUpload .., .object obj => some ((obj.bucket, obj.key), some obj)
  | .deleteObject bucket key, .deleted (some _) => some ((bucket, key), none)
  | _, _ => none

/-- The calls that have an effect of their own whenever they succeed. -/
def Op.acts : Op → Bool
  | .setNodeHealth .. => true
  | .markReplicasUnavailableOnNode .. => true
  | .beginUpload .. => true
  | .touchUpload .. => true
  | .completeUpload .. => true
  | .reserveChunk .. => true
  | .recordChunkTargets .. => true
  | .commitChunk .. => true
  | .createMultipartUpload .. => true
  | .beginPart .. => true
  | .completePart .. => true
  | .completeMultipartUpload .. => true
  | .completeRepair .. => true
  | .markReplicaCorrupt .. => true
  | .dropReplica .. => true
  | .markReplicasStaleOnNode .. => true
  | .promoteVerifiedReplica .. => true
  | .finishDeletion .. => true
  | _ => false

/-- The call has no effect of its own and its reply publishes nothing. -/
def Quiet (op : Op) (r : Reply) : Prop := publishes op r = none ∧ op.acts = false

/-- The effect of a successful call, by the kind of effect. -/
inductive Change (db db' : Database) : Op → Reply → Prop
  | bookkeeping {op : Op} {r : Reply} (quiet : Quiet op r)
      (view : db'.view = db.view) : Change db db' op r
  | registered {op : Op} {r : Reply} (id : NodeID) (health : Health) (row : NodeRow)
      (call : op.registers = some (id, health)) (recorded : row.health = health)
      (view : db'.view = { db.view with nodes := Function.update db.view.nodes id (some row) }) :
      Change db db' op r
  | healthSet {r : Reply} (id : NodeID) (health : Health) (now : Time)
      (view : db'.view = if health = .dead then
        (db.view.mapNodes (·.id = id) (NodeRow.setHealth now health)).demoteNode id
        else db.view.mapNodes (·.id = id) (NodeRow.setHealth now health)) :
      Change db db' (.setNodeHealth id health) r
  | demoted {r : Reply} (id : NodeID) (view : db'.view = db.view.demoteNode id) :
      Change db db' (.markReplicasUnavailableOnNode id) r
  | staled {r : Reply} (id : NodeID) (view : db'.view = db.view.mapReplicas fun _ n s =>
        if n = id && s = .unavailable then .stale else s) :
      Change db db' (.markReplicasStaleOnNode id) r
  | begun {r : Reply} (id : UUID) (bucket key contentType : String) (chunkSize : Int)
      (row : ObjectRow) (named : row.id = id) (state : row.state = .uploading)
      (fresh : db.view.objects id = none)
      (view : db'.view = { db.view with
        objects := Function.update db.view.objects id (some row) }) :
      Change db db' (.beginUpload id bucket key contentType chunkSize) r
  | touched {r : Reply} (id : UUID) (now : Time) (view : db'.view = db.view.mapObjects
        (fun o => o.id = id && o.state = .uploading) fun o => { o with updatedAt := now }) :
      Change db db' (.touchUpload id) r
  | completed (id : UUID) (sizeBytes chunkCount : Int) (etag : String) (now : Time)
      (row : ObjectRow) (found : db.view.objects id = some row) (state : row.state = .uploading)
      (durable : allCommitted (.object id) chunkCount db) (size : 0 ≤ sizeBytes)
      (count : 0 ≤ chunkCount)
      (view : db'.view = (db.view.supersede now row.bucket row.key id).promote id
        (row.finish now sizeBytes.toNat chunkCount.toNat etag)) :
      Change db db' (.completeUpload id sizeBytes chunkCount etag)
        (.object (scanObject (row.finish now sizeBytes.toNat chunkCount.toNat etag)))
  | failed {op : Op} {r : Reply} (quiet : Quiet op r) (ids : List UUID) (now : Time)
      (text : String)
      (accepting : ∀ id ∈ ids, (db.view.objects id).any (·.state = .uploading))
      (view : db'.view = (db.view.mapObjects (fun o => o.id ∈ ids)
        (ObjectRow.fail now text)).reclaim (Owner.objectIn ids)) : Change db db' op r
  | deleted (bucket key : String) (now : Time) (row : ObjectRow)
      (found : db.view.objects row.id = some row) (current : currentVersion bucket key row)
      (view : db'.view = (db.view.mapObjects (currentVersion bucket key)
        (ObjectRow.retire now)).condemnOwned (· = .object row.id)) :
      Change db db' (.deleteObject bucket key) (.deleted (some row.id))
  | reset {r : Reply} (newID : UUID) (own : ChunkOwner) (index sizeBytes : Int) (id : UUID)
      (old : ChunkRow) (found : db.view.chunks id = some old)
      (writable : db.view.writable old.owner)
      (view : db'.view = { db.view with
        chunks := Function.update db.view.chunks id (some (old.reset sizeBytes.toNat)) }) :
      Change db db' (.reserveChunk newID own index sizeBytes) r
  | reserved {r : Reply} (id : UUID) (own : ChunkOwner) (index sizeBytes : Int) (row : ChunkRow)
      (fresh : db.view.chunks id = none) (writable : db.view.writable row.owner)
      (named : row.id = id) (state : row.state = .pending)
      (free : ∀ c other, db.view.chunks c = some other → other.owner = row.owner →
        other.index ≠ row.index)
      (view : db'.view = { db.view with
        chunks := Function.update db.view.chunks id (some row) }) :
      Change db db' (.reserveChunk id own index sizeBytes) r
  | targeted {r : Reply} (c : UUID) (targets : List NodeID)
      (present : ∀ n ∈ targets, db.view.referenced c n)
      (view : db'.view = db.view.setReplicas c targets .writing) :
      Change db db' (.recordChunkTargets c targets) r
  | committed {r : Reply} (c : UUID) (checksum : Checksum) (sizeBytes : Int)
      (succeeded failed : List NodeID) (minReplicas : Int) (now : Time) (row : ChunkRow)
      (session : MultipartUploadRow → Bool) (found : db.view.chunks c = some row)
      (present : ∀ n ∈ succeeded, db.view.referenced c n)
      (durable : minReplicas ≤ db'.countAvailable c) (size : 0 ≤ sizeBytes)
      (view : db'.view =
        { (((db.view.acknowledge c succeeded failed).mapObjects
            (fun o => row.owner = .object o.id && o.state = .uploading)
            fun o => { o with updatedAt := now }).mapUploads session
            fun u => { u with updatedAt := now }) with
          chunks := Function.update db.view.chunks c
            (some (row.commit now checksum sizeBytes.toNat)) }) :
      Change db db' (.commitChunk c checksum sizeBytes succeeded failed minReplicas) r
  | sessionCreated {r : Reply} (id : UUID) (bucket key contentType : String) (chunkSize : Int)
      (row : MultipartUploadRow) (state : row.state = .inProgress)
      (fresh : db.view.uploads id = none)
      (view : db'.view = { db.view with
        uploads := Function.update db.view.uploads id (some row) }) :
      Change db db' (.createMultipartUpload id bucket key contentType chunkSize) r
  | partBegun {r : Reply} (id uploadID : UUID) (partNumber : Int) (now : Time)
      (session : MultipartUploadRow) (found : db.view.uploads uploadID = some session)
      (progress : session.state = .inProgress) (fresh : db.view.parts id = none)
      (view : db'.view =
        { ((db.view.restartPart now uploadID partNumber).mapUploads (·.id = uploadID)
            fun u => { u with updatedAt := now }) with
          parts := Function.update (db.view.restartPart now uploadID partNumber).parts id
            (some (newPart now id uploadID partNumber)) }) :
      Change db db' (.beginPart id uploadID partNumber) r
  | partCompleted {r : Reply} (id : UUID) (sizeBytes chunkCount : Int) (etag : String) (now : Time)
      (row : PartRow) (found : db.view.parts id = some row) (state : row.state = .uploading)
      (durable : allCommitted (.part id) chunkCount db) (size : 0 ≤ sizeBytes)
      (count : 0 ≤ chunkCount)
      (view : db'.view = { db.view with
        parts := Function.update db.view.parts id
          (some (row.finish now sizeBytes.toNat chunkCount.toNat etag)) }) :
      Change db db' (.completePart id sizeBytes chunkCount etag) r
  | assembled (objectID uploadID : UUID) (expected : List CompletedPartRef) (now : Time)
      (session : MultipartUploadRow) (row : ObjectRow) (size count : Int) (etag : String)
      (middle : View) (found : db.view.uploads uploadID = some session)
      (progress : session.state = .inProgress) (fresh : db.view.objects objectID = none)
      (new : row = newObject now objectID session.bucket session.key session.contentType
        session.chunkSize db)
      (sized : size = totalSize (completeParts uploadID db))
      (counted : count = totalChunks (completeParts uploadID db)) (nonneg : 0 ≤ size ∧ 0 ≤ count)
      (all : ((assembledChunks uploadID db).length : Int) = count)
      (promoted : middle = ((db.view.assemble row ((assembledChunks uploadID db).map
        (·.id))).supersede now session.bucket session.key objectID).promote objectID
          (row.finish now size.toNat count.toNat etag))
      (view : db'.view = { middle.reclaim (middle.partWith (·.uploadID = uploadID)) with
        uploads := Function.update db.view.uploads uploadID (some (session.close now objectID)) }) :
      Change db db' (.completeMultipartUpload objectID uploadID expected)
        (.object (scanObject (row.finish now size.toNat count.toNat etag)))
  | sessionsAborted {op : Op} {r : Reply} (quiet : Quiet op r) (now : Time)
      (selected : UUID → Bool) (view : db'.view = db.view.abortSessions now selected) :
      Change db db' op r
  | trimmed {op : Op} {r : Reply} (quiet : Quiet op r) (slots : UUID → NodeID → Slot)
      (trims : ∀ c n, slots c n = db.view.slots c n ∨
        op.trims c ∧ (db.view.slots c n).Trimmed (slots c n))
      (view : db'.view = { db.view with slots }) : Change db db' op r
  | repaired {r : Reply} (jobID : Nat) (c : UUID) (n : NodeID) (present : db.view.referenced c n)
      (view : db'.view = db.view.setReplicas c [n] .available) :
      Change db db' (.completeRepair jobID c n) r
  | corrupted {r : Reply} (c : UUID) (n : NodeID) (detail : String)
      (present : (db.view.chunks c).isSome)
      (view : db'.view = (db.view.mapReplicas fun c' n' s =>
        if c' = c && n' = n && s ≠ .deleting then .corrupt else s).enqueue
          fun c' n' => decide (c = c' ∧ n = n')) :
      Change db db' (.markReplicaCorrupt c n detail) r
  | dropped {r : Reply} (c : UUID) (n : NodeID)
      (view : db'.view = db.view.dropReplicas fun c' n' _ => c' = c && n' = n) :
      Change db db' (.dropReplica c n) r
  | promoted {r : Reply} (c : UUID) (n : NodeID) (view : db'.view = db.view.mapReplicas
        fun c' n' s => if c' = c && n' = n && s = .stale then .available else s) :
      Change db db' (.promoteVerifiedReplica c n) r
  | orphanQueued {r : Reply} (c : UUID) (n : NodeID)
      (absent : (db.view.slots c n).replica = none)
      (idle : ∀ row, db.view.chunks c = some row → row.state ≠ .pending)
      (view : db'.view = db.view.enqueue fun c' n' => decide (c = c' ∧ n = n')) :
      Change db db' (.queueOrphanDeletion c n) r
  | finished {r : Reply} (id : Nat) (c : UUID) (n : NodeID)
      (view : db'.view = (db.view.dropReplicas fun c' n' _ => c' = c && n' = n).dequeue
        (jobPair db id)) :
      Change db db' (.finishDeletion id c n) r
  | abandoned {r : Reply} (id : Nat) (cause : String) (backoff : Duration) (maxAttempts : Int)
      (c : UUID) (n : NodeID) (pair : jobPair db id = some (c, n))
      (view : db'.view = (db.view.dequeue (some (c, n))).dropReplicas
        fun c' n' s => c' = c && n' = n && s = .deleting) :
      Change db db' (.failDeletion id cause backoff maxAttempts) r
  | purged {op : Op} {r : Reply} (quiet : Quiet op r) (chunk : ChunkRow → Bool)
      (object : ObjectRow → Bool)
      (orphans : ∀ c row, db.view.chunks c = some row → chunk row → row.state = .orphaned)
      (dead : ∀ o row, db.view.objects o = some row → object row →
        row.state = .deleting ∨ row.state = .failed)
      (bare : ∀ c row, db.view.chunks c = some row →
        chunk row ∨ db.view.objectWith object row.owner → ∀ n, db.view.slots c n = ⟨none, false⟩)
      (view : db'.view = { db.view.mapUploads
          (fun u => u.objectID.any fun o => (db.view.objects o).any object)
          (fun u => { u with objectID := none }) with
        chunks := fun c => (db.view.chunks c).filter fun row =>
          !chunk row && !db.view.objectWith object row.owner
        objects := fun o => (db.view.objects o).filter fun row => !object row }) :
      Change db db' op r
  | sessionsPurged {op : Op} {r : Reply} (quiet : Quiet op r)
      (upload : MultipartUploadRow → Bool)
      (closed : ∀ u row, db.view.uploads u = some row → upload row → row.state ≠ .inProgress)
      (unused : ∀ c row, db.view.chunks c = some row → db.view.partWith
        (fun part => (db.view.uploads part.uploadID).any upload) row.owner = false)
      (view : db'.view = { db.view with
        uploads := fun u => (db.view.uploads u).filter fun row => !upload row
        parts := fun x => (db.view.parts x).filter fun row =>
          !(db.view.uploads row.uploadID).any upload }) : Change db db' op r

/-- An upload that is open is selected by its id alone. -/
theorem mapObjects_single {db : Database} {id : UUID} {f : ObjectRow → ObjectRow}
    (accepting : (db.view.objects id).any (·.state = .uploading)) :
    db.view.mapObjects (fun o => o.id = id && o.state = .uploading) f =
      db.view.mapObjects (fun o => o.id ∈ [id]) f := by
  refine View.ext rfl (funext fun k => ?_) rfl rfl rfl rfl
  cases found : db.view.objects k with
  | none => simp [View.mapObjects, found]
  | some o =>
    have mine : o.id = k := (Table.mem_of_find? found).2
    by_cases same : k = id
    · subst same
      have open_ : o.state = .uploading := by simpa [found] using accepting
      simp [View.mapObjects, found, mine, open_]
    · simp [View.mapObjects, found, mine, same]

theorem view_foldl_enqueueRepair (now : Time) (ids : List UUID) (db : Database) :
    (ids.foldl (enqueueRepair now) db).view = db.view := by
  induction ids generalizing db with
  | nil => rfl
  | cons id rest ih => exact ih (enqueueRepair now db id)

/-- Every operation of the store does one of the listed things when it succeeds. -/
theorem exec_change {call : Call} {db db' : Database} {r : Reply}
    (h : exec call db = .ok (r, db')) : Change db db' call.op r := by
  rcases call with ⟨now, op⟩
  cases op with
  | upsertNode id address health stats at_ =>
    obtain ⟨row, recorded, view⟩ := upsertNode_ok (silent_eq_ok.mp h).1
    exact .registered id health row rfl recorded view
  | recordHeartbeat id address stats health at_ =>
    obtain ⟨row, recorded, view⟩ := recordHeartbeat_ok (silent_eq_ok.mp h).1
    exact .registered id health row rfl recorded view
  | setNodeHealth id health =>
    obtain rfl := answered h
    exact .healthSet id health now (view_setNodeHealth ..)
  | markReplicasUnavailableOnNode id =>
    obtain rfl := answered h
    exact .demoted id (view_markReplicasUnavailableOnNode ..)
  | beginUpload id bucket key contentType chunkSize =>
    obtain ⟨_, effect, -⟩ := answer_eq_ok.mp h
    obtain ⟨fresh, view⟩ := beginUpload_ok effect
    exact .begun id bucket key contentType chunkSize _ rfl rfl fresh view
  | touchUpload id =>
    obtain rfl := silenced h
    exact .touched id now (view_touchUpload ..)
  | completeUpload id sizeBytes chunkCount etag =>
    obtain ⟨_, effect, rfl⟩ := answer_eq_ok.mp h
    obtain ⟨row, found, state, durable, size, count, rfl, view⟩ := completeUpload_ok effect
    exact .completed id sizeBytes chunkCount etag now row found state durable size count view
  | abortUpload id reason =>
    rcases abortUpload_ok (silent_eq_ok.mp h).1 with rfl | ⟨text, accepting, view⟩
    · exact .bookkeeping ⟨rfl, rfl⟩ rfl
    · refine .failed ⟨rfl, rfl⟩ [id] now text (by simpa using accepting) ?_
      rw [view, mapObjects_single accepting]
      exact View.reclaim_congr _ fun o => by cases o <;> simp [Owner.objectIn]
  | deleteObject bucket key =>
    simp only [exec, answer_eq_ok, Except.ok.injEq] at h
    obtain ⟨_, effect, rfl⟩ := h
    rcases view_deleteObject effect with ⟨rfl, rfl, -⟩ | ⟨row, rfl, found, current, view⟩
    · exact .bookkeeping ⟨rfl, rfl⟩ rfl
    · exact .deleted bucket key now row found current view
  | reapStaleUploads olderThan limit =>
    simp only [exec, answer_eq_ok, Except.ok.injEq] at h
    obtain ⟨_, effect, rfl⟩ := h
    obtain ⟨ids, accepting, view⟩ := view_reapStaleUploads effect
    exact .failed ⟨rfl, rfl⟩ ids now _ accepting view
  | reserveChunk newID own index sizeBytes =>
    obtain ⟨id, effect, rfl⟩ := answer_eq_ok.mp h
    obtain ⟨owner, -, writable, ⟨old, found, rfl, -, view⟩ | ⟨rfl, fresh, free, view⟩⟩ :=
      reserveChunk_ok effect
    · exact .reset newID own index sizeBytes id old found writable view
    · exact .reserved id own index sizeBytes _ fresh writable rfl rfl free view
  | recordChunkTargets c targets =>
    obtain ⟨present, view⟩ := recordChunkTargets_ok (silent_eq_ok.mp h).1
    exact .targeted c targets present view
  | commitChunk c checksum sizeBytes succeeded failed minReplicas =>
    obtain ⟨available, effect, rfl⟩ := answer_eq_ok.mp h
    obtain ⟨row, found, present, durable, rfl, size, session, view⟩ := commitChunk_ok effect
    exact .committed c checksum sizeBytes succeeded failed minReplicas now row session found
      present durable size view
  | createMultipartUpload id bucket key contentType chunkSize =>
    obtain ⟨_, effect, -⟩ := answer_eq_ok.mp h
    obtain ⟨fresh, row, state, view⟩ := createMultipartUpload_ok effect
    exact .sessionCreated id bucket key contentType chunkSize row state fresh view
  | beginPart id uploadID partNumber =>
    obtain ⟨_, effect, -⟩ := answer_eq_ok.mp h
    obtain ⟨⟨session, found, progress⟩, fresh, view⟩ := beginPart_ok effect
    exact .partBegun id uploadID partNumber now session found progress fresh view
  | completePart id sizeBytes chunkCount etag =>
    obtain ⟨row, found, state, durable, size, count, view⟩ := completePart_ok (silent_eq_ok.mp h).1
    exact .partCompleted id sizeBytes chunkCount etag now row found state durable size count view
  | completeMultipartUpload objectID uploadID expected =>
    obtain ⟨_, effect, rfl⟩ := answer_eq_ok.mp h
    obtain ⟨session, row, size, count, etag, middle, found, progress, fresh, new, sized, counted,
      positive, nonneg, all, rfl, promoted, view⟩ := completeMultipartUpload_ok effect
    exact .assembled objectID uploadID expected now session row size count etag middle found
      progress fresh new sized counted ⟨positive, nonneg⟩ all promoted view
  | abortMultipartUpload uploadID =>
    exact .sessionsAborted ⟨rfl, rfl⟩ now _ (abortMultipartUpload_ok (silent_eq_ok.mp h).1)
  | reapStaleMultipartUploads olderThan limit =>
    simp only [exec, answer_eq_ok, Except.ok.injEq] at h
    obtain ⟨_, effect, rfl⟩ := h
    obtain ⟨ids, view⟩ := view_reapStaleMultipartUploads effect
    exact .sessionsAborted ⟨rfl, rfl⟩ now _ view
  | enqueueRepairs replicationFactor limit =>
    obtain rfl := answered h
    exact .bookkeeping ⟨rfl, rfl⟩ (view_foldl_enqueueRepair now _ db)
  | trimChunk replicationFactor chunkID =>
    obtain rfl := silenced h
    obtain ⟨slots, trims, view⟩ := view_trimChunk now replicationFactor db chunkID
    refine .trimmed ⟨rfl, rfl⟩ slots (fun c n => ?_) view
    refine (trims c n).imp_right ?_
    rintro ⟨mine, trimmed⟩
    exact ⟨by simpa [Op.trims] using mine, trimmed⟩
  | trimOverReplicatedChunks replicationFactor limit =>
    obtain rfl := (trimOverReplicatedChunks_snd ..).symm.trans (answered h)
    obtain ⟨slots, trims, view⟩ := view_foldl_trimChunk now replicationFactor _ db
    exact .trimmed ⟨rfl, rfl⟩ slots (fun c n => Or.inr ⟨rfl, trims c n⟩) view
  | completeRepair jobID c n =>
    obtain ⟨_, effect, -⟩ := answer_eq_ok.mp h
    obtain ⟨present, view⟩ := completeRepair_ok effect
    exact .repaired jobID c n present view
  | markReplicaCorrupt c n detail =>
    obtain ⟨_, effect, -⟩ := answer_eq_ok.mp h
    obtain ⟨present, view⟩ := markReplicaCorrupt_ok effect
    exact .corrupted c n detail present view
  | dropReplica c n =>
    obtain rfl := silenced h
    exact .dropped c n (view_dropReplica ..)
  | markReplicasStaleOnNode id =>
    obtain rfl := answered h
    exact .staled id (view_markReplicasStaleOnNode ..)
  | promoteVerifiedReplica c n =>
    obtain rfl := answered h
    exact .promoted c n (view_promoteVerifiedReplica ..)
  | queueOrphanDeletion c n =>
    simp only [exec, answer_eq_ok, Except.ok.injEq] at h
    obtain ⟨_, effect, rfl⟩ := h
    have view := view_queueOrphanDeletion now c n db
    rw [effect] at view
    split at view
    next guards =>
      simp only [unaccounted, Bool.and_eq_true, Option.isNone_iff_eq_none, Bool.not_eq_true',
        Option.any_eq_false, decide_eq_false_iff_not] at guards
      exact .orphanQueued c n (congrArg (Option.map _) guards.1) guards.2 view
    next => exact .bookkeeping ⟨rfl, rfl⟩ view
  | claimDeletions limit lease =>
    obtain rfl := answered h
    exact .bookkeeping ⟨rfl, rfl⟩ (view_claimDeletions ..)
  | finishDeletion id c n =>
    obtain rfl := silenced h
    exact .finished id c n (view_finishDeletion ..)
  | failDeletion id cause backoff maxAttempts =>
    rcases failDeletion_ok (silent_eq_ok.mp h).1 with view | ⟨c, n, pair, view⟩
    · exact .bookkeeping ⟨rfl, rfl⟩ view
    · exact .abandoned id cause backoff maxAttempts c n pair view
  | purgeReclaimedChunks limit pickChunks pickObjects =>
    simp only [exec, answer_eq_ok, Except.ok.injEq] at h
    obtain ⟨_, effect, rfl⟩ := h
    obtain ⟨chunk, object, orphans, dead, bare, view⟩ := view_purgeReclaimedChunks effect
    exact .purged ⟨rfl, rfl⟩ chunk object orphans dead bare view
  | purgeCompletedMultipartUploads olderThan limit pick =>
    simp only [exec, answer_eq_ok, Except.ok.injEq] at h
    obtain ⟨_, effect, rfl⟩ := h
    obtain ⟨upload, closed, unused, view⟩ := view_purgeCompletedMultipartUploads effect
    exact .sessionsPurged ⟨rfl, rfl⟩ upload closed unused view
  | reclaimExpiredRepairLeases | purgeFinishedRepairJobs | verifyDurabilityCounters
  | reclaimExpiredReconcileLeases =>
    obtain rfl := answered h
    exact .bookkeeping ⟨rfl, rfl⟩ rfl
  | recordRepairPlan | completeReconcile =>
    obtain rfl := silenced h
    exact .bookkeeping ⟨rfl, rfl⟩ rfl
  | claimRepairJob owner lease replicationFactor =>
    simp only [exec, answer_eq_ok, claimRepairJob, bind_eq_ok, pure_eq_ok, Prod.mk.injEq] at h
    obtain ⟨_, ⟨_, -, _, -, -, rfl⟩, rfl⟩ := h
    exact .bookkeeping ⟨rfl, rfl⟩ rfl
  | finishRepairAsNoop jobID reason =>
    simp only [exec, silent_eq_ok, finishRepairAsNoop, bind_eq_ok, pure_eq_ok] at h
    obtain ⟨⟨_, -, rfl⟩, rfl⟩ := h
    exact .bookkeeping ⟨rfl, rfl⟩ rfl
  | failRepair jobID cause backoff maxAttempts =>
    simp only [exec, answer_eq_ok, failRepair, bind_eq_ok, pure_eq_ok, Prod.mk.injEq] at h
    obtain ⟨_, ⟨_, -, _, -, _, -, -, rfl⟩, rfl⟩ := h
    exact .bookkeeping ⟨rfl, rfl⟩ rfl
  | requeueFailedRepairs limit =>
    simp only [exec, answer_eq_ok, requeueFailedRepairs, bind_eq_ok, pure_eq_ok,
      Prod.mk.injEq] at h
    obtain ⟨_, ⟨_, -, -, rfl⟩, rfl⟩ := h
    exact .bookkeeping ⟨rfl, rfl⟩ rfl
  | enqueueReconcile nodeID =>
    simp only [exec, answer_eq_ok, enqueueReconcile, bind_eq_ok, pure_eq_ok,
      Prod.mk.injEq] at h
    obtain ⟨_, ⟨_, -, -, rfl⟩, rfl⟩ := h
    exact .bookkeeping ⟨rfl, rfl⟩ rfl
  | claimReconcileJob owner lease =>
    simp only [exec, answer_eq_ok, claimReconcileJob, bind_eq_ok, pure_eq_ok,
      Prod.mk.injEq] at h
    obtain ⟨_, ⟨_, -, -, rfl⟩, rfl⟩ := h
    exact .bookkeeping ⟨rfl, rfl⟩ rfl
  | failReconcile jobID cause =>
    simp only [exec, silent_eq_ok, failReconcile, bind_eq_ok, pure_eq_ok] at h
    obtain ⟨⟨_, -, rfl⟩, rfl⟩ := h
    exact .bookkeeping ⟨rfl, rfl⟩ rfl

end FlexStore.Metadata
