import FlexStore.Digest.Sha256
import FlexStore.Metadata.Objects

/-!
# Multipart uploads

A session collects parts, each with a chunk sequence of its own. Restarting a part
orphans the chunks of the attempts before it. Completion moves no bytes: the
committed chunks of the COMPLETE parts are re-parented to a new object and
renumbered into one sequence, and whatever is left on the session's parts becomes
garbage in the same transaction.
-/

namespace FlexStore.Metadata

open Relational Transition

variable {db db' : Database} {now : Time} {uploadID : UUID}

def scanUpload (row : MultipartUploadRow) : MultipartUpload where
  id := row.id
  bucket := row.bucket
  key := row.key
  state := row.state
  chunkSize := row.chunkSize
  contentType := row.contentType
  objectID := row.objectID
  createdAt := row.createdAt
  updatedAt := row.updatedAt

def scanPart (row : PartRow) : Part where
  id := row.id
  uploadID := row.uploadID
  partNumber := row.partNumber
  state := row.state
  sizeBytes := row.sizeBytes
  chunkCount := row.chunkCount
  etag := nullString row.etag
  createdAt := row.createdAt

def createMultipartUpload (now : Time) (id : UUID) (bucket key contentType : String)
    (chunkSize : Int) (db : Database) : Result (MultipartUpload × Database) := do
  require (0 < chunkSize) (.constraint .check)
  let row : MultipartUploadRow :=
    { id, bucket, key, state := .inProgress, chunkSize := chunkSize.toNat, contentType,
      objectID := none, createdAt := now, updatedAt := now, completedAt := none }
  let uploads ← lookup (db.uploads.insert? row) (.constraint .primaryKey)
  pure (scanUpload row, { db with uploads })

theorem createMultipartUpload_ok {id : UUID} {bucket key contentType : String} {chunkSize : Int}
    {upload : MultipartUpload}
    (h : createMultipartUpload now id bucket key contentType chunkSize db = .ok (upload, db')) :
    db.view.uploads id = none ∧ ∃ row, row.state = .inProgress ∧ db'.view = { db.view with
      uploads := Function.update db.view.uploads id (some row) } := by
  simp only [createMultipartUpload, bind_eq_ok, require_eq_ok, lookup_eq_ok,
    Table.insert?_eq_some, pure_eq_ok, Prod.mk.injEq] at h
  obtain ⟨-, -, _, ⟨fresh, rfl⟩, -, rfl⟩ := h
  exact ⟨fresh, _, rfl, View.ext rfl rfl (Table.find?_append_eq _ _ fresh) rfl rfl rfl⟩

/-- Marks one part's chunks ORPHANED and queues their replicas for deletion. -/
def orphanPartChunks (now : Time) (db : Database) (partID : UUID) : Database :=
  let db := condemnReplicas now (fun c => db.ownedBy c (.part partID)) db
  { db with
    chunks := db.chunks.updateWhere (·.owner = .part partID) ChunkRow.orphan
      ChunkRow.id_orphan }

theorem view_orphanPartChunks (now : Time) (db : Database) (partID : UUID) :
    (orphanPartChunks now db partID).view = db.view.reclaim (· = .part partID) := by
  rw [orphanPartChunks, view_updateChunks, view_condemnReplicas]
  rfl

def Owner.partIn (ids : List UUID) : Owner → Bool
  | .object _ => false
  | .part id => id ∈ ids

theorem view_foldl_orphanPartChunks (now : Time) (ids : List UUID) (db : Database) :
    (ids.foldl (orphanPartChunks now) db).view = db.view.reclaim (Owner.partIn ids) := by
  induction ids generalizing db with
  | nil => exact (View.reclaim_false _ fun o => by cases o <;> rfl).symm
  | cons id rest ih =>
    rw [List.foldl_cons, ih, view_orphanPartChunks, View.reclaim_reclaim]
    refine View.reclaim_congr _ fun o => ?_
    cases o <;> simp [Owner.partIn]

/-- The earlier attempts at a part number that have not failed. -/
def priorAttempt (uploadID : UUID) (partNumber : Int) (p : PartRow) : Bool :=
  p.uploadID = uploadID && p.partNumber = partNumber && p.state ≠ .failed

@[reducible] def PartRow.fail (now : Time) (p : PartRow) : PartRow :=
  { p with state := .failed, updatedAt := now }

def touchSession (now : Time) (uploadID : UUID) (db : Database) : Database :=
  { db with
    uploads := db.uploads.updateWhere (·.id = uploadID) (fun u => { u with updatedAt := now })
      (MultipartUploadRow.id_touch now) }

/-- Fails the earlier attempts at a part number and reclaims their chunks. -/
def supersedePriorParts (now : Time) (uploadID : UUID) (partNumber : Int) (db : Database) :
    Database :=
  let prior := (db.parts.select (priorAttempt uploadID partNumber)).map (·.id)
  let db := { db with
    parts := db.parts.updateWhere (priorAttempt uploadID partNumber) (PartRow.fail now) }
  prior.foldl (orphanPartChunks now) db

/-- The earlier attempts at a part number are failed and reclaimed. -/
def View.restartPart (v : View) (now : Time) (uploadID : UUID) (partNumber : Int) : View :=
  (v.mapParts (priorAttempt uploadID partNumber) (PartRow.fail now)).reclaim
    (v.partWith (priorAttempt uploadID partNumber))

theorem view_supersedePriorParts (now : Time) (uploadID : UUID) (partNumber : Int)
    (db : Database) : (supersedePriorParts now uploadID partNumber db).view =
      db.view.restartPart now uploadID partNumber := by
  rw [supersedePriorParts, view_foldl_orphanPartChunks, view_updateParts]
  refine View.reclaim_congr _ fun o => ?_
  cases o with
  | object => rfl
  | part id =>
    rw [Owner.partIn, View.partWith, Bool.eq_iff_iff, decide_eq_true_eq]
    exact Table.mem_map_key_select

def newPart (now : Time) (id uploadID : UUID) (partNumber : Int) : PartRow where
  id
  uploadID
  partNumber
  state := .uploading
  sizeBytes := 0
  chunkCount := 0
  etag := none
  createdAt := now
  updatedAt := now
  completedAt := none

def beginPart (now : Time) (id uploadID : UUID) (partNumber : Int) (db : Database) :
    Result (Part × Database) := do
  require (1 ≤ partNumber ∧ partNumber ≤ 10000) .conflict
  let session ← lookup (db.uploads.find? uploadID) .notFound
  require (session.state = .inProgress) .conflict
  let db := supersedePriorParts now uploadID partNumber db
  let row := newPart now id uploadID partNumber
  let parts ← lookup (db.parts.insert? row) (.constraint .primaryKey)
  pure (scanPart row, touchSession now uploadID { db with parts })

/-- What a successful start of a part did. -/
theorem beginPart_ok {id : UUID} {partNumber : Int} {part : Part}
    (h : beginPart now id uploadID partNumber db = .ok (part, db')) :
    (∃ session, db.view.uploads uploadID = some session ∧ session.state = .inProgress) ∧
      db.view.parts id = none ∧ db'.view =
        { ((db.view.restartPart now uploadID partNumber).mapUploads (·.id = uploadID)
            fun u => { u with updatedAt := now }) with
          parts := Function.update (db.view.restartPart now uploadID partNumber).parts id
            (some (newPart now id uploadID partNumber)) } := by
  simp only [beginPart, bind_eq_ok, require_eq_ok, lookup_eq_ok, Table.insert?_eq_some,
    pure_eq_ok, Prod.mk.injEq] at h
  obtain ⟨-, -, session, found, -, progress, _, ⟨fresh, rfl⟩, -, rfl⟩ := h
  have effect := view_supersedePriorParts now uploadID partNumber db
  refine ⟨⟨session, found, progress⟩, ?_, ?_⟩
  · have absent : (db.view.restartPart now uploadID partNumber).parts id = none :=
      (congrFun (congrArg View.parts effect) id).symm.trans fresh
    simpa [View.restartPart, View.reclaim, View.condemnOwned, View.condemn, View.mapParts]
      using absent
  · rw [touchSession, view_updateUploads, ← effect]
    exact View.ext rfl rfl rfl (Table.find?_append_eq _ _ fresh) rfl rfl

@[reducible] def PartRow.finish (now : Time) (sizeBytes chunkCount : Nat) (etag : String)
    (p : PartRow) : PartRow :=
  { p with
    state := .complete
    sizeBytes
    chunkCount
    etag := some etag
    completedAt := some now
    updatedAt := now }

/-- A COMPLETE part of the session with the given number, other than the given one. -/
def rivalPart (row : PartRow) (p : PartRow) : Bool :=
  p.uploadID = row.uploadID && p.partNumber = row.partNumber && p.state = .complete &&
    p.id ≠ row.id

/-- Finalises a part after all of its chunks are committed. -/
def completePart (now : Time) (partID : UUID) (sizeBytes chunkCount : Int) (etag : String)
    (db : Database) : Result Database := do
  let row ← lookup (db.parts.find? partID) .notFound
  require (row.state = .uploading) .conflict
  require (allCommitted (.part partID) chunkCount db) .durabilityNotMet
  require (0 ≤ sizeBytes ∧ 0 ≤ chunkCount) (.constraint .check)
  require (¬db.parts.rows.any (rivalPart row)) (.constraint .multipartPartsComplete)
  pure { db with
    parts := db.parts.updateWhere (·.id = partID)
      (PartRow.finish now sizeBytes.toNat chunkCount.toNat etag) }

theorem completePart_ok {partID : UUID} {sizeBytes chunkCount : Int} {etag : String}
    (h : completePart now partID sizeBytes chunkCount etag db = .ok db') :
    ∃ row, db.view.parts partID = some row ∧ row.state = .uploading ∧
      allCommitted (.part partID) chunkCount db ∧ 0 ≤ sizeBytes ∧ 0 ≤ chunkCount ∧
      db'.view = { db.view with
        parts := Function.update db.view.parts partID
          (some (row.finish now sizeBytes.toNat chunkCount.toNat etag)) } := by
  simp only [completePart, bind_eq_ok, require_eq_ok, lookup_eq_ok, pure_eq_ok] at h
  obtain ⟨row, found, -, uploading, -, committed, -, ⟨size, count⟩, -, -, rfl⟩ := h
  exact ⟨row, found, uploading, committed, size, count,
    View.ext rfl rfl rfl (Table.find?_updateKey found) rfl rfl⟩

/-- The unique index on the COMPLETE parts of a session allows one for each part number. -/
theorem completePart_alone {partID : UUID} {sizeBytes chunkCount : Int} {etag : String}
    {row other : PartRow} (h : completePart now partID sizeBytes chunkCount etag db = .ok db')
    (found : db.parts.find? partID = some row) (member : other ∈ db.parts.rows) :
    ¬rivalPart row other := by
  simp only [completePart, bind_eq_ok, require_eq_ok, lookup_eq_ok] at h
  obtain ⟨row', found', -, -, -, -, -, -, -, alone, -⟩ := h
  obtain rfl : row' = row := Option.some.inj (found'.symm.trans found)
  intro rival
  exact alone (List.any_eq_true.mpr ⟨other, member, rival⟩)

/-- The COMPLETE parts of a session in part-number order. -/
def completeParts (uploadID : UUID) (db : Database) : List PartRow :=
  (db.parts.select fun p => p.uploadID = uploadID && p.state = .complete).insertionSort
    fun a b => a.partNumber ≤ b.partNumber

/-- `strings.Trim` with a cutset of one double quote. -/
def trimQuotes (s : String) : String :=
  let quote := fun c : Char => c = '"'
  String.ofList (((s.toList.dropWhile quote).reverse.dropWhile quote).reverse)

/-- A manifest entry names the part at its position and, if it gives one, its ETag. -/
def CompletedPartRef.agrees (want : CompletedPartRef) (got : PartRow) : Bool :=
  want.partNumber = got.partNumber &&
    (want.etag = "" || trimQuotes want.etag = nullString got.etag)

/-- The client's list matches the complete parts exactly. -/
def manifestMatches (expected : List CompletedPartRef) (parts : List PartRow) : Bool :=
  expected.length = parts.length &&
    (expected.zip parts).all fun (want, got) => want.agrees got

/-- The sum of the declared sizes in 64-bit arithmetic. -/
def totalSize (parts : List PartRow) : Int :=
  parts.foldl (fun total p => (total + p.sizeBytes).bmod (2 ^ 64)) 0

/-- The sum of the declared chunk counts in 32-bit arithmetic. -/
def totalChunks (parts : List PartRow) : Int :=
  parts.foldl (fun total p => (total + p.chunkCount).bmod (2 ^ 32)) 0

/-- An assembled object's ETag: the digest of its parts' ETags and their number. -/
def multipartETag (partETags : List String) : String :=
  Digest.hex (Digest.sha256 (partETags.flatMap fun e => (trimQuotes e).toUTF8.toList)) ++ "-" ++
    toString partETags.length

def partOf (db : Database) (c : ChunkRow) : Option PartRow :=
  match c.owner with
  | .object _ => none
  | .part id => db.parts.find? id

/-- The COMMITTED chunks of a session's COMPLETE parts, ordered by part number and then
by their index in the part. The position in this list is the new index. -/
def assembledChunks (uploadID : UUID) (db : Database) : List ChunkRow :=
  let number := fun c => ((partOf db c).map (·.partNumber)).getD 0
  (db.chunks.select fun c => c.state = .committed &&
    (partOf db c).any fun p => p.uploadID = uploadID && p.state = .complete).insertionSort
    fun a b => number a < number b ∨ number a = number b ∧ a.index ≤ b.index

/-- A chunk row that has become the object's chunk at its position in the list. -/
@[reducible] def ChunkRow.reparent (objectID : UUID) (ids : List UUID) (c : ChunkRow) : ChunkRow :=
  { c with owner := .object objectID, index := ids.idxOf c.id }

/-- Re-parents the listed chunks to an object, numbering them by position. -/
def reparentChunks (objectID : UUID) (ids : List UUID) (db : Database) : Database :=
  { db with
    chunks := db.chunks.updateWhere (·.id ∈ ids) (ChunkRow.reparent objectID ids) }

/-- Marks every chunk that is still owned by a part of the session ORPHANED. -/
def orphanUploadChunks (uploadID : UUID) (db : Database) : Database :=
  { db with
    chunks := db.chunks.updateWhere (fun c => (partOf db c).any (·.uploadID = uploadID))
      ChunkRow.orphan ChunkRow.id_orphan }

/-- Condemns and orphans whatever the session's parts still own. -/
def reclaimUpload (now : Time) (uploadID : UUID) (db : Database) : Database :=
  orphanUploadChunks uploadID (enqueuePartChunkDeletions now uploadID db)

theorem view_reclaimUpload (now : Time) (uploadID : UUID) (db : Database) :
    (reclaimUpload now uploadID db).view =
      db.view.reclaim (db.view.partWith (·.uploadID = uploadID)) := by
  rw [reclaimUpload, orphanUploadChunks, view_updateChunks, view_enqueuePartChunkDeletions]
  refine View.ext rfl rfl rfl rfl (funext fun c => ?_) rfl
  refine congrFun (congrArg Option.map (funext fun row => ?_)) _
  cases owner : row.owner with
  | object => simp [partOf, owner, View.partWith]
  | part => simp only [partOf, owner, View.partWith]; rfl

@[reducible] def MultipartUploadRow.close (now : Time) (objectID : UUID)
    (u : MultipartUploadRow) : MultipartUploadRow :=
  { u with
    state := .completed
    objectID := some objectID
    completedAt := some now
    updatedAt := now }

/-- `UPDATE multipart_uploads SET state = 'COMPLETED', ... WHERE id = $1`. -/
def closeUpload (now : Time) (uploadID objectID : UUID) (db : Database) : Database :=
  { db with
    uploads := db.uploads.updateWhere (·.id = uploadID) (MultipartUploadRow.close now objectID) }

/-- The parts that a completion may assemble: at least one, none still uploading when
the client names none, and exactly the named ones when it does. -/
def acceptParts (uploadID : UUID) (expected : List CompletedPartRef) (db : Database) :
    Result (List PartRow) := do
  let parts := completeParts uploadID db
  require (expected = [] →
    ¬db.parts.rows.any fun p => p.uploadID = uploadID && p.state = .uploading) .conflict
  require (parts ≠ []) .conflict
  require (expected = [] ∨ manifestMatches expected parts) .conflict
  pure parts

theorem acceptParts_ok {expected : List CompletedPartRef} {parts : List PartRow}
    (h : acceptParts uploadID expected db = .ok parts) : parts = completeParts uploadID db := by
  simp only [acceptParts, bind_eq_ok, require_eq_ok, pure_eq_ok] at h
  obtain ⟨-, -, -, -, -, -, rfl⟩ := h
  rfl

/-- Assembles the parts of a session into a single object. -/
def completeMultipartUpload (now : Time) (objectID uploadID : UUID)
    (expected : List CompletedPartRef) (db : Database) : Result (Object × Database) := do
  let session ← lookup (db.uploads.find? uploadID) .notFound
  require (session.state = .inProgress) .conflict
  let parts ← acceptParts uploadID expected db
  let row := newObject now objectID session.bucket session.key session.contentType
    session.chunkSize db
  let objects ← lookup (db.objects.insert? row) (.constraint .primaryKey)
  let ids := (assembledChunks uploadID db).map (·.id)
  let db := reparentChunks objectID ids { db with objects }
  require ((chunksOf (.object objectID) db).map (·.index)).Nodup (.constraint .chunksOwnerIndex)
  require ((ids.length : Int) = totalChunks parts) .conflict
  let (obj, db) ← promoteObject now objectID (totalSize parts) (totalChunks parts)
    (multipartETag (parts.map fun p => nullString p.etag))
    (supersedeCurrentVersion now session.bucket session.key objectID db)
  pure (obj, closeUpload now uploadID objectID (reclaimUpload now uploadID db))

/-- The lookups right after the new object has taken over the assembled chunks. -/
def View.assemble (v : View) (object : ObjectRow) (ids : List UUID) : View :=
  { v.mapChunks (·.id ∈ ids) (ChunkRow.reparent object.id ids) with
    objects := Function.update v.objects object.id (some object) }

/-- What a successful assembly did. -/
theorem completeMultipartUpload_ok {objectID : UUID} {expected : List CompletedPartRef}
    {obj : Object} (h : completeMultipartUpload now objectID uploadID expected db = .ok (obj, db'))
    :
    ∃ (session : MultipartUploadRow) (row : ObjectRow) (size count : Int) (etag : String)
        (middle : View),
      db.view.uploads uploadID = some session ∧ session.state = .inProgress ∧
      db.view.objects objectID = none ∧
      row = newObject now objectID session.bucket session.key session.contentType
        session.chunkSize db ∧
      size = totalSize (completeParts uploadID db) ∧
      count = totalChunks (completeParts uploadID db) ∧ 0 ≤ size ∧ 0 ≤ count ∧
      ((assembledChunks uploadID db).length : Int) = count ∧
      obj = scanObject (row.finish now size.toNat count.toNat etag) ∧
      middle = ((db.view.assemble row ((assembledChunks uploadID db).map (·.id))).supersede now
        session.bucket session.key objectID).promote objectID
          (row.finish now size.toNat count.toNat etag) ∧
      db'.view = { middle.reclaim (middle.partWith (·.uploadID = uploadID)) with
        uploads := Function.update db.view.uploads uploadID
          (some (session.close now objectID)) } := by
  simp only [completeMultipartUpload, bind_eq_ok, require_eq_ok, lookup_eq_ok,
    Table.insert?_eq_some, pure_eq_ok, Prod.exists, Prod.mk.injEq, List.length_map] at h
  obtain ⟨session, found, -, progress, parts, accepted, _, ⟨fresh, rfl⟩, -, -, -, counted,
    obj, promoted, h, rfl, rfl⟩ := h
  obtain rfl := acceptParts_ok accepted
  obtain ⟨row, found', size, count, rfl, effect⟩ := promoteObject_ok h
  have assembled : (reparentChunks objectID ((assembledChunks uploadID db).map (·.id)) { db with
      objects := db.objects.append (newObject now objectID session.bucket session.key
        session.contentType session.chunkSize db) fresh }).view =
      db.view.assemble (newObject now objectID session.bucket session.key session.contentType
        session.chunkSize db) ((assembledChunks uploadID db).map (·.id)) := by
    rw [reparentChunks, view_updateChunks]
    exact View.ext rfl (Table.find?_append_eq _ _ fresh) rfl rfl rfl rfl
  rw [view_supersedeCurrentVersion, assembled] at found' effect
  have kept : row = newObject now objectID session.bucket session.key session.contentType
      session.chunkSize db := by
    refine Option.some.inj (found'.symm.trans ?_)
    simp [View.supersede, View.condemnOwned, View.condemn, View.mapObjects, View.assemble,
      supersededBy, newObject]
  have uploads : (reclaimUpload now uploadID promoted).view.uploads = db.view.uploads := by
    rw [view_reclaimUpload, effect]
    rfl
  have open_ : (reclaimUpload now uploadID promoted).uploads.find? uploadID = some session :=
    (congrFun uploads uploadID).trans found
  refine ⟨session, row, _, _, _, promoted.view, found, progress, fresh, kept, rfl, rfl, size, count,
    counted, rfl, ?_, ?_⟩
  · rw [effect, kept]
  · rw [← view_reclaimUpload now, ← uploads]
    exact View.ext rfl rfl (Table.find?_updateKey open_) rfl rfl rfl

def MultipartUploadRow.isOpen (u : MultipartUploadRow) : Bool :=
  u.state = .inProgress || u.state = .completing

@[reducible] def MultipartUploadRow.abort (now : Time) (u : MultipartUploadRow) :
    MultipartUploadRow :=
  { u with state := .aborted, updatedAt := now }

/-- Cancels a session that is open and queues every part's chunks for reclamation. A
session that is already closed is left alone. -/
def abortSession (now : Time) (db : Database) (uploadID : UUID) : Database :=
  if (db.uploads.find? uploadID).any (·.isOpen) then
    let db := { db with
      uploads := db.uploads.updateWhere (fun u => u.id = uploadID && u.isOpen)
        (MultipartUploadRow.abort now) }
    let db := { db with
      parts := db.parts.updateWhere (fun p => p.uploadID = uploadID && p.state ≠ .failed)
        (PartRow.fail now) }
    reclaimUpload now uploadID db
  else db

def abortMultipartUpload (now : Time) (uploadID : UUID) (db : Database) : Result Database := do
  let _ ← lookup (db.uploads.find? uploadID) .notFound
  pure (abortSession now db uploadID)

/-- Aborts sessions that have gone quiet, oldest first. Every id comes from the table,
so no abort of the loop misses its session. -/
def reapStaleMultipartUploads (now : Time) (olderThan : Duration) (limit : Nat) (db : Database) :
    Nat × Database :=
  let ids := (((db.uploads.select fun u =>
      u.state = .inProgress && u.updatedAt < now - olderThan).insertionSort
    fun a b => a.updatedAt ≤ b.updatedAt).take limit).map (·.id)
  (ids.length, ids.foldl (abortSession now) db)

namespace View

/-- The session is one of the selected ones and is open. -/
def closes (v : View) (selected : UUID → Bool) (uploadID : UUID) : Bool :=
  selected uploadID && (v.uploads uploadID).any (·.isOpen)

/-- The selected open sessions are aborted, their parts failed and their chunks
reclaimed. -/
def abortSessions (v : View) (now : Time) (selected : UUID → Bool) : View :=
  { v.reclaim (v.partWith fun p => v.closes selected p.uploadID) with
    uploads := fun id => (v.uploads id).map fun u =>
      if selected id ∧ u.isOpen then u.abort now else u
    parts := fun id => (v.parts id).map fun p =>
      if v.closes selected p.uploadID ∧ p.state ≠ .failed then p.fail now else p }

theorem abortSessions_parts (v : View) (now : Time) (selected : UUID → Bool) (id : UUID) :
    (v.abortSessions now selected).parts id = (v.parts id).map fun p =>
      if v.closes selected p.uploadID ∧ p.state ≠ .failed then p.fail now else p := rfl

theorem abortSessions_of_not_closes (v : View) (now : Time) {selected : UUID → Bool}
    (closed : ∀ id, v.closes selected id = false) : v.abortSessions now selected = v := by
  rw [abortSessions, reclaim_false _ fun o => by cases o <;> simp [partWith, closed]]
  refine View.ext rfl rfl (funext fun id => ?_) (by simp [closed]) rfl rfl
  change (v.uploads id).map _ = v.uploads id
  cases found : v.uploads id with
  | none => rfl
  | some u =>
    have still : ¬(selected id ∧ u.isOpen) := by simpa [closes, found] using closed id
    rw [Option.map_some, if_neg still]

theorem closes_or (v : View) (now : Time) (p q : UUID → Bool) (id : UUID) :
    v.closes (fun id => p id || q id) id =
      (v.closes p id || (v.abortSessions now p).closes q id) := by
  cases found : v.uploads id with
  | none => simp [closes, abortSessions, found]
  | some u =>
    cases first : p id <;> cases second : q id <;> cases state : u.isOpen <;>
      simp [closes, abortSessions, found, first, second, state]

theorem abortSessions_abortSessions (v : View) (now : Time) (p q : UUID → Bool) :
    (v.abortSessions now p).abortSessions now q = v.abortSessions now fun id => p id || q id := by
  have owners : ∀ o, (v.partWith (fun x => v.closes p x.uploadID) o ||
      (v.abortSessions now p).partWith
        (fun x => (v.abortSessions now p).closes q x.uploadID) o) =
      v.partWith (fun x => v.closes (fun id => p id || q id) x.uploadID) o := by
    intro o
    cases o with
    | object => rfl
    | part k =>
      cases found : v.parts k with
      | none => simp [partWith, abortSessions, found]
      | some x =>
        have same : (if v.closes p x.uploadID ∧ x.state ≠ .failed then x.fail now
            else x).uploadID = x.uploadID := by split <;> rfl
        simp only [partWith, abortSessions_parts, found, Option.map_some, Option.any_some, same,
          closes_or v now p q]
  have reclaimed := (reclaim_reclaim v (v.partWith fun x => v.closes p x.uploadID)
    ((v.abortSessions now p).partWith
      fun x => (v.abortSessions now p).closes q x.uploadID)).trans (reclaim_congr v owners)
  refine View.ext rfl rfl (funext fun k => ?_) (funext fun k => ?_) ?_ ?_
  · cases found : v.uploads k with
    | none => simp [abortSessions, found]
    | some u =>
      cases first : p k <;> cases second : q k <;> cases state : u.isOpen <;>
        simp [abortSessions, found, first, second, state]
  · cases found : v.parts k with
    | none => simp [abortSessions, found]
    | some x =>
      simp only [abortSessions_parts, found, Option.map_some, closes_or v now p q]
      cases first : v.closes p x.uploadID <;>
        cases second : (v.abortSessions now p).closes q x.uploadID <;>
        by_cases failed : x.state = .failed <;> simp [second, failed]
  · have := congrArg View.chunks reclaimed
    exact this
  · have := congrArg View.slots reclaimed
    exact this

end View

theorem view_abortSession (now : Time) (db : Database) (uploadID : UUID) :
    (abortSession now db uploadID).view = db.view.abortSessions now (· = uploadID) := by
  unfold abortSession
  split
  next open_ =>
    have closes : ∀ id, db.view.closes (· = uploadID) id = decide (id = uploadID) := by
      intro id
      by_cases same : id = uploadID
      · subst same
        simpa [View.closes, Database.view] using open_
      · simp [View.closes, same]
    rw [view_reclaimUpload, view_updateParts, view_updateUploads]
    have owners : ∀ o, ((db.view.mapUploads (fun u => u.id = uploadID && u.isOpen)
        (MultipartUploadRow.abort now)).mapParts
          (fun p => p.uploadID = uploadID && p.state ≠ .failed) (PartRow.fail now)).partWith
            (·.uploadID = uploadID) o =
        db.view.partWith (fun p => db.view.closes (· = uploadID) p.uploadID) o := by
      intro o
      cases o with
      | object => rfl
      | part id =>
        cases found : db.view.parts id with
        | none => simp [View.partWith, View.mapParts, View.mapUploads, found]
        | some p =>
          have same : (if p.uploadID = uploadID ∧ p.state ≠ .failed then p.fail now
              else p).uploadID = p.uploadID := by split <;> rfl
          simp [View.partWith, View.mapParts, View.mapUploads, found, closes, same]
    rw [View.reclaim_congr _ owners]
    refine View.ext rfl rfl (funext fun id => ?_) (funext fun id => ?_) rfl rfl
    · cases found : db.view.uploads id with
      | none => simp [View.reclaim, View.condemnOwned, View.condemn, View.mapParts,
          View.mapUploads, View.abortSessions, found]
      | some u =>
        have mine : u.id = id := (Table.mem_of_find? found).2
        simp [View.reclaim, View.condemnOwned, View.condemn, View.mapParts, View.mapUploads,
          View.abortSessions, found, mine]
    · simp [View.reclaim, View.condemnOwned, View.condemn, View.mapParts, View.mapUploads,
        View.abortSessions, closes]
  next closed =>
    refine (View.abortSessions_of_not_closes _ now fun id => ?_).symm
    by_cases same : id = uploadID
    · subst same
      simpa [View.closes, Database.view] using closed
    · simp [View.closes, same]

theorem abortMultipartUpload_ok (h : abortMultipartUpload now uploadID db = .ok db') :
    db'.view = db.view.abortSessions now (· = uploadID) := by
  simp only [abortMultipartUpload, bind_eq_ok, lookup_eq_ok, pure_eq_ok] at h
  obtain ⟨-, -, rfl⟩ := h
  exact view_abortSession now db uploadID

theorem view_foldl_abortSession (now : Time) (ids : List UUID) (db : Database) :
    (ids.foldl (abortSession now) db).view = db.view.abortSessions now (· ∈ ids) := by
  induction ids generalizing db with
  | nil => exact (View.abortSessions_of_not_closes _ now (by simp [View.closes])).symm
  | cons id rest ih =>
    rw [List.foldl_cons, ih, view_abortSession, View.abortSessions_abortSessions]
    congr 1
    funext k
    simp

theorem view_reapStaleMultipartUploads {olderThan : Duration} {limit n : Nat}
    (h : reapStaleMultipartUploads now olderThan limit db = (n, db')) :
    ∃ ids : List UUID, db'.view = db.view.abortSessions now (· ∈ ids) := by
  obtain ⟨-, rfl⟩ := Prod.mk.inj h
  exact ⟨_, view_foldl_abortSession now _ db⟩

end FlexStore.Metadata
