import FlexStore.Metadata.Chunks

/-!
# Objects

An upload creates an UPLOADING version and leaves the current COMPLETE version
alone. Completion supersedes the current version and promotes the new one in one
transaction, under the unique index that allows one COMPLETE row for each key.
-/

namespace FlexStore.Metadata

open Relational Transition

variable {db db' : Database} {now : Time} {bucket key : String} {obj : Object}

/-- `SELECT COALESCE(MAX(version), 0) + 1`. -/
def nextVersion (bucket key : String) (db : Database) : Nat :=
  ((db.objects.select fun o => o.bucket = bucket && o.key = key).map (·.version)).foldl max 0 + 1

/-- A fresh UPLOADING version with the column defaults. -/
def newObject (now : Time) (id : UUID) (bucket key contentType : String) (chunkSize : Nat)
    (db : Database) : ObjectRow where
  id
  bucket
  key
  version := nextVersion bucket key db
  state := .uploading
  sizeBytes := 0
  chunkSize
  chunkCount := 0
  etag := none
  contentType
  failureReason := none
  createdAt := now
  updatedAt := now
  completedAt := none
  deletedAt := none

def beginUpload (now : Time) (id : UUID) (bucket key contentType : String) (chunkSize : Int)
    (db : Database) : Result (Object × Database) := do
  require (0 < chunkSize) (.constraint .check)
  let row := newObject now id bucket key contentType chunkSize.toNat db
  let objects ← lookup (db.objects.insert? row) (.constraint .primaryKey)
  pure (scanObject row, { db with objects })

theorem beginUpload_ok {id : UUID} {contentType : String} {chunkSize : Int}
    (h : beginUpload now id bucket key contentType chunkSize db = .ok (obj, db')) :
    db.view.objects id = none ∧ db'.view = { db.view with
      objects := Function.update db.view.objects id
        (some (newObject now id bucket key contentType chunkSize.toNat db)) } := by
  simp only [beginUpload, bind_eq_ok, require_eq_ok, lookup_eq_ok, Table.insert?_eq_some,
    pure_eq_ok, Prod.mk.injEq] at h
  obtain ⟨-, -, _, ⟨fresh, rfl⟩, -, rfl⟩ := h
  exact ⟨fresh, View.ext rfl (Table.find?_append_eq _ _ fresh) rfl rfl rfl rfl⟩

/-- Refreshes `updated_at` of an upload that is still open. -/
def touchUpload (now : Time) (objectID : UUID) (db : Database) : Database :=
  { db with
    objects := db.objects.updateWhere (fun o => o.id = objectID && o.state = .uploading)
      (fun o => { o with updatedAt := now }) (ObjectRow.id_touch now) }

theorem view_touchUpload (now : Time) (objectID : UUID) (db : Database) :
    (touchUpload now objectID db).view = db.view.mapObjects
      (fun o => o.id = objectID && o.state = .uploading) fun o => { o with updatedAt := now } :=
  view_updateObjects

/-- The current version of a key, if it is not the given one. -/
def supersededBy (bucket key : String) (newID : UUID) (o : ObjectRow) : Bool :=
  o.bucket = bucket && o.key = key && o.state = .complete && o.id ≠ newID

@[reducible] def ObjectRow.retire (now : Time) (o : ObjectRow) : ObjectRow :=
  { o with state := .deleting, deletedAt := some now, updatedAt := now }

def Owner.objectIn (ids : List UUID) : Owner → Bool
  | .object id => id ∈ ids
  | .part _ => false

/-- The version that is current for a key is retired and its copies are condemned, unless
it is the given one. -/
def View.supersede (v : View) (now : Time) (bucket key : String) (newID : UUID) : View :=
  (v.mapObjects (supersededBy bucket key newID) (ObjectRow.retire now)).condemnOwned
    (v.objectWith (supersededBy bucket key newID))

/-- Retires whatever COMPLETE version of the key exists, excluding `newID`, and queues
its replicas for reclamation. -/
def supersedeCurrentVersion (now : Time) (bucket key : String) (newID : UUID) (db : Database) :
    Database :=
  let superseded := (db.objects.select (supersededBy bucket key newID)).map (·.id)
  let db := { db with
    objects := db.objects.updateWhere (supersededBy bucket key newID) (ObjectRow.retire now) }
  superseded.foldl (enqueueObjectChunkDeletions now) db

theorem view_foldl_enqueueObjectChunkDeletions (now : Time) (ids : List UUID) (db : Database) :
    (ids.foldl (enqueueObjectChunkDeletions now) db).view =
      db.view.condemnOwned (Owner.objectIn ids) := by
  induction ids generalizing db with
  | nil => exact (View.condemnOwned_false _ fun o => by cases o <;> rfl).symm
  | cons id rest ih =>
    rw [List.foldl_cons, ih, view_enqueueObjectChunkDeletions, View.condemnOwned_condemnOwned]
    refine View.condemnOwned_congr _ fun o => ?_
    cases o <;> simp [Owner.objectIn]

theorem view_supersedeCurrentVersion (now : Time) (bucket key : String) (newID : UUID)
    (db : Database) :
    (supersedeCurrentVersion now bucket key newID db).view =
      db.view.supersede now bucket key newID := by
  rw [supersedeCurrentVersion, view_foldl_enqueueObjectChunkDeletions, view_updateObjects]
  refine View.condemnOwned_congr _ fun o => ?_
  cases o with
  | object id =>
    rw [Owner.objectIn, View.objectWith, Bool.eq_iff_iff, decide_eq_true_eq]
    exact Table.mem_map_key_select
  | part => rfl

/-- Superseding does not touch the version it makes room for. -/
theorem supersede_self {id : UUID} {row : ObjectRow} (found : db.view.objects id = some row) :
    (db.view.supersede now bucket key id).objects id = some row := by
  have mine : row.id = id := (Table.mem_of_find? found).2
  simp [View.supersede, View.condemnOwned, View.condemn, View.mapObjects, found, supersededBy, mine]

@[reducible] def ObjectRow.finish (now : Time) (sizeBytes chunkCount : Nat) (etag : String)
    (o : ObjectRow) : ObjectRow :=
  { o with
    state := .complete
    sizeBytes
    chunkCount
    etag := some etag
    completedAt := some now
    updatedAt := now }

def View.promote (v : View) (id : UUID) (row : ObjectRow) : View :=
  { v with objects := Function.update v.objects id (some row) }

/-- `UPDATE objects SET state = 'COMPLETE', ... WHERE id = $1 RETURNING ...`, under the
unique index on the COMPLETE version of a key. -/
def promoteObject (now : Time) (id : UUID) (sizeBytes chunkCount : Int) (etag : String)
    (db : Database) : Result (Object × Database) := do
  let row ← lookup (db.objects.find? id) .noRows
  require (0 ≤ sizeBytes ∧ 0 ≤ chunkCount) (.constraint .check)
  require (¬db.objects.rows.any (supersededBy row.bucket row.key id))
    (.constraint .objectsCurrentVersion)
  let finish := ObjectRow.finish now sizeBytes.toNat chunkCount.toNat etag
  pure (scanObject (finish row),
    { db with objects := db.objects.updateWhere (·.id = id) finish })

theorem promoteObject_ok {id : UUID} {sizeBytes chunkCount : Int} {etag : String}
    (h : promoteObject now id sizeBytes chunkCount etag db = .ok (obj, db')) :
    ∃ row, db.view.objects id = some row ∧ 0 ≤ sizeBytes ∧ 0 ≤ chunkCount ∧
      obj = scanObject (row.finish now sizeBytes.toNat chunkCount.toNat etag) ∧
      db'.view = db.view.promote id (row.finish now sizeBytes.toNat chunkCount.toNat etag) := by
  simp only [promoteObject, bind_eq_ok, require_eq_ok, lookup_eq_ok, pure_eq_ok,
    Prod.mk.injEq] at h
  obtain ⟨row, found, -, ⟨size, count⟩, -, -, rfl, rfl⟩ := h
  exact ⟨row, found, size, count, rfl,
    View.ext rfl (Table.find?_updateKey found) rfl rfl rfl rfl⟩

def chunksOf (owner : Owner) (db : Database) : List ChunkRow := db.chunks.select (·.owner = owner)

/-- The declared number of chunks is the number of chunk rows of the owner, and all of
them are COMMITTED. -/
def allCommitted (owner : Owner) (chunkCount : Int) (db : Database) : Prop :=
  ((chunksOf owner db).length : Int) = chunkCount ∧
    (((chunksOf owner db).filter (·.state = .committed)).length : Int) = chunkCount

instance (owner : Owner) (chunkCount : Int) (db : Database) :
    Decidable (allCommitted owner chunkCount db) :=
  inferInstanceAs (Decidable (_ ∧ _))

/-- Validates durability, then promotes this version to COMPLETE and demotes any
previously current version to DELETING. -/
def completeUpload (now : Time) (objectID : UUID) (sizeBytes chunkCount : Int) (etag : String)
    (db : Database) : Result (Object × Database) := do
  let row ← lookup (db.objects.find? objectID) .notFound
  require (row.state = .uploading) .conflict
  require (allCommitted (.object objectID) chunkCount db) .durabilityNotMet
  promoteObject now objectID sizeBytes chunkCount etag
    (supersedeCurrentVersion now row.bucket row.key objectID db)

/-- What a successful completion did. -/
theorem completeUpload_ok {objectID : UUID} {sizeBytes chunkCount : Int} {etag : String}
    (h : completeUpload now objectID sizeBytes chunkCount etag db = .ok (obj, db')) :
    ∃ row, db.view.objects objectID = some row ∧ row.state = .uploading ∧
      allCommitted (.object objectID) chunkCount db ∧ 0 ≤ sizeBytes ∧ 0 ≤ chunkCount ∧
      obj = scanObject (row.finish now sizeBytes.toNat chunkCount.toNat etag) ∧
      db'.view = (db.view.supersede now row.bucket row.key objectID).promote objectID
        (row.finish now sizeBytes.toNat chunkCount.toNat etag) := by
  simp only [completeUpload, bind_eq_ok, require_eq_ok, lookup_eq_ok] at h
  obtain ⟨row, found, -, uploading, -, committed, h⟩ := h
  obtain ⟨promoted, found', size, count, rfl, effect⟩ := promoteObject_ok h
  rw [view_supersedeCurrentVersion] at found' effect
  obtain rfl := Option.some.inj ((supersede_self found).symm.trans found')
  exact ⟨row, found, uploading, committed, size, count, rfl, effect⟩

@[reducible] def ObjectRow.fail (now : Time) (reason : String) (o : ObjectRow) : ObjectRow :=
  { o with state := .failed, failureReason := some reason, updatedAt := now }

/-- Marks an in-flight upload FAILED and queues its chunks for reclamation. An upload
that is no longer open is left alone. -/
def abortUpload (now : Time) (objectID : UUID) (reason : String) (db : Database) :
    Result Database := do
  let reason ← truncate reason 500
  if (db.objects.find? objectID).any (·.state = .uploading) then
    pure (orphanObjectChunks now objectID { db with
      objects := db.objects.updateWhere (fun o => o.id = objectID && o.state = .uploading)
        (ObjectRow.fail now reason) })
  else pure db

theorem abortUpload_ok {objectID : UUID} {reason : String}
    (h : abortUpload now objectID reason db = .ok db') :
    db' = db ∨ ∃ text, (db.view.objects objectID).any (·.state = .uploading) ∧
      db'.view = (db.view.mapObjects (fun o => o.id = objectID && o.state = .uploading)
        (ObjectRow.fail now text)).reclaim (· = .object objectID) := by
  simp only [abortUpload, bind_eq_ok] at h
  obtain ⟨text, -, h⟩ := h
  split at h
  next uploading =>
    rw [← pure_eq_ok.mp h, view_orphanObjectChunks, view_updateObjects]
    exact Or.inr ⟨text, uploading, rfl⟩
  next => exact Or.inl (pure_eq_ok.mp h).symm

def currentVersion (bucket key : String) (o : ObjectRow) : Bool :=
  o.bucket = bucket && o.key = key && o.state = .complete

/-- Moves the current version to DELETING and queues replica removal. -/
def deleteObject (now : Time) (bucket key : String) (db : Database) :
    Option UUID × Database :=
  match (db.objects.select (currentVersion bucket key)).head? with
  | none => (none, db)
  | some row =>
    let db := { db with
      objects := db.objects.updateWhere (currentVersion bucket key) (ObjectRow.retire now) }
    (some row.id, enqueueObjectChunkDeletions now db row.id)

theorem view_deleteObject {id : Option UUID} (h : deleteObject now bucket key db = (id, db')) :
    (id = none ∧ db' = db ∧
        ∀ c row, db.view.objects c = some row → ¬currentVersion bucket key row) ∨
      ∃ row, id = some row.id ∧ db.view.objects row.id = some row ∧ currentVersion bucket key row ∧
        db'.view = (db.view.mapObjects (currentVersion bucket key)
          (ObjectRow.retire now)).condemnOwned (· = .object row.id) := by
  unfold deleteObject at h
  split at h
  next none_ =>
    obtain ⟨rfl, rfl⟩ := Prod.mk.inj h
    refine Or.inl ⟨rfl, rfl, fun c row found => ?_⟩
    have all := List.filter_eq_nil_iff.mp (List.head?_eq_none_iff.mp none_)
    exact all row (Table.mem_of_find? found).1
  next row head =>
    obtain ⟨rfl, rfl⟩ := Prod.mk.inj h
    obtain ⟨member, current⟩ := List.mem_filter.mp (List.mem_of_head? head)
    refine Or.inr ⟨row, rfl, Table.find?_of_mem member, current, ?_⟩
    rw [view_enqueueObjectChunkDeletions, view_updateObjects]

/-- Metadata for the current COMPLETE version. -/
def headObject (bucket key : String) (db : Database) : Result Object := do
  let row ← lookup (db.objects.select (currentVersion bucket key)).head? .notFound
  pure (scanObject row)

/-- The layout half of a read: the second query and the consistency check on what it
returned, for an object that the first query found. -/
def getLayout (obj : Object) (db : Database) : Result (Object × List ChunkWithReplicas) := do
  let chunks := chunksForObject obj.id true db
  require (chunks.length = obj.chunkCount) .conflict
  pure (obj, chunks)

/-- The current COMPLETE version with its full chunk layout, when nothing runs between
its two queries. -/
def getObject (bucket key : String) (db : Database) :
    Result (Object × List ChunkWithReplicas) := do
  let obj ← headObject bucket key db
  getLayout obj db

def reapUpload (now : Time) (db : Database) (id : UUID) : Database :=
  orphanObjectChunks now id { db with
    objects := db.objects.updateWhere (·.id = id) (ObjectRow.fail now "upload timed out") }

/-- Fails the uploads that have not progressed within the timeout, oldest first. -/
def reapStaleUploads (now : Time) (olderThan : Duration) (limit : Nat) (db : Database) :
    Nat × Database :=
  let ids := (((db.objects.select fun o =>
      o.state = .uploading && o.updatedAt < now - olderThan).insertionSort
    fun a b => a.updatedAt ≤ b.updatedAt).take limit).map (·.id)
  (ids.length, ids.foldl (reapUpload now) db)

theorem view_foldl_reapUpload (now : Time) (ids : List UUID) (db : Database) :
    (ids.foldl (reapUpload now) db).view = (db.view.mapObjects (fun o => o.id ∈ ids)
      (ObjectRow.fail now "upload timed out")).reclaim (Owner.objectIn ids) := by
  induction ids generalizing db with
  | nil =>
    rw [View.reclaim_false _ fun o => by cases o <;> rfl]
    simp [View.mapObjects]
  | cons id rest ih =>
    rw [List.foldl_cons, ih, reapUpload, view_orphanObjectChunks, view_updateObjects]
    have swap : ∀ (v : View) p q f, (v.reclaim p).mapObjects q f = (v.mapObjects q f).reclaim p :=
      fun _ _ _ _ => rfl
    rw [swap, View.reclaim_reclaim,
      View.mapObjects_mapObjects _ (r := fun o => o.id ∈ id :: rest)]
    · refine View.reclaim_congr _ fun o => ?_
      cases o <;> simp [Owner.objectIn]
    · simp
    · simp
    · simp

theorem view_reapStaleUploads {olderThan : Duration} {limit n : Nat}
    (h : reapStaleUploads now olderThan limit db = (n, db')) :
    ∃ ids : List UUID, (∀ id ∈ ids, (db.view.objects id).any (·.state = .uploading)) ∧
      db'.view = (db.view.mapObjects (fun o => o.id ∈ ids)
        (ObjectRow.fail now "upload timed out")).reclaim (Owner.objectIn ids) := by
  obtain ⟨-, rfl⟩ := Prod.mk.inj h
  refine ⟨_, fun id member => ?_, view_foldl_reapUpload now _ db⟩
  obtain ⟨o, taken, rfl⟩ := List.mem_map.mp member
  have selected := (List.mem_insertionSort _).mp (List.mem_of_mem_take taken)
  obtain ⟨inTable, stale⟩ := List.mem_filter.mp selected
  have found : db.view.objects o.id = some o := Table.find?_of_mem inTable
  rw [Bool.and_eq_true] at stale
  simpa [found] using stale.1

end FlexStore.Metadata
