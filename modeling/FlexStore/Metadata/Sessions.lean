import FlexStore.Metadata.Statements
import FlexStore.Relational.Critical

/-!
# Uploads and sessions, statement by statement

The transactions of `BeginUpload`, `BeginPart`, `CompletePart` and `CompleteMultipartUpload`
as programs of statements. The catalog that their scans go through has to list the objects
and parts that they create from the start: until a row is inserted, its version is `none` and
a scan passes it over.

That the programs do to the lookups what the store operations do, if they run alone, is in
`Sequential`.
-/

namespace FlexStore.Metadata.Concurrent

open Relational Transition

/-- `UPDATE multipart_uploads SET ... WHERE p`. -/
def updateUpload (p : MultipartUploadRow → Bool) (f : MultipartUploadRow → MultipartUploadRow) :
    Change
  | .upload _, some u => if p u then .write (some (f u)) else .leave
  | _, _ => .leave

/-- `UPDATE multipart_parts SET ... WHERE p`. -/
def updatePart (p : PartRow → Bool) (f : PartRow → PartRow) : Change
  | .part _, some row => if p row then .write (some (f row)) else .leave
  | _, _ => .leave

/-- `UPDATE chunks SET ... WHERE p`. -/
def updateChunk (p : ChunkRow → Bool) (f : ChunkRow → ChunkRow) : Change
  | .chunk _, some c => if p c then .write (some (f c)) else .leave
  | _, _ => .leave

/-- `INSERT INTO objects`. -/
def insertObject (row : ObjectRow) : Change
  | .object _, none => .write (some row)
  | .object _, some _ => .refuse (.constraint .primaryKey)
  | _, _ => .leave

/-- `INSERT INTO multipart_parts`. -/
def insertPart (row : PartRow) : Change
  | .part _, none => .write (some row)
  | .part _, some _ => .refuse (.constraint .primaryKey)
  | _, _ => .leave

variable (cat : Catalog)

section Versions

/-- `SELECT COALESCE(MAX(version), 0) + 1`. -/
def nextVersion (bucket key : String) (rows : Rows) : Nat :=
  (((cat.objects.filterMap fun id => rows (.object id)).filter fun o =>
    o.bucket = bucket && o.key = key).map (·.version)).foldl max 0 + 1

/-- A fresh UPLOADING version with the column defaults. -/
def newVersion (now : Time) (id : UUID) (bucket key contentType : String) (chunkSize : Nat)
    (version : Nat) : ObjectRow where
  id
  bucket
  key
  version
  state := .uploading
  sizeBytes := 0
  chunkSize
  chunkCount := 0
  etag := none
  contentType
  failureReason := none
  createdAt := now
  updatedAt := now
  completedAt := none
  deletedAt := none

/-- The arguments of `BeginUpload`, with the new id and the time of the transaction. -/
structure UploadStart where
  now : Time
  objectID : UUID
  bucket : String
  key : String
  contentType : String
  chunkSize : Int

/-- Scans the row that an insertion returns. -/
def scanReturned : List ((k : RowKey) × k.Version) → Program Object
  | ⟨.object _, some row⟩ :: _ => .done (scanObject row)
  | _ => .fail .noRows

def beginUpload (r : UploadStart) : Program Object :=
  .select .computeNextVersion fun rows =>
  .update .insertObject (fun _ => [.object r.objectID])
    (fun _ k old => if 0 < r.chunkSize then
        insertObject (newVersion r.now r.objectID r.bucket r.key r.contentType r.chunkSize.toNat
          (nextVersion cat r.bucket r.key rows)) k old
      else .refuse (.constraint .check)) scanReturned

end Versions

section Parts

/-- The ids in what a statement on `multipart_parts` returns. -/
def returnedPartIDs (touched : List ((k : RowKey) × k.Version)) : List UUID :=
  touched.filterMap fun row => match row.1 with
    | .part id => some id
    | _ => none

def ofPart (partID : UUID) (rows : Rows) (c : UUID) : Bool :=
  (rows (.chunk c)).any (·.owner = .part partID)

/-- Marks one part's chunks ORPHANED and queues their replicas for deletion. -/
def orphanPartChunks (partID : UUID) : Program Unit := do
  condemnCopies cat (ofPart partID)
  .update .orphanChunks (fun rows => (cat.chunks.filter (ofPart partID rows)).map .chunk)
    (fun _ => updateChunk (·.owner = .part partID) ChunkRow.orphan) fun _ =>
  .done ()

/-- The arguments of `BeginPart`, with the new id and the time of the transaction. -/
structure PartStart where
  now : Time
  partID : UUID
  uploadID : UUID
  partNumber : Int

/-- The part of `BeginPart` after the prior attempts have been dealt with. -/
def addPart (r : PartStart) : Program Part :=
  .update .insertPart (fun _ => [.part r.partID])
    (fun _ => insertPart (newPart r.now r.partID r.uploadID r.partNumber)) fun _ =>
  .update .touchSession
    (fun rows => if (rows (.upload r.uploadID)).isSome then [.upload r.uploadID] else [])
    (fun _ => updateUpload (fun _ => true) fun u => { u with updatedAt := r.now }) fun _ =>
  .done (scanPart (newPart r.now r.partID r.uploadID r.partNumber))

/-- The earlier attempts at a part number that a statement finds. -/
def priorIDs (r : PartStart) (rows : Rows) : List UUID :=
  cat.parts.filter fun id => (rows (.part id)).any (priorAttempt r.uploadID r.partNumber)

/-- The part of `BeginPart` after it has locked the session. -/
def restartPart (r : PartStart) : Program Part :=
  .update .supersedePart (fun rows => (priorIDs cat r rows).map .part)
    (fun _ => updatePart (priorAttempt r.uploadID r.partNumber) (PartRow.fail r.now))
    fun touched => do
  forM (returnedPartIDs touched) (orphanPartChunks cat)
  addPart r

/-- Starts (or restarts) a part upload. The session is locked FOR SHARE. -/
def beginPart (r : PartStart) : Program Part :=
  if 1 ≤ r.partNumber ∧ r.partNumber ≤ 10000 then
    .lock .shareUpload (.upload r.uploadID) fun
      | none => .fail .notFound
      | some session => if session.state = .inProgress then restartPart cat r else .fail .conflict
  else .fail .conflict

/-- The arguments of `CompletePart`, with the time of the transaction. -/
structure PartCompletion where
  now : Time
  partID : UUID
  sizeBytes : Int
  chunkCount : Int
  etag : String

/-- The part of `CompletePart` after it has counted the chunks. -/
def finishPart (r : PartCompletion) : Program Unit :=
  .update .completePart
    (fun rows => if (rows (.part r.partID)).isSome then [.part r.partID] else [])
    (fun _ k row => if 0 ≤ r.sizeBytes ∧ 0 ≤ r.chunkCount then
        updatePart (fun _ => true)
          (PartRow.finish r.now r.sizeBytes.toNat r.chunkCount.toNat r.etag) k row
      else .refuse (.constraint .check)) fun _ =>
  .done ()

/-- Finalises a part after all of its chunks are committed. -/
def completePart (r : PartCompletion) : Program Unit :=
  .lock .lockPart (.part r.partID) fun
    | none => .fail .notFound
    | some row =>
      if row.state = .uploading then
        .select .countPartChunks fun rows =>
          if allCommitted cat (.part r.partID) r.chunkCount rows then finishPart r
          else .fail .durabilityNotMet
      else .fail .conflict

end Parts

section Assembly

def completeParts (uploadID : UUID) (rows : Rows) : List PartRow :=
  ((cat.partRows rows).filter fun p => p.uploadID = uploadID && p.state = .complete).insertionSort
    fun a b => a.partNumber ≤ b.partNumber

def partOf (rows : Rows) (c : ChunkRow) : Option PartRow :=
  match c.owner with
  | .object _ => none
  | .part id => rows (.part id)

/-- The COMMITTED chunks of a session's COMPLETE parts, ordered by part number and then by
their index in the part. -/
def assembledChunks (uploadID : UUID) (rows : Rows) : List ChunkRow :=
  let number := fun c => ((partOf rows c).map (·.partNumber)).getD 0
  ((cat.chunkRows rows).filter fun c => c.state = .committed &&
    (partOf rows c).any fun p => p.uploadID = uploadID && p.state = .complete).insertionSort
    fun a b => number a < number b ∨ number a = number b ∧ a.index ≤ b.index

def ofUpload (uploadID : UUID) (rows : Rows) (c : UUID) : Bool :=
  (rows (.chunk c)).any fun row => (partOf rows row).any (·.uploadID = uploadID)

/-- The arguments of `CompleteMultipartUpload`, with the new id and the time of the
transaction. -/
structure AssemblyRequest where
  now : Time
  objectID : UUID
  uploadID : UUID
  expected : List CompletedPartRef

/-- Condemns and orphans whatever the session's parts still own, then closes the session. -/
def closeSession (r : AssemblyRequest) : Program Unit := do
  condemnCopies cat (ofUpload r.uploadID)
  .update .orphanChunks (fun rows => (cat.chunks.filter (ofUpload r.uploadID rows)).map .chunk)
    (fun rows => updateChunk (fun c => (partOf rows c).any (·.uploadID = r.uploadID))
      ChunkRow.orphan) fun _ =>
  .update .markCompleted
    (fun rows => if (rows (.upload r.uploadID)).isSome then [.upload r.uploadID] else [])
    (fun _ => updateUpload (fun _ => true) (MultipartUploadRow.close r.now r.objectID)) fun _ =>
  .done ()

/-- The part of the assembly in which the new object becomes the current version. -/
def publish (r : AssemblyRequest) (session : MultipartUploadRow) (parts : List PartRow) :
    Program Object := do
  supersedeCurrentVersion cat r.now session.bucket session.key r.objectID
  let obj ← promoteObject r.now r.objectID (totalSize parts) (totalChunks parts)
    (multipartETag (parts.map fun p => nullString p.etag))
  closeSession cat r
  pure obj

/-- Re-parents and renumbers the chunks in one statement, and compares their number with what
the parts declare. -/
def reparentChunks (r : AssemblyRequest) (session : MultipartUploadRow) (parts : List PartRow) :
    Program Object :=
  .update .reparentChunks
    (fun rows => (assembledChunks cat r.uploadID rows).map fun c => .chunk c.id)
    (fun rows => updateChunk (fun _ => true)
      (ChunkRow.reparent r.objectID ((assembledChunks cat r.uploadID rows).map (·.id))))
    fun touched =>
  if (touched.length : Int) = totalChunks parts then publish cat r session parts
  else .fail .conflict

/-- The part of the assembly after the parts have been accepted. -/
def assemble (r : AssemblyRequest) (session : MultipartUploadRow) (parts : List PartRow) :
    Program Object :=
  .select .computeVersion fun rows =>
  .update .createObject (fun _ => [.object r.objectID])
    (fun _ => insertObject (newVersion r.now r.objectID session.bucket session.key
      session.contentType session.chunkSize (nextVersion cat session.bucket session.key rows)))
    fun _ =>
  reparentChunks cat r session parts

/-- At least one part is COMPLETE, and if the client names its parts it names these. -/
def acceptParts (r : AssemblyRequest) (session : MultipartUploadRow) (parts : List PartRow) :
    Program Object :=
  if parts ≠ [] ∧ (r.expected = [] ∨ manifestMatches r.expected parts) then
    assemble cat r session parts
  else .fail .conflict

/-- The part of the assembly after it has locked the session. Without a manifest no part may
be in flight. The parts that it lists are returned with the object. -/
def listParts (r : AssemblyRequest) (session : MultipartUploadRow) :
    Program (Object × List PartRow) :=
  .select .loadParts fun rows =>
  let parts := completeParts cat r.uploadID rows
  let accept : Program (Object × List PartRow) := do
    let obj ← acceptParts cat r session parts
    pure (obj, parts)
  if r.expected = [] then
    .select .countInFlightParts fun rows =>
      if (cat.partRows rows).any fun p => p.uploadID = r.uploadID && p.state = .uploading then
        .fail .conflict
      else accept
  else accept

/-- Assembles the parts of a session into a single object. -/
def completeMultipartUpload (r : AssemblyRequest) : Program (Object × List PartRow) :=
  .lock .lockUpload (.upload r.uploadID) fun
    | none => .fail .notFound
    | some session => if session.state = .inProgress then listParts cat r session
      else .fail .conflict

end Assembly

section Writes

/-! What the statements write, for any relation between the old and the new version. -/

variable {cat} {K : (k : RowKey) → k.Version → k.Version → Prop} {k : RowKey} {old v : k.Version}

theorem updateObject_writes {p : ObjectRow → Bool} {f : ObjectRow → ObjectRow}
    (related : ∀ id o, p o → K (.object id) (some o) (some (f o)))
    (h : updateObject p f k old = .write v) : K k old v := by
  unfold updateObject at h
  split at h
  next id o =>
    split at h
    next selected =>
      cases h
      exact related id o selected
    next => cases h
  next => cases h

theorem updateUpload_writes {p : MultipartUploadRow → Bool}
    {f : MultipartUploadRow → MultipartUploadRow}
    (related : ∀ id u, p u → K (.upload id) (some u) (some (f u)))
    (h : updateUpload p f k old = .write v) : K k old v := by
  unfold updateUpload at h
  split at h
  next id u =>
    split at h
    next selected =>
      cases h
      exact related id u selected
    next => cases h
  next => cases h

theorem updateChunk_writes {p : ChunkRow → Bool} {f : ChunkRow → ChunkRow}
    (related : ∀ id c, p c → K (.chunk id) (some c) (some (f c)))
    (h : updateChunk p f k old = .write v) : K k old v := by
  unfold updateChunk at h
  split at h
  next id c =>
    split at h
    next selected =>
      cases h
      exact related id c selected
    next => cases h
  next => cases h

theorem writes_promoteObject {now : Time} {id : UUID} {sizeBytes chunkCount : Int} {etag : String}
    (finish : ∀ id o, K (.object id) (some o)
      (some (o.finish now sizeBytes.toNat chunkCount.toNat etag))) :
    (promoteObject now id sizeBytes chunkCount etag).Writes K := by
  refine ⟨fun _ k old v h => ?_, fun touched => ?_⟩
  · split at h
    · exact updateObject_writes (fun id o _ => finish id o) h
    · cases h
  · dsimp only
    split <;> trivial

variable (jobs : ∀ c n old new, K (.job c n) old new)
  (copies : ∀ c n old new, K (.replica c n) old new)

include jobs copies

theorem writes_condemnCopies (mine : Rows → UUID → Bool) : (condemnCopies cat mine).Writes K := by
  refine ⟨fun _ k old v h => ?_, fun _ => ⟨fun _ k old v h => ?_, fun _ => trivial⟩⟩
  · cases k with
    | job c n => exact jobs c n old v
    | _ => cases h
  · cases k with
    | replica c n => exact copies c n old v
    | _ => cases h

theorem writes_supersedeCurrentVersion {now : Time} {bucket key : String} {newID : UUID}
    (retire : ∀ id o, K (.object id) (some o) (some (o.retire now))) :
    (supersedeCurrentVersion cat now bucket key newID).Writes K :=
  ⟨fun _ _ _ _ h => updateObject_writes (fun id o _ => retire id o) h, fun _ =>
    Txn.writes_forM (fun _ => writes_condemnCopies jobs copies _) _⟩

/-- The session's parts keep their chunks, which become ORPHANED. -/
theorem writes_closeSession {r : AssemblyRequest}
    (orphan : ∀ id c, (∀ o, c.owner ≠ .object o) → K (.chunk id) (some c) (some c.orphan))
    (close : ∀ id u, K (.upload id) (some u) (some (u.close r.now r.objectID))) :
    (closeSession cat r).Writes K := by
  refine Txn.writes_bind (writes_condemnCopies jobs copies _) fun _ =>
    ⟨fun rows _ _ _ h => updateChunk_writes (fun id c selected => orphan id c fun o owner => ?_) h,
      fun _ => ⟨fun _ _ _ _ h => updateUpload_writes (fun id u _ => close id u) h,
        fun _ => trivial⟩⟩
  simp [partOf, owner] at selected

end Writes

end FlexStore.Metadata.Concurrent
