import FlexStore.Metadata.View
import Mathlib.Data.String.Basic

/-!
# Chunk allocation, commit and layout

`reserveChunk` mints or recovers the chunk of one position, `recordChunkTargets`
records where its copies are about to be written, and `commitChunk` records the
outcome. `chunksWhere` is the read path: one joined row per copy, grouped by chunk.
-/

namespace FlexStore.Metadata

open Relational Transition

variable {db db' : Database} {now : Time} {chunkID : UUID}

/-- Refuses to allocate chunks against an owner that is no longer accepting writes.
For a part only the part's own state is read, not its session's. -/
def assertOwnerWritable (owner : Owner) (db : Database) : Result Unit :=
  match owner with
  | .object id => do
    let row ← lookup (db.objects.find? id) .notFound
    require (row.state = .uploading) .conflict
  | .part id => do
    let row ← lookup (db.parts.find? id) .notFound
    require (row.state = .uploading) .conflict

theorem assertOwnerWritable_ok {owner : Owner} {u : Unit} :
    assertOwnerWritable owner db = .ok u ↔ db.view.writable owner := by
  cases owner <;> simp [assertOwnerWritable, View.writable, Database.view, Option.any_eq_true]

def ChunkOwner.single (owner : ChunkOwner) : Option Owner :=
  match owner.objectID, owner.partID with
  | some id, none => some (.object id)
  | none, some id => some (.part id)
  | _, _ => none

/-- The row of a position that is allocated again. -/
def ChunkRow.reset (sizeBytes : Nat) (c : ChunkRow) : ChunkRow :=
  { c with sizeBytes, state := .pending, committedAt := none }

/-- Mints (or recovers) the stable chunk id for one position in an owner's chunk
sequence. A position already taken keeps its id, its checksum and its replica rows;
only its size and state are reset. -/
def reserveChunk (now : Time) (newID : UUID) (owner : ChunkOwner) (index sizeBytes : Int)
    (db : Database) : Result (UUID × Database) := do
  let owner ← lookup owner.single .conflict
  assertOwnerWritable owner db
  require (0 ≤ index ∧ 0 ≤ sizeBytes) (.constraint .check)
  match db.chunks.rows.find? fun c => c.owner = owner && c.index = index.toNat with
  | some old =>
    pure (old.id, { db with
      chunks := db.chunks.updateWhere (·.id = old.id) (ChunkRow.reset sizeBytes.toNat) })
  | none => do
    let chunks ← lookup (db.chunks.insert?
      { id := newID, owner, index := index.toNat, sizeBytes := sizeBytes.toNat,
        checksum := none, state := .pending, createdAt := now, committedAt := none })
      (.constraint .primaryKey)
    pure (newID, { db with
      chunks
      availableReplicas := fun c => if c = newID then 0 else db.availableReplicas c })

/-- What a successful allocation did: it reset the chunk that already had the position,
or created one. -/
theorem reserveChunk_ok {newID id : UUID} {own : ChunkOwner} {index sizeBytes : Int}
    (h : reserveChunk now newID own index sizeBytes db = .ok (id, db')) :
    ∃ owner, own.single = some owner ∧ db.view.writable owner ∧
      ((∃ old, db.view.chunks id = some old ∧ old.owner = owner ∧ old.index = index.toNat ∧
          db'.view = { db.view with
            chunks := Function.update db.view.chunks id (some (old.reset sizeBytes.toNat)) }) ∨
        (id = newID ∧ db.view.chunks id = none ∧
          (∀ c row, db.view.chunks c = some row → row.owner = owner → row.index ≠ index.toNat) ∧
          db'.view = { db.view with chunks := Function.update db.view.chunks id (some
            { id, owner, index := index.toNat, sizeBytes := sizeBytes.toNat, checksum := none,
              state := .pending, createdAt := now, committedAt := none }) })) := by
  simp only [reserveChunk, bind_eq_ok, lookup_eq_ok, assertOwnerWritable_ok, require_eq_ok] at h
  obtain ⟨owner, single, -, writable, -, -, h⟩ := h
  refine ⟨owner, single, writable, ?_⟩
  split at h
  next old taken =>
    obtain ⟨rfl, rfl⟩ := Prod.mk.inj (pure_eq_ok.mp h)
    have found := Table.find?_of_mem (List.mem_of_find?_eq_some taken)
    obtain ⟨mine, position⟩ : old.owner = owner ∧ old.index = index.toNat := by
      simpa using List.find?_some taken
    exact Or.inl ⟨old, found, mine, position,
      View.ext rfl rfl rfl rfl (Table.find?_updateKey found) rfl⟩
  next free =>
    simp only [bind_eq_ok, lookup_eq_ok, Table.insert?_eq_some, pure_eq_ok, Prod.mk.injEq] at h
    obtain ⟨_, ⟨fresh, rfl⟩, rfl, rfl⟩ := h
    refine Or.inr ⟨rfl, fresh, ?_, View.ext rfl rfl rfl rfl (Table.find?_append_eq _ _ fresh) rfl⟩
    intro c row found mine position
    have absent := List.find?_eq_none.mp free row (Table.mem_of_find? found).1
    simp [mine, position] at absent

/-- The upsert that records one placement target as WRITING. -/
def recordTarget (now : Time) (chunkID : UUID) (db : Database) (nodeID : NodeID) :
    Result Database :=
  db.upsertReplica
    { chunkID, nodeID, state := .writing, createdAt := now, updatedAt := now,
      verifiedAt := none, lastError := none }
    fun old => { old with state := .writing, updatedAt := now }

/-- Pre-records one WRITING replica row per placement target. -/
def recordChunkTargets (now : Time) (chunkID : UUID) (targetNodeIDs : List NodeID)
    (db : Database) : Result Database :=
  targetNodeIDs.foldlM (recordTarget now chunkID) db

/-- A loop of upserts that no foreign key refuses sets the state of the copies on every
listed node. -/
theorem foldlM_upsert_ok {s : ReplicaState} {record : Database → NodeID → Result Database}
    (effect : ∀ db n db', record db n = .ok db' →
      db.view.referenced chunkID n ∧ db'.view = db.view.setReplicas chunkID [n] s)
    {nodes : List NodeID} (h : nodes.foldlM record db = .ok db') :
    (∀ n ∈ nodes, db.view.referenced chunkID n) ∧
      db'.view = db.view.setReplicas chunkID nodes s := by
  induction nodes generalizing db with
  | nil =>
    rw [List.foldlM_nil, pure_eq_ok] at h
    subst h
    simp
  | cons n rest ih =>
    rw [List.foldlM_cons, bind_eq_ok] at h
    obtain ⟨middle, first, remaining⟩ := h
    obtain ⟨present, head⟩ := effect _ _ _ first
    obtain ⟨others, tail⟩ := ih remaining
    rw [head] at others tail
    exact ⟨List.forall_mem_cons.mpr ⟨present, others⟩, by rw [tail, View.setReplicas_cons]⟩

theorem upsertReplica_ok {row : ReplicaRow} {f : ReplicaRow → ReplicaRow}
    {keep : ∀ r, (f r).key = r.key} (h : db.upsertReplica row f keep = .ok db')
    (sets : ∀ r, (f r).state = row.state := by intro _; rfl) :
    db.view.referenced row.chunkID row.nodeID ∧
      db'.view = db.view.setReplicas row.chunkID [row.nodeID] row.state := by
  simp only [Database.upsertReplica, bind_eq_ok, require_eq_ok, pure_eq_ok] at h
  obtain ⟨-, present, rfl⟩ := h
  exact ⟨present, view_putReplica sets⟩

theorem recordTarget_ok (db : Database) (n : NodeID) (db' : Database)
    (h : recordTarget now chunkID db n = .ok db') :
    db.view.referenced chunkID n ∧ db'.view = db.view.setReplicas chunkID [n] .writing :=
  upsertReplica_ok h

theorem recordChunkTargets_ok {targets : List NodeID}
    (h : recordChunkTargets now chunkID targets db = .ok db') :
    (∀ n ∈ targets, db.view.referenced chunkID n) ∧
      db'.view = db.view.setReplicas chunkID targets .writing :=
  foldlM_upsert_ok recordTarget_ok h

/-- The update that records one node's failed write. -/
def markFailed (now : Time) (chunkID : UUID) (db : Database) (nodeID : NodeID) : Database :=
  db.setReplicaState now (fun r => r.chunkID = chunkID && r.nodeID = nodeID) .unavailable

/-- The upsert that records one node's acknowledged write. -/
def markSucceeded (now : Time) (chunkID : UUID) (db : Database) (nodeID : NodeID) :
    Result Database :=
  db.upsertReplica
    { chunkID, nodeID, state := .available, createdAt := now, updatedAt := now,
      verifiedAt := some now, lastError := none }
    fun old => { old with state := .available, updatedAt := now, verifiedAt := some now }

theorem view_foldl_markFailed (now : Time) (chunkID : UUID) (nodes : List NodeID) (db : Database) :
    (nodes.foldl (markFailed now chunkID) db).view = db.view.mapReplicas fun c n s =>
      if c = chunkID ∧ n ∈ nodes then .unavailable else s := by
  induction nodes generalizing db with
  | nil => simp [View.mapReplicas]
  | cons m rest ih =>
    rw [List.foldl_cons, ih, markFailed,
      view_setReplicaState fun c n _ => c = chunkID && n = m]
    refine View.ext rfl rfl rfl rfl rfl (funext₂ fun c n => Slot.ext ?_ rfl)
    simp only [View.mapReplicas, Option.map_map]
    congr 1
    funext s
    by_cases chunk : c = chunkID <;> by_cases head : n = m <;> by_cases tail : n ∈ rest <;>
      simp [chunk, head, tail]

theorem markSucceeded_ok (db : Database) (n : NodeID) (db' : Database)
    (h : markSucceeded now chunkID db n = .ok db') :
    db.view.referenced chunkID n ∧ db'.view = db.view.setReplicas chunkID [n] .available :=
  upsertReplica_ok h

/-- The row of a chunk whose write met the durability policy. -/
def ChunkRow.commit (now : Time) (checksum : Checksum) (sizeBytes : Nat) (c : ChunkRow) :
    ChunkRow :=
  { c with
    state := .committed
    checksum := some checksum
    sizeBytes
    committedAt := some now }

/-- The session whose `updated_at` a committed chunk refreshes: the open one of the part
that owns the chunk. -/
def refreshedBy (db : Database) (owner : Owner) (u : MultipartUploadRow) : Bool :=
  u.state = .inProgress && match owner with
    | .object _ => false
    | .part id => (db.parts.find? id).any (·.uploadID = u.id)

/-- Records the outcome of a chunk write and enforces the durability policy. The
chunk's state and its owner are not looked at. -/
def commitChunk (now : Time) (chunkID : UUID) (checksum : Checksum) (sizeBytes : Int)
    (succeeded failed : List NodeID) (minReplicas : Int) (db : Database) :
    Result (Nat × Database) := do
  let row ← lookup (db.chunks.find? chunkID) .notFound
  let db ← succeeded.foldlM (markSucceeded now chunkID) (failed.foldl (markFailed now chunkID) db)
  let available := db.countAvailable chunkID
  require (minReplicas ≤ available) .durabilityNotMet
  require (0 ≤ sizeBytes) (.constraint .check)
  -- A committed chunk is progress of its upload, so the owner's `updated_at` moves.
  pure (available, { db with
    chunks := db.chunks.updateWhere (·.id = chunkID)
      (ChunkRow.commit now checksum sizeBytes.toNat)
    objects := db.objects.updateWhere (fun o => row.owner = .object o.id && o.state = .uploading)
      fun o => { o with updatedAt := now }
    uploads := db.uploads.updateWhere (refreshedBy db row.owner) fun u =>
      { u with updatedAt := now } })

/-- The copies of a chunk after a write that some nodes acknowledged and others did not.
A node reported both ways counts as acknowledged. -/
def View.acknowledge (v : View) (chunkID : UUID) (succeeded failed : List NodeID) : View :=
  (v.mapReplicas fun c n s => if c = chunkID ∧ n ∈ failed then .unavailable else s).setReplicas
    chunkID succeeded .available

/-- What a successful commit did. -/
theorem commitChunk_ok {checksum : Checksum} {sizeBytes : Int} {succeeded failed : List NodeID}
    {minReplicas : Int} {available : Nat}
    (h : commitChunk now chunkID checksum sizeBytes succeeded failed minReplicas db =
      .ok (available, db')) :
    ∃ row, db.view.chunks chunkID = some row ∧ (∀ n ∈ succeeded, db.view.referenced chunkID n) ∧
      minReplicas ≤ available ∧ available = db'.countAvailable chunkID ∧ 0 ≤ sizeBytes ∧
      ∃ session : MultipartUploadRow → Bool, db'.view =
        { (((db.view.acknowledge chunkID succeeded failed).mapObjects
            (fun o => row.owner = .object o.id && o.state = .uploading)
            fun o => { o with updatedAt := now }).mapUploads session
            fun u => { u with updatedAt := now }) with
          chunks := Function.update db.view.chunks chunkID
            (some (row.commit now checksum sizeBytes.toNat)) } := by
  simp only [commitChunk, bind_eq_ok, lookup_eq_ok, require_eq_ok, pure_eq_ok,
    Prod.mk.injEq] at h
  obtain ⟨row, found, middle, acknowledged, -, enough, -, size, rfl, rfl⟩ := h
  obtain ⟨present, effect⟩ := foldlM_upsert_ok markSucceeded_ok acknowledged
  rw [view_foldl_markFailed] at present effect
  have chunks : middle.view.chunks = db.view.chunks := by rw [effect]; rfl
  have kept : middle.chunks.find? chunkID = some row := (congrFun chunks chunkID).trans found
  refine ⟨row, found, present, enough, rfl, size, refreshedBy middle row.owner, ?_⟩
  rw [View.acknowledge, ← effect, ← chunks]
  exact View.ext rfl Table.find?_updateWhere_eq Table.find?_updateWhere_eq rfl
    (Table.find?_updateKey kept) rfl

/-- One row of the layout query: a chunk and, when the outer join found one, a copy. -/
structure LayoutRow where
  chunk : Chunk
  replica : Option Replica

def scanChunk (row : ChunkRow) : Chunk where
  id := row.id
  index := row.index
  sizeBytes := row.sizeBytes
  checksum := row.checksum
  state := row.state
  committedAt := row.committedAt

def scanReplica (db : Database) (r : ReplicaRow) : Replica where
  chunkID := r.chunkID
  nodeID := r.nodeID
  address := nullString ((db.nodes.find? r.nodeID).map (·.grpcAddress))
  nodeHealth := (db.nodes.find? r.nodeID).map (·.health)
  state := r.state
  updatedAt := r.updatedAt

/-- The copies of a chunk that the layout query joins to it, in node order. -/
def joinedReplicas (db : Database) (availableOnly : Bool) (c : UUID) : List ReplicaRow :=
  (db.replicas.select fun r => r.chunkID = c &&
    (!availableOnly || (r.state = .available &&
      (db.nodes.find? r.nodeID).any (·.health ≠ .dead)))).insertionSort
    fun a b => a.nodeID ≤ b.nodeID

/-- The joined rows of one chunk. The outer join keeps a chunk without any replica row
as a row without a copy, but a filter on the copy's columns then removes that row. -/
def layoutRows (db : Database) (availableOnly : Bool) (row : ChunkRow) : List LayoutRow :=
  if db.replicas.rows.any (·.chunkID = row.id) || availableOnly then
    (joinedReplicas db availableOnly row.id).map fun r =>
      ⟨scanChunk row, some (scanReplica db r)⟩
  else [⟨scanChunk row, none⟩]

/-- The rows of the scan loop, grouped: a row whose chunk differs from the previous
row's opens a new entry, and a row with a copy appends it to the last entry. -/
def groupRows (out : List ChunkWithReplicas) (row : LayoutRow) : List ChunkWithReplicas :=
  let out := if out.getLast?.any (·.chunk.id = row.chunk.id) then out
    else out ++ [⟨row.chunk, []⟩]
  match row.replica with
  | none => out
  | some r => out.dropLast ++ (out.getLast?.map fun cur =>
    { cur with replicas := cur.replicas ++ [r] }).toList

/-- The chunk rows that satisfy `where_`, in index order, each with its copies. -/
def chunksWhere (where_ : ChunkRow → Bool) (availableOnly : Bool) (db : Database) :
    List ChunkWithReplicas :=
  (((db.chunks.select where_).insertionSort fun a b => a.index ≤ b.index).flatMap
    (layoutRows db availableOnly)).foldl groupRows []

/-- An object's committed chunks in index order. -/
def chunksForObject (objectID : UUID) (availableOnly : Bool) (db : Database) :
    List ChunkWithReplicas :=
  chunksWhere (fun c => c.owner = .object objectID && c.state = .committed) availableOnly db

/-- Queues a deletion for every replica of the selected chunks that is not already
DELETING, then marks all their replicas DELETING. -/
def condemnReplicas (now : Time) (chunk : UUID → Bool) (db : Database) : Database :=
  (db.enqueueDeletions now (db.replicas.select fun r => chunk r.chunkID && r.state ≠ .deleting)
    ).setReplicaState now (fun r => chunk r.chunkID) .deleting

/-- Condemning is queueing followed by marking. -/
theorem View.mapReplicas_enqueue (v : View) (chunk : UUID → Bool) :
    (v.enqueue fun c n => (v.slots c n).replica.any fun s => chunk c && s ≠ .deleting).mapReplicas
      (fun c _ s => if chunk c then .deleting else s) = v.condemn chunk := by
  refine View.ext rfl rfl rfl rfl rfl (funext₂ fun c n => ?_)
  cases selected : chunk c <;> cases state : (v.slots c n).replica <;>
    simp [View.mapReplicas, View.enqueue, View.condemn, Slot.condemn, Slot.ext_iff, selected,
      state]

theorem view_condemnReplicas (now : Time) (chunk : UUID → Bool) (db : Database) :
    (condemnReplicas now chunk db).view = db.view.condemn chunk := by
  rw [condemnReplicas, view_setReplicaState fun c _ _ => chunk c,
    view_enqueueDeletions fun c _ s => chunk c && s ≠ .deleting]
  exact View.mapReplicas_enqueue db.view chunk

/-- Pushes one deletion job per replica of an object's chunks. -/
def enqueueObjectChunkDeletions (now : Time) (db : Database) (objectID : UUID) : Database :=
  condemnReplicas now (fun c => db.ownedBy c (.object objectID)) db

theorem view_enqueueObjectChunkDeletions (now : Time) (db : Database) (objectID : UUID) :
    (enqueueObjectChunkDeletions now db objectID).view =
      db.view.condemnOwned (· = .object objectID) :=
  view_condemnReplicas _ _ _

/-- The chunk belongs to a part of the given session. -/
def inUpload (db : Database) (uploadID : UUID) (c : UUID) : Bool :=
  (db.chunks.find? c).any fun row => match row.owner with
    | .object _ => false
    | .part id => (db.parts.find? id).any (·.uploadID = uploadID)

/-- The multipart equivalent, for every part of a session. -/
def enqueuePartChunkDeletions (now : Time) (uploadID : UUID) (db : Database) : Database :=
  condemnReplicas now (inUpload db uploadID) db

theorem view_enqueuePartChunkDeletions (now : Time) (uploadID : UUID) (db : Database) :
    (enqueuePartChunkDeletions now uploadID db).view =
      db.view.condemnOwned (db.view.partWith (·.uploadID = uploadID)) := by
  rw [enqueuePartChunkDeletions, view_condemnReplicas]
  congr 1

/-- Marks an object's chunks ORPHANED and queues every known replica for deletion. -/
def orphanObjectChunks (now : Time) (objectID : UUID) (db : Database) : Database :=
  enqueueObjectChunkDeletions now { db with
    chunks := db.chunks.updateWhere (·.owner = .object objectID) ChunkRow.orphan } objectID

theorem view_orphanObjectChunks (now : Time) (objectID : UUID) (db : Database) :
    (orphanObjectChunks now objectID db).view = db.view.reclaim (· = .object objectID) := by
  rw [orphanObjectChunks, view_enqueueObjectChunkDeletions, view_updateChunks]
  refine View.ext rfl rfl rfl rfl rfl (funext₂ fun c n => ?_)
  cases h : db.view.chunks c with
  | none => simp [View.condemnOwned, View.condemn, View.ownedBy, View.mapChunks, View.reclaim, h]
  | some row =>
    by_cases mine : row.owner = .object objectID <;>
      simp [View.condemnOwned, View.condemn, View.ownedBy, View.mapChunks, View.reclaim, h, mine,
        ChunkRow.orphan]

end FlexStore.Metadata
