import FlexStore.Relational.Table

/-!
# Domain types and rows of the metadata database

The state enumerations are those of the `CHECK` constraints. A row type carries
its table's own constraints where a type can: sizes, counts and indices that the
schema restricts to non-negative values are natural numbers, and a chunk's owner
is a sum, so a chunk owned by both an object and a part, or by neither, cannot be
written down.

`UUID` values are compared and ordered only, a checksum is the 256-bit value that
its 64 lowercase hexadecimal digits spell, and times are a count of clock ticks.
-/

namespace FlexStore.Metadata

abbrev UUID := Nat
abbrev NodeID := String
abbrev Time := Int
abbrev Duration := Int
abbrev Checksum := BitVec 256

/-- The health of a storage node, as the `storage_nodes` table spells it. -/
inductive Health where
  | unknown
  | healthy
  | suspect
  | dead
  deriving DecidableEq, Repr

inductive ObjectState where
  | uploading
  | complete
  | deleting
  | failed
  deriving DecidableEq, Repr

inductive ChunkState where
  | pending
  | committed
  | orphaned
  deriving DecidableEq, Repr

/-- A single copy's lifecycle on a single node. Only `available` counts towards
durability. -/
inductive ReplicaState where
  | writing
  | available
  | unavailable
  | deleting
  | corrupt
  | stale
  deriving DecidableEq, Repr

/-- The lifecycle shared by repair jobs and node reconciliations. -/
inductive JobState where
  | pending
  | running
  | succeeded
  | failed
  deriving DecidableEq, Repr

inductive MultipartState where
  | inProgress
  | completing
  | completed
  | aborted
  deriving DecidableEq, Repr

inductive PartState where
  | uploading
  | complete
  | failed
  deriving DecidableEq, Repr

/-- What a node reports at registration and on each heartbeat. -/
structure NodeStats where
  totalBytes : Int := 0
  usedBytes : Int := 0
  availableBytes : Int := 0
  chunkCount : Int := 0
  activeRequests : Int := 0
  deriving DecidableEq, Repr

/-- The `CHECK` constraints of `storage_nodes` on the reported numbers. -/
def NodeStats.valid (s : NodeStats) : Bool :=
  0 ≤ s.totalBytes && 0 ≤ s.usedBytes && 0 ≤ s.availableBytes && 0 ≤ s.chunkCount &&
    0 ≤ s.activeRequests

structure NodeRow where
  id : NodeID
  grpcAddress : String
  health : Health
  stats : NodeStats
  lastHeartbeatAt : Option Time
  registeredAt : Time
  updatedAt : Time

structure ObjectRow where
  id : UUID
  bucket : String
  key : String
  version : Nat
  state : ObjectState
  sizeBytes : Nat
  chunkSize : Nat
  chunkCount : Nat
  etag : Option String
  contentType : String
  failureReason : Option String
  createdAt : Time
  updatedAt : Time
  completedAt : Option Time
  deletedAt : Option Time

theorem ObjectRow.id_touch (now : Time) (o : ObjectRow) : { o with updatedAt := now }.id = o.id :=
  rfl

structure MultipartUploadRow where
  id : UUID
  bucket : String
  key : String
  state : MultipartState
  chunkSize : Nat
  contentType : String
  objectID : Option UUID
  createdAt : Time
  updatedAt : Time
  completedAt : Option Time

theorem MultipartUploadRow.id_touch (now : Time) (u : MultipartUploadRow) :
    { u with updatedAt := now }.id = u.id :=
  rfl

structure PartRow where
  id : UUID
  uploadID : UUID
  partNumber : Int
  state : PartState
  sizeBytes : Nat
  chunkCount : Nat
  etag : Option String
  createdAt : Time
  updatedAt : Time
  completedAt : Option Time

/-- What a chunk row belongs to. The constraint `chunks_single_owner` is this type. -/
inductive Owner where
  | object (id : UUID)
  | part (id : UUID)
  deriving DecidableEq, Repr

/-- The owner argument of an allocation, where exactly one field should be set. -/
structure ChunkOwner where
  objectID : Option UUID
  partID : Option UUID
  deriving DecidableEq, Repr

structure ChunkRow where
  id : UUID
  owner : Owner
  index : Nat
  sizeBytes : Nat
  checksum : Option Checksum
  state : ChunkState
  createdAt : Time
  committedAt : Option Time

structure ReplicaRow where
  chunkID : UUID
  nodeID : NodeID
  state : ReplicaState
  createdAt : Time
  updatedAt : Time
  verifiedAt : Option Time
  lastError : Option String

structure DeletionRow where
  id : Nat
  chunkID : UUID
  nodeID : NodeID
  attempts : Nat
  lastError : Option String
  createdAt : Time
  nextAttemptAt : Time

structure RepairJobRow where
  id : Nat
  chunkID : UUID
  state : JobState
  sourceNodeID : Option NodeID
  targetNodeID : Option NodeID
  attempts : Nat
  lastError : Option String
  owner : Option String
  leaseExpiresAt : Option Time
  nextAttemptAt : Time
  createdAt : Time
  updatedAt : Time
  finishedAt : Option Time

/-- What a completed reconciliation found. -/
structure ReconcileResult where
  chunksSeen : Nat := 0
  orphansFound : Nat := 0
  phantomsFound : Nat := 0
  verified : Nat := 0
  corruptFound : Nat := 0
  deriving DecidableEq, Repr

structure ReconciliationRow where
  id : Nat
  nodeID : NodeID
  state : JobState
  result : ReconcileResult
  lastError : Option String
  owner : Option String
  leaseExpiresAt : Option Time
  createdAt : Time
  updatedAt : Time
  finishedAt : Option Time

def ReplicaRow.key (r : ReplicaRow) : UUID × NodeID := (r.chunkID, r.nodeID)

theorem ReplicaRow.key_verified (now : Time) (r : ReplicaRow) :
    { r with
      state := .available, updatedAt := now, verifiedAt := some now, lastError := none }.key =
        r.key :=
  rfl

/-- `UNIQUE (chunk_id, node_id)` of `chunk_deletions`. Every insert into the queue
names this constraint in its conflict clause, so it identifies a job as well as the
serial `id` does. -/
def DeletionRow.key (d : DeletionRow) : UUID × NodeID := (d.chunkID, d.nodeID)

/-- One version of a stored object, as the store returns it. -/
structure Object where
  id : UUID
  bucket : String
  key : String
  version : Nat
  state : ObjectState
  sizeBytes : Nat
  chunkSize : Nat
  chunkCount : Nat
  etag : String
  contentType : String
  failureReason : String
  createdAt : Time
  updatedAt : Time
  completedAt : Option Time
  deriving DecidableEq, Repr

/-- One fixed-size slice of an object, as the store returns it. -/
structure Chunk where
  id : UUID
  index : Nat
  sizeBytes : Nat
  checksum : Option Checksum
  state : ChunkState
  committedAt : Option Time
  deriving DecidableEq, Repr

/-- One copy of a chunk on one node, as the store returns it. -/
structure Replica where
  chunkID : UUID
  nodeID : NodeID
  address : String
  nodeHealth : Option Health
  state : ReplicaState
  updatedAt : Time
  deriving DecidableEq, Repr

/-- A chunk with every location that currently claims to hold it. -/
structure ChunkWithReplicas where
  chunk : Chunk
  replicas : List Replica
  deriving DecidableEq, Repr

/-- One queued "remove this chunk from this node" job. -/
structure PendingDeletion where
  id : Nat
  chunkID : UUID
  nodeID : NodeID
  address : String
  attempts : Nat
  deriving DecidableEq, Repr

/-- One multipart upload session, as the store returns it. -/
structure MultipartUpload where
  id : UUID
  bucket : String
  key : String
  state : MultipartState
  chunkSize : Nat
  contentType : String
  objectID : Option UUID
  createdAt : Time
  updatedAt : Time
  deriving DecidableEq, Repr

/-- One part of a session, as the store returns it. -/
structure Part where
  id : UUID
  uploadID : UUID
  partNumber : Int
  state : PartState
  sizeBytes : Nat
  chunkCount : Nat
  etag : String
  createdAt : Time
  deriving DecidableEq, Repr

structure CompletedPartRef where
  partNumber : Int
  etag : String
  deriving DecidableEq, Repr

def nullString (s : Option String) : String := s.getD ""

def scanObject (row : ObjectRow) : Object where
  id := row.id
  bucket := row.bucket
  key := row.key
  version := row.version
  state := row.state
  sizeBytes := row.sizeBytes
  chunkSize := row.chunkSize
  chunkCount := row.chunkCount
  etag := nullString row.etag
  contentType := row.contentType
  failureReason := nullString row.failureReason
  createdAt := row.createdAt
  updatedAt := row.updatedAt
  completedAt := row.completedAt

end FlexStore.Metadata
