import FlexStore.Coordinator.ObjectCache
import FlexStore.Coordinator.Service
import FlexStore.Go.Json
import FlexStore.Go.Text

/-!
# The cached form of a response

`GetObject` builds its response from the layout that the store returns, and writes it to the
cache as the JSON of a smaller record; a later call rebuilds the response from that text. The
record has no place for the state of the object, which is always COMPLETE, or for the health
of a node, and has a zero for a timestamp that is absent. So a response is rebuilt exactly,
with the health fields cleared, if its timestamps are not that zero and fit the record.

Times are nanoseconds since the Unix epoch. The numbers of the messages are copied only, and
are integers of any size. `stats`, `last_heartbeat_at` and `registered_at` of a node are set
on neither path and are left out.
-/

namespace FlexStore.Coordinator.CacheView

open Metadata Transition Rpc Go Go.Json

section Messages

/-- `ObjectState` of the protocol. -/
inductive ProtoObjectState where
  | unspecified
  | uploading
  | complete
  | deleting
  | failed
  deriving DecidableEq, Repr

/-- `NodeHealth` of the protocol. -/
inductive ProtoNodeHealth where
  | unspecified
  | healthy
  | suspect
  | dead
  deriving DecidableEq, Repr

/-- `google.protobuf.Timestamp`, normalised. -/
structure Timestamp where
  seconds : Int
  nanos : Int
  nonneg : 0 ≤ nanos
  bounded : nanos < 10 ^ 9
  deriving DecidableEq

/-- `timestamppb.New`. -/
def Timestamp.new (t : Time) : Timestamp where
  seconds := t / 10 ^ 9
  nanos := t % 10 ^ 9
  nonneg := Int.emod_nonneg t (by decide)
  bounded := Int.emod_lt_of_pos t (by decide)

def Timestamp.asTime (ts : Timestamp) : Time := ts.seconds * 10 ^ 9 + ts.nanos

/-- `UnixNano`, which wraps around. -/
def unixNano (t : Time) : Int := int64 t

/-- `time.Unix` of a count of nanoseconds. -/
def unixTime (nsec : Int) : Time := nsec

structure ObjectInfo where
  objectID : String
  bucket : String
  key : String
  version : Int
  state : ProtoObjectState
  sizeBytes : Int
  chunkSize : Int
  chunkCount : Int
  etag : String
  contentType : String
  createdAt : Option Timestamp
  completedAt : Option Timestamp
  deriving DecidableEq

structure NodeInfo where
  nodeID : String
  grpcAddress : String
  health : ProtoNodeHealth
  deriving DecidableEq, Repr

structure ChunkPlacement where
  chunkID : String
  chunkIndex : Int
  sizeBytes : Int
  checksumSha256 : String
  nodes : List NodeInfo
  deriving DecidableEq, Repr

structure GetObjectResponse where
  object : ObjectInfo
  chunks : List ChunkPlacement
  deriving DecidableEq

def toProtoObjectState : ObjectState → ProtoObjectState
  | .uploading => .uploading
  | .complete => .complete
  | .deleting => .deleting
  | .failed => .failed

def toProtoHealth : Health → ProtoNodeHealth
  | .healthy => .healthy
  | .suspect => .suspect
  | .dead => .dead
  | .unknown => .unspecified

/-- The canonical text of an identifier. -/
def uuidString (id : UUID) : String :=
  let digits := (List.range 32).map fun i => Nat.digitChar (id / 16 ^ (31 - i) % 16)
  String.ofList (digits.take 8 ++ '-' :: (digits.drop 8).take 4 ++ '-' :: (digits.drop 12).take 4 ++
    '-' :: (digits.drop 16).take 4 ++ '-' :: digits.drop 20)

def checksumString (checksum : Option Checksum) : String := nullString (checksum.map Digest.hex)

def toProtoObject (o : Object) : ObjectInfo where
  objectID := uuidString o.id
  bucket := o.bucket
  key := o.key
  version := o.version
  state := toProtoObjectState o.state
  sizeBytes := o.sizeBytes
  chunkSize := o.chunkSize
  chunkCount := o.chunkCount
  etag := o.etag
  contentType := o.contentType
  createdAt := some (.new o.createdAt)
  completedAt := o.completedAt.map .new

/-- The node of a replica. Health that cannot be parsed is unknown. -/
def toProtoNode (r : Replica) : NodeInfo where
  nodeID := r.nodeID
  grpcAddress := r.address
  health := toProtoHealth (r.nodeHealth.getD .unknown)

def toProtoChunk (c : ChunkWithReplicas) : ChunkPlacement where
  chunkID := uuidString c.chunk.id
  chunkIndex := c.chunk.index
  sizeBytes := c.chunk.sizeBytes
  checksumSha256 := checksumString c.chunk.checksum
  nodes := c.replicas.map toProtoNode

/-- The response that is built from what the store returns. -/
def response (layout : Layout) : GetObjectResponse where
  object := toProtoObject layout.1
  chunks := layout.2.map toProtoChunk

end Messages

section Cached

structure CachedTarget where
  nodeID : String
  address : String

structure CachedChunk where
  id : String
  index : Int
  size : Int
  checksum : String
  nodes : List CachedTarget

structure CachedObject where
  objectID : String
  bucket : String
  key : String
  version : Int
  sizeBytes : Int
  chunkSize : Int
  chunkCount : Int
  etag : String
  contentType : String
  createdAt : Int
  completedAt : Int
  chunks : List CachedChunk

/-- The JSON of a target, under the tags of its fields. -/
def targetCodec : Codec CachedTarget :=
  struct (both (field "i" string) (field "a" string))
    (fun t => (t.nodeID, t.address)) (fun t => ⟨t.1, t.2⟩) fun _ => rfl

def chunkCodec : Codec CachedChunk :=
  struct (both (field "i" string) (both (field "x" integer) (both (field "s" integer)
      (both (field "h" string) (field "n" (slice targetCodec))))))
    (fun c => (c.id, c.index, c.size, c.checksum, c.nodes))
    (fun c => ⟨c.1, c.2.1, c.2.2.1, c.2.2.2.1, c.2.2.2.2⟩) fun _ => rfl

/-- The fields of the record in the order of their declaration. -/
abbrev ObjectFields :=
  String × String × String × Int × Int × Int × Int × String × String × Int × Int ×
    List CachedChunk

def CachedObject.unpack (o : CachedObject) : ObjectFields :=
  (o.objectID, o.bucket, o.key, o.version, o.sizeBytes, o.chunkSize, o.chunkCount, o.etag,
    o.contentType, o.createdAt, o.completedAt, o.chunks)

def CachedObject.pack : ObjectFields → CachedObject
  | (objectID, bucket, key, version, sizeBytes, chunkSize, chunkCount, etag, contentType,
      createdAt, completedAt, chunks) =>
    { objectID, bucket, key, version, sizeBytes, chunkSize, chunkCount, etag, contentType,
      createdAt, completedAt, chunks }

def objectCodec : Codec CachedObject :=
  struct (both (field "o" string) (both (field "b" string) (both (field "k" string)
      (both (field "v" integer) (both (field "s" integer) (both (field "cs" integer)
      (both (field "cc" integer) (both (field "e" string) (both (field "ct" string)
      (both (field "ca" integer) (both (field "da" integer)
      (field "c" (slice chunkCodec)))))))))))))
    CachedObject.unpack CachedObject.pack fun _ => rfl

def newCachedTarget (n : NodeInfo) : CachedTarget := ⟨n.nodeID, n.grpcAddress⟩

def newCachedChunk (ch : ChunkPlacement) : CachedChunk where
  id := ch.chunkID
  index := ch.chunkIndex
  size := ch.sizeBytes
  checksum := ch.checksumSha256
  nodes := ch.nodes.map newCachedTarget

/-- The field of a timestamp: an absent one leaves it zero. -/
def newCachedTime (ts : Option Timestamp) : Int :=
  match ts with
  | none => 0
  | some ts => unixNano ts.asTime

def newCachedObject (resp : GetObjectResponse) : CachedObject where
  objectID := resp.object.objectID
  bucket := resp.object.bucket
  key := resp.object.key
  version := resp.object.version
  sizeBytes := resp.object.sizeBytes
  chunkSize := resp.object.chunkSize
  chunkCount := resp.object.chunkCount
  etag := resp.object.etag
  contentType := resp.object.contentType
  createdAt := newCachedTime resp.object.createdAt
  completedAt := newCachedTime resp.object.completedAt
  chunks := resp.chunks.map newCachedChunk

def CachedTarget.toProto (n : CachedTarget) : NodeInfo := ⟨n.nodeID, n.address, .unspecified⟩

def CachedChunk.toProto (ch : CachedChunk) : ChunkPlacement where
  chunkID := ch.id
  chunkIndex := ch.index
  sizeBytes := ch.size
  checksumSha256 := ch.checksum
  nodes := ch.nodes.map CachedTarget.toProto

/-- The timestamp of a field: a zero is an absent one. -/
def timestampOf (n : Int) : Option Timestamp := if n ≠ 0 then some (.new (unixTime n)) else none

def CachedObject.toProto (c : CachedObject) : GetObjectResponse where
  object :=
    { objectID := c.objectID
      bucket := c.bucket
      key := c.key
      version := c.version
      state := .complete
      sizeBytes := c.sizeBytes
      chunkSize := c.chunkSize
      chunkCount := c.chunkCount
      etag := c.etag
      contentType := c.contentType
      createdAt := timestampOf c.createdAt
      completedAt := timestampOf c.completedAt }
  chunks := c.chunks.map CachedChunk.toProto

end Cached

/-- `GetObject`, with the cache entry of the key before and after the call. An entry that
cannot be decoded is dropped. -/
def getObject (bucket key : String) (entry : Option Text) (db : Database) :
    Except Code GetObjectResponse × Option Text :=
  match validateBucketKey bucket key with
  | .error _ => (.error .invalidArgument, entry)
  | .ok _ =>
    match entry.bind (unmarshal objectCodec) with
    | some cached => (.ok cached.toProto, entry)
    | none =>
      match Metadata.getObject bucket key db with
      | .error e => (.error (toStatus e), none)
      | .ok layout =>
        (.ok (response layout),
          some (marshal objectCodec (newCachedObject (response layout))))

def NodeInfo.withoutHealth (n : NodeInfo) : NodeInfo := { n with health := .unspecified }

def ChunkPlacement.withoutHealth (ch : ChunkPlacement) : ChunkPlacement :=
  { ch with nodes := ch.nodes.map NodeInfo.withoutHealth }

/-- The response with the health of the nodes cleared. -/
def GetObjectResponse.withoutHealth (resp : GetObjectResponse) : GetObjectResponse :=
  { resp with chunks := resp.chunks.map ChunkPlacement.withoutHealth }

/-- The nanoseconds of the timestamp are not zero and fit 64 bits. -/
structure Recordable (ts : Timestamp) : Prop where
  nonzero : ts.asTime ≠ 0
  low : -2 ^ 63 ≤ ts.asTime
  high : ts.asTime < 2 ^ 63

/-- The timestamps of the object are absent or can be recorded. -/
structure ObjectInfo.Timed (o : ObjectInfo) : Prop where
  created : ∀ ts ∈ o.createdAt, Recordable ts
  completed : ∀ ts ∈ o.completedAt, Recordable ts

section RoundTrip

theorem Timestamp.new_asTime (ts : Timestamp) : Timestamp.new ts.asTime = ts := by
  obtain ⟨seconds, nanos, nonneg, bounded⟩ := ts
  simp only [Timestamp.new, Timestamp.asTime, Timestamp.mk.injEq]
  constructor <;> omega

/-- A timestamp that can be recorded is found again, and so is an absent one. -/
theorem timestampOf_newCachedTime {ts : Option Timestamp} (recordable : ∀ t ∈ ts, Recordable t) :
    timestampOf (newCachedTime ts) = ts := by
  cases ts with
  | none => rfl
  | some ts =>
    obtain ⟨nonzero, low, high⟩ := recordable ts rfl
    rw [newCachedTime, unixNano, int64_eq low high, timestampOf, if_pos nonzero, unixTime,
      Timestamp.new_asTime]

theorem toProto_newCachedChunk (ch : ChunkPlacement) :
    (newCachedChunk ch).toProto = ch.withoutHealth := by
  rw [CachedChunk.toProto, newCachedChunk, ChunkPlacement.withoutHealth, List.map_map]
  rfl

theorem toProto_newCachedObject {resp : GetObjectResponse}
    (complete : resp.object.state = .complete) (timed : resp.object.Timed) :
    (newCachedObject resp).toProto = resp.withoutHealth := by
  have chunks : (resp.chunks.map newCachedChunk).map CachedChunk.toProto =
      resp.chunks.map ChunkPlacement.withoutHealth := by
    rw [List.map_map]
    exact List.map_congr_left fun ch _ => toProto_newCachedChunk ch
  rw [CachedObject.toProto, newCachedObject, GetObjectResponse.withoutHealth]
  simp only [timestampOf_newCachedTime timed.created, timestampOf_newCachedTime timed.completed,
    chunks, ← complete]

variable {bucket key : String} {db : Database} {resp : GetObjectResponse} {entry : Option Text}

/-- What a cold call returns and leaves in the cache. -/
theorem getObject_cold (cold : getObject bucket key none db = (.ok resp, entry)) :
    (∃ u, validateBucketKey bucket key = .ok u) ∧ resp.object.state = .complete ∧
      entry = some (marshal objectCodec (newCachedObject resp)) := by
  rw [getObject] at cold
  cases valid : validateBucketKey bucket key with
  | error e =>
    rw [valid] at cold
    cases cold
  | ok u =>
    rw [valid] at cold
    cases found : Metadata.getObject bucket key db with
    | error e =>
      rw [found] at cold
      cases cold
    | ok layout =>
      rw [found] at cold
      cases cold
      obtain ⟨row, first, scanned⟩ := headObject_eq_ok.mp (getObject_head found)
      have current := (List.mem_filter.mp (List.mem_of_head? first)).2
      simp only [currentVersion, Bool.and_eq_true, decide_eq_true_eq] at current
      refine ⟨⟨u, rfl⟩, ?_, rfl⟩
      show toProtoObjectState layout.1.state = .complete
      rw [← scanned]
      show toProtoObjectState row.state = .complete
      rw [current.2]
      rfl

end RoundTrip

/-- A response with a COMPLETE object and timestamps that can be recorded is rebuilt with its
health fields cleared, and the first response for a key is one if its timestamps can be
recorded: as long as its entry is there, every later call is answered with the same object and
the same chunks on the same nodes. -/
theorem served_from_cache (bucket key : String) :
    (∀ resp : GetObjectResponse, resp.object.state = .complete → resp.object.Timed →
      (newCachedObject resp).toProto = resp.withoutHealth) ∧
    ∀ db resp entry, getObject bucket key none db = (.ok resp, entry) → resp.object.Timed →
      resp.object.state = .complete ∧
        ∀ db', getObject bucket key entry db' = (.ok resp.withoutHealth, entry) := by
  refine ⟨fun resp complete timed => toProto_newCachedObject complete timed, ?_⟩
  intro db resp entry cold timed
  obtain ⟨⟨u, valid⟩, complete, rfl⟩ := getObject_cold cold
  refine ⟨complete, ?_⟩
  intro db'
  rw [getObject, valid, Option.bind_some, unmarshal_marshal]
  show (Except.ok (newCachedObject resp).toProto, _) = _
  rw [toProto_newCachedObject complete timed]

/-- An object of one chunk on two nodes, completed a second and a half after the epoch. -/
def sampleResponse : GetObjectResponse where
  object :=
    { objectID := uuidString 7
      bucket := "images"
      key := "cats/tabby.png"
      version := 7
      state := .complete
      sizeBytes := 4096
      chunkSize := 8192
      chunkCount := 1
      etag := "abc123"
      contentType := "image/png"
      createdAt := none
      completedAt := some (.new 1500000000) }
  chunks := [⟨uuidString 8, 0, 4096, "deadbeef",
    [⟨"n1", "n1:9100", .healthy⟩, ⟨"n2", "n2:9100", .suspect⟩]⟩]

def emptyObject : ObjectRow where
  id := 1
  bucket := "images"
  key := "cats/tabby.png"
  version := 1
  state := .complete
  sizeBytes := 0
  chunkSize := 8192
  chunkCount := 0
  etag := some "abc123"
  contentType := "image/png"
  failureReason := none
  createdAt := 1
  updatedAt := 2
  completedAt := some 2
  deletedAt := none

def oneObject : Database :=
  { Database.empty with objects := Database.empty.objects.insertIgnore emptyObject }

theorem recordable_new {t : Time} (nonzero : t ≠ 0) (low : -2 ^ 63 ≤ t) (high : t < 2 ^ 63) :
    Recordable (.new t) := by
  have same : (Timestamp.new t).asTime = t := Int.ediv_mul_add_emod t (10 ^ 9)
  constructor
  · rwa [same]
  · rwa [same]
  · rwa [same]

/-- The sample is rebuilt, and an object in the store is served from the cache. -/
theorem served_from_cache_sample :
    (newCachedObject sampleResponse).toProto = sampleResponse.withoutHealth ∧
      ∃ resp entry, getObject "images" "cats/tabby.png" none oneObject = (.ok resp, entry) ∧
        ∀ db', getObject "images" "cats/tabby.png" entry db' = (.ok resp.withoutHealth, entry) := by
  have timed : sampleResponse.object.Timed := by
    constructor
    · intro ts present
      cases present
    · intro ts present
      obtain rfl : Timestamp.new 1500000000 = ts := Option.some.inj present
      exact recordable_new (by decide) (by decide) (by decide)
  have cold : getObject "images" "cats/tabby.png" none oneObject =
      (.ok (response (scanObject emptyObject, [])),
        some (marshal objectCodec (newCachedObject (response (scanObject emptyObject, []))))) := by
    have valid : validateBucketKey "images" "cats/tabby.png" = .ok () := by decide +kernel
    have found : Metadata.getObject "images" "cats/tabby.png" oneObject =
        .ok (scanObject emptyObject, []) := by decide +kernel
    rw [getObject, valid, Option.bind_none, found]
  have recorded : (response (scanObject emptyObject, [])).object.Timed := by
    constructor
    · intro ts present
      obtain rfl : Timestamp.new 1 = ts := Option.some.inj present
      exact recordable_new (by decide) (by decide) (by decide)
    · intro ts present
      obtain rfl : Timestamp.new 2 = ts := Option.some.inj present
      exact recordable_new (by decide) (by decide) (by decide)
  refine ⟨(served_from_cache "images" "cats").1 sampleResponse rfl timed, _, _, cold, ?_⟩
  exact ((served_from_cache "images" "cats/tabby.png").2 oneObject _ _ cold recorded).2

end FlexStore.Coordinator.CacheView
