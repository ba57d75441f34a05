import FlexStore.Chunking.Splitter
import FlexStore.Gateway.ChunkWriter
import FlexStore.Metadata.Publication

/-!
# The write path of the gateway

`streamUpload` reads a body chunk by chunk, and for each chunk asks the coordinator for a
place, fans the data out and commits the outcome. It acts on a `World`: the metadata
database and the storage nodes. Everything that is decided elsewhere is an argument: a
`Turn` has the identifier, the clocks, the placement and the nodes' behaviour of one chunk.

The loop runs on fuel, and one turn more than the body has bytes is enough: the chunks are
those that the splitter returns (`streamLoop_of_drains`), and none of them is empty. After
a successful loop every chunk is recorded as its nodes answered (`Uploaded`).
-/

namespace FlexStore.Gateway

open Chunking Coordinator Digest Go Metadata Rpc Transition

structure World where
  db : Database
  nodes : Nodes

/-- What the coordinator and the nodes decide about one chunk. -/
structure Turn where
  newID : UUID
  reservedAt : Time
  recordedAt : Time
  committedAt : Time
  place : Except Code Placement
  fan : Fanout

inductive Failure where
  | begin_ (code : Code)
  | chunker (err : Chunking.Error)
  | tooLarge (err : Chunking.Error)
  | body (err : Chunking.Error)
  | allocate (code : Code)
  | replicas (err : WriteError)
  | commit (code : Code)
  | complete (code : Code)
  | stalled
  deriving DecidableEq, Repr

inductive ErrorCode where
  | noSuchKey
  | invalidRequest
  | entityTooLarge
  | corruptObject
  | insufficientStorageCapacity
  | insufficientDurableReplicas
  | serviceUnavailable
  | internalError
  | clientClosedRequest
  deriving DecidableEq, Repr

/-- A client-facing failure. Without a message of its own it has the one of its status. -/
structure ApiError where
  status : Nat
  code : ErrorCode
  message : Option String
  deriving DecidableEq, Repr

/-- The HTTP meaning of a status of the coordinator. -/
def ApiError.from : Code → ApiError
  | .notFound => ⟨404, .noSuchKey, none⟩
  | .invalidArgument => ⟨400, .invalidRequest, none⟩
  | .failedPrecondition => ⟨422, .corruptObject, none⟩
  | .resourceExhausted => ⟨507, .insufficientStorageCapacity, none⟩
  | .unavailable => ⟨503, .serviceUnavailable, none⟩
  | .unknown | .internal => ⟨500, .internalError, some "internal error"⟩

def Failure.apiError : Failure → ApiError
  | .begin_ code | .complete code => .from code
  | .chunker _ => ⟨500, .internalError, some "failed to initialise chunker"⟩
  | .tooLarge _ => ⟨413, .entityTooLarge, some "object exceeds the configured maximum size"⟩
  | .body _ => ⟨499, .clientClosedRequest, some "failed reading request body"⟩
  | .allocate .resourceExhausted =>
    ⟨503, .insufficientStorageCapacity,
      some "cluster cannot currently place the required number of replicas"⟩
  | .allocate _ => ⟨502, .serviceUnavailable, some "failed to allocate chunk"⟩
  | .replicas _ =>
    ⟨503, .insufficientDurableReplicas,
      some "could not durably store chunk on enough storage nodes"⟩
  | .commit .resourceExhausted =>
    ⟨503, .insufficientDurableReplicas, some "chunk did not meet the durability policy"⟩
  | .commit _ => ⟨502, .serviceUnavailable, some "failed to commit chunk metadata"⟩
  | .stalled => ⟨500, .internalError, some "internal error"⟩

def coordinator {α : Type} (failure : Code → Failure) (x : Procedure Database Code α) :
    Procedure World Failure α :=
  x.within World.db (fun w db => { w with db }) failure

def fanOut (fan : Fanout) (chunkID : UUID) (data : Bytes) (sum : Checksum)
    (targets : List NodeID) (minReplicas : Int) :
    Procedure World Failure (WriteResult × Option WriteError) := fun w =>
  let (res, err, nodes) := write fan chunkID data sum targets minReplicas w.nodes
  (.ok (res, err), { w with nodes })

/-- Reports partial replica state after a failed write. The outcome is only logged. -/
def recordFailedCommit (cfg : Config) (now : Time) (chunkID : UUID) (sum : Checksum)
    (sizeBytes : Int) (res : WriteResult) : Procedure World Failure Unit :=
  if res.succeeded = [] ∧ res.failed = [] then pure ()
  else .attempt (coordinator .commit
    (commitChunk cfg now chunkID sum sizeBytes res.succeeded res.failed))

def int32 (n : Int) : Int := n.bmod (2 ^ 32)

/-- One turn of the upload loop, for a chunk that has been read. -/
def streamChunk (cfg : Config) (owner : ChunkOwner) (turn : Turn) (chunk : Chunking.Chunk) :
    Procedure World Failure Unit := do
  let sum := sha256 chunk.data
  let size : Int := chunk.data.length
  let alloc ← coordinator .allocate (allocateChunk cfg turn.reservedAt turn.recordedAt turn.newID
    turn.place owner (int32 chunk.index) size)
  let (res, err) ← fanOut turn.fan alloc.chunkID chunk.data sum alloc.placement.targets
    (max 1 alloc.minWriteReplicas)
  match err with
  | some err => do
    recordFailedCommit cfg turn.committedAt alloc.chunkID sum size res
    .fail (.replicas err)
  | none => do
    let _ ← coordinator .commit (commitChunk cfg turn.committedAt alloc.chunkID sum size
      res.succeeded res.failed)
    pure ()

/-- The running totals of a stream: what has been hashed, and the number of chunks. -/
structure Progress where
  hashed : Bytes
  total : Nat
  count : Int
  deriving DecidableEq, Repr

def Progress.add (p : Progress) (chunk : Chunking.Chunk) : Progress where
  hashed := p.hashed ++ chunk.data
  total := p.total + chunk.data.length
  count := int32 (p.count + 1)

structure UploadResult where
  sizeBytes : Nat
  chunkCount : Int
  etag : String
  deriving DecidableEq, Repr

def Progress.result (p : Progress) : UploadResult where
  sizeBytes := p.total
  chunkCount := p.count
  etag := hex (sha256 p.hashed)

/-- What the loop makes of the error of the splitter. -/
def finishStream (p : Progress) (err : Chunking.Error) : Procedure World Failure UploadResult :=
  if err.is .eof then pure p.result
  else if err.is (.own .chunkTooLarge) then .fail (.tooLarge err)
  else .fail (.body err)

def streamLoop (cfg : Config) (owner : ChunkOwner) (turns : Nat → Turn) :
    Nat → Splitter → Progress → Procedure World Failure UploadResult
  | 0, _, _ => .fail .stalled
  | fuel + 1, splitter, p =>
    match splitter.next with
    | (.error err, _) => finishStream p err
    | (.ok chunk, splitter) => do
      streamChunk cfg owner (turns chunk.index) chunk
      streamLoop cfg owner turns fuel splitter (p.add chunk)

def streamUpload (cfg : Config) (maxObjectSize : Int) (turns : Nat → Turn) (src : Reader)
    (owner : ChunkOwner) (chunkSize : Nat) : Procedure World Failure UploadResult :=
  match newSplitterBuffer src chunkSize maxObjectSize with
  | .error err => .fail (.chunker err)
  | .ok splitter => streamLoop cfg owner turns (src.bytes.length + 1) splitter ⟨[], 0, 0⟩

section Loop

variable {cfg : Config} {owner : ChunkOwner} {turns : Nat → Turn}

/-- The chunks one after the other, and then the verdict on how the stream ended. -/
def streamChunks (cfg : Config) (owner : ChunkOwner) (turns : Nat → Turn)
    (err : Chunking.Error) : List Chunking.Chunk → Progress → Procedure World Failure UploadResult
  | [], p => finishStream p err
  | chunk :: rest, p => do
    streamChunk cfg owner (turns chunk.index) chunk
    streamChunks cfg owner turns err rest (p.add chunk)

theorem streamLoop_of_drains {s : Splitter} {cs : List Chunking.Chunk} {err : Chunking.Error}
    (drains : s.Drains cs err) {fuel : Nat} (enough : cs.length < fuel) (p : Progress) :
    streamLoop cfg owner turns fuel s p = streamChunks cfg owner turns err cs p := by
  induction drains generalizing fuel p with
  | stop out =>
    obtain ⟨fuel, rfl⟩ : ∃ n, fuel = n + 1 := ⟨fuel - 1, by omega⟩
    simp only [streamLoop, out, streamChunks]
  | more out _ ih =>
    obtain ⟨fuel, rfl⟩ : ∃ n, fuel = n + 1 := ⟨fuel - 1, by omega⟩
    simp only [streamLoop, out, streamChunks]
    rw [ih (by simpa using enough)]

theorem length_counted_le (k : Nat) (err : Chunking.Error) (bytes : Bytes) :
    (counted k err bytes).length ≤ bytes.length := by
  unfold counted
  split
  next => exact Nat.le_refl _
  next => exact List.length_take_le' _ _

/-- An upload is the loop over the chunks that the splitter returns for its body. -/
theorem streamUpload_of_drains (cfg : Config) (owner : ChunkOwner) (turns : Nat → Turn)
    (maxObjectSize : Int) (src : Reader) {chunkSize : Nat} (positive : 0 < chunkSize) :
    ∃ cs e, streamUpload cfg maxObjectSize turns src owner chunkSize =
        streamChunks cfg owner turns e cs ⟨[], 0, 0⟩ ∧
      Splitter.Drains ⟨src, chunkSize, positive, maxObjectSize, 0, 0, false⟩ cs e ∧
      Splitter.Splits ⟨src, chunkSize, positive, maxObjectSize, 0, 0, false⟩
        (counted chunkSize src.err src.bytes) (src.err.is .eof || src.err.is .unexpectedEOF)
        cs e := by
  obtain ⟨cs, e, drains, splits⟩ := Splitter.splits
    (s := ⟨src, chunkSize, positive, maxObjectSize, 0, 0, false⟩) rfl
    fun excess => absurd excess.1 (Int.not_lt.mpr (Int.le_of_lt (by simpa using excess.2)))
  refine ⟨cs, e, ?_, drains, splits⟩
  have enough : cs.length < src.bytes.length + 1 :=
    Nat.lt_succ_of_le (splits.count.trans (length_counted_le _ _ _))
  rw [streamUpload, newSplitterBuffer, dif_pos positive]
  exact streamLoop_of_drains drains enough _

/-- An upload is the loop over the chunks of its body, in order. -/
theorem streamUpload_eq (cfg : Config) (owner : ChunkOwner) (turns : Nat → Turn)
    (maxObjectSize : Int) (src : Reader) {chunkSize : Nat} (positive : 0 < chunkSize) :
    ∃ cs e, streamUpload cfg maxObjectSize turns src owner chunkSize =
        streamChunks cfg owner turns e cs ⟨[], 0, 0⟩ ∧
      Splitter.Splits ⟨src, chunkSize, positive, maxObjectSize, 0, 0, false⟩
        (counted chunkSize src.err src.bytes) (src.err.is .eof || src.err.is .unexpectedEOF)
        cs e := by
  obtain ⟨cs, e, loop, -, splits⟩ :=
    streamUpload_of_drains cfg owner turns maxObjectSize src positive
  exact ⟨cs, e, loop, splits⟩

/-- The loop succeeds only for a stream that ended. -/
theorem streamChunks_ended {err : Chunking.Error} {cs : List Chunking.Chunk} {p : Progress}
    {res : UploadResult} {w w' : World}
    (h : streamChunks cfg owner turns err cs p w = (.ok res, w')) : err.is .eof = true := by
  induction cs generalizing p w with
  | nil =>
    unfold streamChunks finishStream at h
    split at h
    next ended => exact ended
    next => split at h <;> cases h
  | cons chunk rest ih =>
    obtain ⟨_, middle, -, h⟩ := Procedure.bind_ok.mp h
    exact ih h

theorem fanOut_ok {fan : Fanout} {chunkID : UUID} {data : Bytes} {sum : Checksum}
    {targets : List NodeID} {minReplicas : Int} {res : WriteResult} {err : Option WriteError}
    {w w' : World} (h : fanOut fan chunkID data sum targets minReplicas w = (.ok (res, err), w')) :
    write fan chunkID data sum targets minReplicas w.nodes = (res, err, w'.nodes) ∧
      w'.db = w.db := by
  obtain ⟨outcome, rfl⟩ := Prod.mk.inj h
  obtain ⟨rfl, rfl⟩ := Prod.mk.inj (Except.ok.inj outcome)
  exact ⟨rfl, rfl⟩

/-- What a successful turn did: an allocation, a fan-out that met its quorum, a commit. -/
theorem streamChunk_ok {turn : Turn} {chunk : Chunking.Chunk} {u : Unit} {w w' : World}
    (h : streamChunk cfg owner turn chunk w = (.ok u, w')) :
    ∃ alloc middle res available,
      allocateChunk cfg turn.reservedAt turn.recordedAt turn.newID turn.place owner
        (int32 chunk.index) chunk.data.length w.db = (.ok alloc, middle) ∧
      write turn.fan alloc.chunkID chunk.data (sha256 chunk.data) alloc.placement.targets
        (max 1 alloc.minWriteReplicas) w.nodes = (res, none, w'.nodes) ∧
      commitChunk cfg turn.committedAt alloc.chunkID (sha256 chunk.data) chunk.data.length
        res.succeeded res.failed middle = (.ok available, w'.db) := by
  unfold streamChunk at h
  obtain ⟨alloc, w₁, first, h⟩ := Procedure.bind_ok.mp h
  obtain ⟨middle, allocated, rfl⟩ := Procedure.within_ok.mp first
  obtain ⟨⟨res, err⟩, w₂, second, h⟩ := Procedure.bind_ok.mp h
  obtain ⟨sent, same⟩ := fanOut_ok second
  cases err with
  | some err =>
    obtain ⟨_, _, -, h⟩ := Procedure.bind_ok.mp h
    cases h
  | none =>
    obtain ⟨available, w₃, third, h⟩ := Procedure.bind_ok.mp h
    obtain ⟨db, committed, rfl⟩ := Procedure.within_ok.mp third
    obtain ⟨-, rfl⟩ := Prod.mk.inj h
    rw [same] at committed
    exact ⟨alloc, middle, res, available, allocated, sent, committed⟩

end Loop

section Issues

variable {cfg : Config} {owner : ChunkOwner}

/-- The calls of an upload do not publish anything. -/
abbrev Withholding (op : Op) : Prop := op.mayPublish = false

theorem issues_coordinator {α : Type} {allowed : Op → Prop} {failure : Code → Failure}
    {x : Procedure Database Code α} (h : Issues id allowed x) :
    Issues World.db allowed (coordinator failure x) :=
  h.within fun _ _ => rfl

theorem issues_streamChunk {turn : Turn} {chunk : Chunking.Chunk} :
    Issues World.db Withholding (streamChunk cfg owner turn chunk) := by
  unfold streamChunk
  refine Issues.bind (issues_coordinator (issues_allocateChunk ?_ ?_)) fun alloc => ?_
  · rfl
  · exact fun _ _ => rfl
  refine Issues.bind (fun w => ⟨[], by simp, rfl⟩) fun out => ?_
  have commits (sum : Checksum) (size : Int) (res : WriteResult) :
      Issues World.db Withholding (coordinator .commit
        (commitChunk cfg turn.committedAt alloc.chunkID sum size res.succeeded res.failed)) :=
    issues_coordinator (issues_commitChunk rfl)
  rcases out with ⟨res, none | err⟩
  · exact (commits _ _ res).bind fun _ => issues_pure _
  · refine Issues.bind ?_ fun _ => issues_fail _
    unfold recordFailedCommit
    split
    next => exact issues_pure _
    next => exact (commits _ _ res).attempt

theorem issues_streamChunks {turns : Nat → Turn} {err : Chunking.Error}
    (cs : List Chunking.Chunk) (p : Progress) :
    Issues World.db Withholding (streamChunks cfg owner turns err cs p) := by
  induction cs generalizing p with
  | nil =>
    unfold streamChunks finishStream
    split
    next => exact issues_pure _
    next => split <;> exact issues_fail _
  | cons chunk rest ih => exact issues_streamChunk.bind fun _ => ih (p.add chunk)

theorem issues_streamUpload (cfg : Config) (owner : ChunkOwner) (turns : Nat → Turn)
    (maxObjectSize : Int) (src : Reader) (chunkSize : Nat) :
    Issues World.db Withholding (streamUpload cfg maxObjectSize turns src owner chunkSize) := by
  rcases Nat.eq_zero_or_pos chunkSize with rfl | positive
  · exact issues_fail _
  · obtain ⟨cs, e, loop, -⟩ := streamUpload_eq cfg owner turns maxObjectSize src positive
    rw [loop]
    exact issues_streamChunks cs _

end Issues

end FlexStore.Gateway
