import FlexStore.Metadata.Operation
import FlexStore.Storage.Stream
import FlexStore.Transition.Procedure

/-!
# The coordinator's write path

The calls of the coordinator service that a gateway makes to store an object. Each one
checks its arguments and runs one or two transactions of the store; a refused transaction
is reported as a status code. An allocation is two transactions with the placement
decision between them, so it can fail with its first half done.

Which nodes a chunk is placed on is not decided here: a `Placement` is any list of
distinct nodes.

A procedure that reaches the database only through these calls leaves it as a run of store
calls does (`Issues`), so what holds after every run holds after the procedure.
-/

namespace FlexStore.Coordinator

open Metadata Rpc Transition

structure Config where
  chunkSize : Int
  minWriteReplicas : Int

/-- The sentinels of the store as status codes. -/
def toStatus : StoreError → Code
  | .notFound => .notFound
  | .conflict => .failedPrecondition
  | .durabilityNotMet => .resourceExhausted
  | _ => .internal

inductive NameError where
  | bucketLength
  | bucketCharacter
  | bucketEnds
  | bucketDots
  | keyEmpty
  | keyTooLong
  | keyLeadingSlash
  | keyTraversal
  | keyControl
  deriving DecidableEq, Repr

def maxBucketLen : Nat := 63
def minBucketLen : Nat := 3
def maxKeyLen : Nat := 1024

def bucketCharacter (c : Char) : Bool :=
  ('a' ≤ c && c ≤ 'z') || ('0' ≤ c && c ≤ '9') || c = '-' || c = '.'

/-- Enforces DNS-style bucket names. -/
def validateBucket (b : String) : Except NameError Unit := do
  require (minBucketLen ≤ b.utf8ByteSize ∧ b.utf8ByteSize ≤ maxBucketLen) .bucketLength
  require (b.toList.all bucketCharacter) .bucketCharacter
  let ends := b.toList.head?.toList ++ b.toList.getLast?.toList
  require (ends.all fun c => c ≠ '-' && c ≠ '.') .bucketEnds
  require (¬['.', '.'] <:+: b.toList) .bucketDots

def validateKey (k : String) : Except NameError Unit := do
  require (k ≠ "") .keyEmpty
  require (k.utf8ByteSize ≤ maxKeyLen) .keyTooLong
  require (k.toList.head? ≠ some '/') .keyLeadingSlash
  require (['.', '.'] ∉ k.toList.splitOn '/') .keyTraversal
  require (k.toList.all fun c => 0x20 ≤ c.toNat && c.toNat ≠ 0x7f) .keyControl

def validateBucketKey (bucket key : String) : Except NameError Unit := do
  validateBucket bucket
  validateKey key

/-- A transaction of the store, its refusal reported by `status`. -/
def transaction {α : Type} (status : StoreError → Code) (f : Database → Result (α × Database)) :
    Procedure Database Code α :=
  .transact fun db => (f db).mapError status

structure BeginUploadResponse where
  objectID : UUID
  chunkSize : Nat
  deriving DecidableEq, Repr

/-- The chunk size of an upload: the requested one, if there is one. -/
def Config.chunkSizeFor (cfg : Config) (requested : Int) : Int :=
  if requested ≤ 0 then cfg.chunkSize else requested

def defaultContentType : String := "application/octet-stream"

def beginUpload (cfg : Config) (now : Time) (id : UUID) (bucket key contentType : String)
    (chunkSize : Int) : Procedure Database Code BeginUploadResponse := do
  match validateBucketKey bucket key with
  | .error _ => .fail .invalidArgument
  | .ok _ =>
    let contentType := if contentType = "" then defaultContentType else contentType
    let obj ← transaction toStatus
      (Metadata.beginUpload now id bucket key contentType (cfg.chunkSizeFor chunkSize))
    pure ⟨obj.id, obj.chunkSize⟩

/-- The nodes that a chunk is to be written to. -/
structure Placement where
  targets : List NodeID
  distinct : targets.Nodup

structure Allocation where
  chunkID : UUID
  placement : Placement
  minWriteReplicas : Int

/-- Mints a chunk id and records where its copies will be written. `place` is the decision of
the placement strategy. -/
def allocateChunk (cfg : Config) (reservedAt recordedAt : Time) (newID : UUID)
    (place : Except Code Placement) (owner : ChunkOwner) (index sizeBytes : Int) :
    Procedure Database Code Allocation := do
  if owner.single = none ∨ index < 0 then .fail .invalidArgument
  else
    let id ← transaction toStatus (reserveChunk reservedAt newID owner index sizeBytes)
    match place with
    | .error code => .fail code
    | .ok placement =>
      transaction toStatus fun db =>
        (recordChunkTargets recordedAt id placement.targets db).map fun db => ((), db)
      pure ⟨id, placement, cfg.minWriteReplicas⟩

/-- Records replica outcomes and enforces the durability policy. -/
def commitChunk (cfg : Config) (now : Time) (id : UUID) (checksum : Checksum) (sizeBytes : Int)
    (succeeded failed : List NodeID) : Procedure Database Code Nat :=
  transaction toStatus
    (Metadata.commitChunk now id checksum sizeBytes succeeded failed cfg.minWriteReplicas)

def completeUpload (now : Time) (id : UUID) (sizeBytes chunkCount : Int) (etag : String) :
    Procedure Database Code Object :=
  transaction
    (fun e => if e = .durabilityNotMet then .failedPrecondition else toStatus e)
    (Metadata.completeUpload now id sizeBytes chunkCount etag)

def abortUpload (now : Time) (id : UUID) (reason : String) : Procedure Database Code Unit :=
  transaction toStatus fun db => (Metadata.abortUpload now id reason db).map fun db => ((), db)

/-- Demotes a replica that a reader found to be bad and schedules its replacement. `repair` is
the replication factor if the repair manager is there and enabled. Returns how many usable
replicas remain and whether a job was created. -/
def reportCorruptReplica (now : Time) (repair : Option Int) (chunkID : UUID) (nodeID : NodeID)
    (detail : String) : Procedure Database Code (Int × Bool) := do
  if nodeID = "" then .fail .invalidArgument
  else
    let remaining ← transaction toStatus (markReplicaCorrupt now chunkID nodeID detail)
    match repair with
    | some replicationFactor =>
      if 0 < remaining then
        let created ← transaction toStatus fun db =>
          .ok (enqueueRepairs now replicationFactor 1 db)
        pure (remaining, 0 < created)
      else pure (remaining, false)
    | none => pure (remaining, false)

section Inversion

variable {db db' : Database}

theorem transaction_ok {α : Type} {status : StoreError → Code}
    {f : Database → Result (α × Database)} {a : α} :
    transaction status f db = (.ok a, db') ↔ f db = .ok (a, db') := by
  rw [transaction, Procedure.transact_ok]
  cases f db <;> simp [Except.mapError]

/-- A refused transaction is rolled back. -/
theorem transaction_error {α : Type} {status : StoreError → Code}
    {f : Database → Result (α × Database)} {code : Code}
    (h : transaction status f db = (.error code, db')) : db' = db :=
  Procedure.transact_error h

theorem unit_map_ok {out : Result Database} :
    (out.map fun db => ((), db)) = .ok ((), db') ↔ out = .ok db' := by
  cases out <;> simp [Except.map]

/-- What a successful call did: it opened a version that has no chunks. -/
theorem beginUpload_ok {cfg : Config} {now : Time} {id : UUID} {bucket key contentType : String}
    {chunkSize : Int} {begun : BeginUploadResponse}
    (h : beginUpload cfg now id bucket key contentType chunkSize db = (.ok begun, db')) :
    begun = ⟨id, (cfg.chunkSizeFor chunkSize).toNat⟩ ∧ 0 < cfg.chunkSizeFor chunkSize ∧
      db.view.objects id = none ∧ ∃ row : ObjectRow, row.bucket = bucket ∧ row.key = key ∧
        db'.view = { db.view with objects := Function.update db.view.objects id (some row) } := by
  unfold beginUpload at h
  cases valid : validateBucketKey bucket key with
  | error e =>
    rw [valid] at h
    cases h
  | ok =>
    rw [valid] at h
    obtain ⟨obj, middle, opened, h⟩ := Procedure.bind_ok.mp h
    obtain ⟨rfl, rfl⟩ : ⟨obj.id, obj.chunkSize⟩ = begun ∧ middle = db' := by simpa using h
    rw [transaction_ok] at opened
    obtain ⟨fresh, view⟩ := Metadata.beginUpload_ok opened
    simp only [Metadata.beginUpload, bind_eq_ok, require_eq_ok, lookup_eq_ok, pure_eq_ok,
      Prod.mk.injEq] at opened
    obtain ⟨-, positive, _, -, rfl, -⟩ := opened
    exact ⟨rfl, positive, fresh, _, rfl, rfl, view⟩

/-- What a successful allocation did: both transactions, with a placement between them. -/
theorem allocateChunk_ok {cfg : Config} {reservedAt recordedAt : Time} {newID : UUID}
    {place : Except Code Placement} {owner : ChunkOwner} {index sizeBytes : Int}
    {alloc : Allocation}
    (h : allocateChunk cfg reservedAt recordedAt newID place owner index sizeBytes db =
      (.ok alloc, db')) :
    0 ≤ index ∧ place = .ok alloc.placement ∧ alloc.minWriteReplicas = cfg.minWriteReplicas ∧
      ∃ middle, reserveChunk reservedAt newID owner index sizeBytes db =
          .ok (alloc.chunkID, middle) ∧
        recordChunkTargets recordedAt alloc.chunkID alloc.placement.targets middle = .ok db' := by
  unfold allocateChunk at h
  split at h
  next => cases h
  next accepted =>
    obtain ⟨id, middle, reserved, h⟩ := Procedure.bind_ok.mp h
    rw [transaction_ok] at reserved
    cases place with
    | error code => cases h
    | ok placement =>
      obtain ⟨⟨⟩, last, recorded, h⟩ := Procedure.bind_ok.mp h
      rw [transaction_ok] at recorded
      obtain ⟨rfl, rfl⟩ : (⟨id, placement, cfg.minWriteReplicas⟩ : Allocation) = alloc ∧
          last = db' := by simpa using h
      refine ⟨by omega, rfl, rfl, middle, reserved, ?_⟩
      simpa only [unit_map_ok] using recorded

end Inversion

section Issues

variable {σ τ ε δ α β : Type} {database : σ → Database} {allowed : Op → Prop}

/-- The procedure does to the database what some run of allowed calls does. -/
def Issues (database : σ → Database) (allowed : Op → Prop) (x : Procedure σ ε α) : Prop :=
  ∀ s, ∃ calls : List Call, (∀ call ∈ calls, allowed call.op) ∧
    database (x s).2 = run step (database s) calls

theorem issues_pure (a : α) : Issues database allowed (pure a : Procedure σ ε α) :=
  fun _ => ⟨[], by simp, rfl⟩

theorem issues_fail (e : ε) : Issues database allowed (.fail e : Procedure σ ε α) :=
  fun _ => ⟨[], by simp, rfl⟩

theorem Issues.bind {x : Procedure σ ε α} {f : α → Procedure σ ε β}
    (first : Issues database allowed x) (second : ∀ a, Issues database allowed (f a)) :
    Issues database allowed (x >>= f) := by
  intro s
  obtain ⟨calls, all, after⟩ := first s
  rcases out : x s with ⟨e | a, m⟩
  · rw [Procedure.bind_of_error out]
    exact ⟨calls, all, by rw [← after, out]⟩
  · rw [Procedure.bind_of_ok out]
    obtain ⟨more, others, finally_⟩ := second a m
    rw [out] at after
    refine ⟨calls ++ more, ?_, by rw [finally_, run_append, ← after]⟩
    intro call member
    exact (List.mem_append.mp member).elim (all call) (others call)

theorem Issues.attempt {x : Procedure σ ε α} (h : Issues database allowed x) :
    Issues database allowed (x.attempt : Procedure σ δ Unit) := h

/-- A part of a state that holds the database. -/
theorem Issues.within {x : Procedure Database ε α} (h : Issues id allowed x)
    {set : σ → Database → σ} {rename : ε → δ} (put : ∀ s db, database (set s db) = db) :
    Issues database allowed (x.within database set rename) := by
  intro s
  obtain ⟨calls, all, after⟩ := h (database s)
  refine ⟨calls, all, ?_⟩
  unfold Procedure.within
  generalize x (database s) = out at after
  rcases out with ⟨e | a, db⟩ <;> exact (put s db).trans after

/-- A transaction of a service is one call of the store. -/
theorem issues_transaction {status : StoreError → Code} {f : Database → Result (α × Database)}
    (call : Call) (reply : α → Reply) (same : ∀ db, exec call db = answer reply (f db))
    (fits : allowed call.op) : Issues id allowed (transaction status f) := by
  refine fun db => ⟨[call], by simpa using fits, ?_⟩
  change (Procedure.transact _ db).2 = step db call
  rw [step, same db, Procedure.transact]
  rcases f db with e | ⟨a, db'⟩ <;> rfl

variable {cfg : Config} {now : Time} {uploadID : UUID}

theorem issues_beginUpload {bucket key contentType : String} {chunkSize : Int}
    (fits : ∀ contentType chunkSize,
      allowed (.beginUpload uploadID bucket key contentType chunkSize)) :
    Issues id allowed (beginUpload cfg now uploadID bucket key contentType chunkSize) := by
  unfold beginUpload
  split
  next => exact issues_fail _
  next =>
    exact (issues_transaction ⟨now, _⟩ .object (fun _ => rfl) (fits _ _)).bind
      fun _ => issues_pure _

theorem issues_allocateChunk {reservedAt recordedAt : Time} {newID : UUID}
    {place : Except Code Placement} {owner : ChunkOwner} {index sizeBytes : Int}
    (reserves : allowed (.reserveChunk newID owner index sizeBytes))
    (records : ∀ c targets, allowed (.recordChunkTargets c targets)) :
    Issues id allowed
      (allocateChunk cfg reservedAt recordedAt newID place owner index sizeBytes) := by
  unfold allocateChunk
  split
  next => exact issues_fail _
  next =>
    refine (issues_transaction ⟨reservedAt, _⟩ .chunk (fun _ => rfl) reserves).bind fun c => ?_
    cases place with
    | error code => exact issues_fail _
    | ok placement =>
      refine (issues_transaction ⟨recordedAt, _⟩ (fun _ => .done) (fun db => ?_)
        (records c placement.targets)).bind fun _ => issues_pure _
      change silent _ = answer _ _
      cases recordChunkTargets recordedAt c placement.targets db <;> rfl

theorem issues_commitChunk {c : UUID} {checksum : Checksum} {sizeBytes : Int}
    {succeeded failed : List NodeID}
    (fits : allowed (.commitChunk c checksum sizeBytes succeeded failed cfg.minWriteReplicas)) :
    Issues id allowed (commitChunk cfg now c checksum sizeBytes succeeded failed) :=
  issues_transaction ⟨now, _⟩ .count (fun _ => rfl) fits

theorem issues_abortUpload {reason : String} (fits : allowed (.abortUpload uploadID reason)) :
    Issues id allowed (abortUpload now uploadID reason) := by
  refine issues_transaction ⟨now, _⟩ (fun _ => .done) (fun db => ?_) fits
  change silent _ = answer _ _
  cases Metadata.abortUpload now uploadID reason db <;> rfl

end Issues

end FlexStore.Coordinator
