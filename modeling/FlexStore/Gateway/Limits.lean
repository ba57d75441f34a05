import FlexStore.Gateway.Put

/-!
# The size limits of an upload

A request body passes two limits of the same value: `LimitRequestBody` puts an
`http.MaxBytesReader` around it, and the splitter counts the bytes that it reads. The outer
one never delivers more than the limit, so the inner one never finds it exceeded; what the
splitter sees of a body that is too long is a read error, and the client is told that it
has gone away.
-/

namespace FlexStore.Gateway

open Chunking Coordinator Go Metadata Rpc Transition

/-- The error of an `http.MaxBytesReader`. -/
def maxBytesError : Chunking.Error := .leaf (.own (.other 0))

/-- The pieces of a stream up to its first `n` bytes. -/
def takePieces : Nat → List Bytes → List Bytes
  | _, [] => []
  | n, piece :: rest =>
    if piece.length ≤ n then piece :: takePieces (n - piece.length) rest else [piece.take n]

theorem flatten_takePieces (n : Nat) (pieces : List Bytes) :
    (takePieces n pieces).flatten = pieces.flatten.take n := by
  induction pieces generalizing n with
  | nil => simp [takePieces]
  | cons piece rest ih =>
    unfold takePieces
    split
    · next whole =>
        rw [List.flatten_cons, List.flatten_cons, ih, List.take_append,
          List.take_of_length_le whole]
    · next cut =>
        have none_ : n - piece.length = 0 := by omega
        simp [List.take_append, none_]

/-- `http.MaxBytesReader`: at most `n` bytes of the body, and then, if more follow, an error
of its own together with the last of them. -/
def maxBytesReader (body : Reader) (n : Nat) : Reader :=
  if body.bytes.length ≤ n then body else ⟨takePieces n body.pieces, maxBytesError, true⟩

theorem length_maxBytesReader (body : Reader) (n : Nat) :
    (maxBytesReader body n).bytes.length ≤ n := by
  unfold maxBytesReader
  split
  · assumption
  · rw [Go.Reader.bytes, flatten_takePieces]
    exact List.length_take_le n _

theorem err_maxBytesReader (body : Reader) (n : Nat) :
    (maxBytesReader body n).err = body.err ∨ (maxBytesReader body n).err = maxBytesError := by
  unfold maxBytesReader
  split
  · exact Or.inl rfl
  · exact Or.inr rfl

inductive Method where
  | get
  | head
  | put
  | post
  | delete
  deriving DecidableEq, Repr

/-- A request. Its length is -1 if it is not declared, and the error that ends its body is one
of `net/http`. -/
structure Request where
  method : Method
  contentLength : Int
  body : Reader
  foreign : body.err.is (.own .chunkTooLarge) = false

def Request.limit (r : Request) (n : Nat) : Request :=
  { r with
    body := maxBytesReader r.body n
    foreign := by
      obtain same | own := err_maxBytesReader r.body n
      · rw [same]
        exact r.foreign
      · rw [own]
        rfl }

/-- Caps how many bytes a request body may deliver. -/
def limitRequestBody {α : Type} (next : Request → Procedure World ApiError α) (maxBytes : Int)
    (r : Request) : Procedure World ApiError α :=
  if maxBytes ≤ 0 then next r
  else if r.method = .put ∨ r.method = .post then
    if maxBytes < r.contentLength then
      .fail ⟨413, .entityTooLarge, some "request body exceeds the configured maximum object size"⟩
    else next (r.limit maxBytes.toNat)
  else next r

/-- The part of a handler that streams the body of a request, with what the client is told. -/
def serveUpload (cfg : Config) (maxObjectSize : Int) (turns : Nat → Turn) (owner : ChunkOwner)
    (chunkSize : Nat) (r : Request) : Procedure World ApiError UploadResult :=
  (streamUpload cfg maxObjectSize turns r.body owner chunkSize).within id (fun _ w => w)
    Failure.apiError

/-- The request is answered 413 `EntityTooLarge`. -/
def TooLarge {α : Type} (out : Except ApiError α × World) : Prop :=
  ∃ message, out.1 = .error ⟨413, .entityTooLarge, message⟩

/-- Only the size limit of the splitter is reported as 413. -/
theorem Failure.status_of_byCall {f : Failure} (call : f.byCall = true) :
    f.apiError.status ≠ 413 := by
  cases f with
  | begin_ code | allocate code | commit code | complete code => cases code <;> decide
  | replicas => simp [apiError]
  | chunker | tooLarge | body | stalled => cases call

theorem raises_streamChunks_small {cfg : Config} {owner : ChunkOwner} {turns : Nat → Turn}
    {err : Chunking.Error} (small : err.is (.own .chunkTooLarge) = false)
    (cs : List Chunking.Chunk) (p : Progress) :
    Procedure.Raises (·.apiError.status ≠ 413) (streamChunks cfg owner turns err cs p) := by
  induction cs generalizing p with
  | nil =>
    unfold streamChunks finishStream
    rw [small]
    split
    · exact Procedure.raises_pure _
    · exact Procedure.raises_fail (by simp [Failure.apiError])
  | cons chunk rest ih =>
    refine Procedure.Raises.bind (fun w w' f failed => ?_) fun _ => ih _
    exact Failure.status_of_byCall (raises_streamChunk w w' f failed)

/-- A body that the outer limit has cut never exceeds the inner one. -/
theorem raises_streamUpload_small (cfg : Config) (owner : ChunkOwner) (turns : Nat → Turn)
    {maxObjectSize : Int} (positive : 0 < maxObjectSize) (r : Request) (chunkSize : Nat) :
    Procedure.Raises (·.apiError.status ≠ 413) (streamUpload cfg maxObjectSize turns
      (r.limit maxObjectSize.toNat).body owner chunkSize) := by
  by_cases empty : chunkSize = 0
  · subst empty
    exact Procedure.raises_fail (by decide)
  · obtain ⟨cs, e, loop, drains, -⟩ := streamUpload_of_drains cfg owner turns maxObjectSize
      (r.limit maxObjectSize.toNat).body (Nat.pos_of_ne_zero empty)
    have short := length_maxBytesReader r.body maxObjectSize.toNat
    have small := drains.not_tooLarge (r.limit maxObjectSize.toNat).foreign fun excess => by
      have over_ : maxObjectSize <
          ((0 + (maxBytesReader r.body maxObjectSize.toNat).bytes.length : Nat) : Int) := excess.2
      omega
    rw [loop]
    exact raises_streamChunks_small small cs _

/-- An upload without a declared length is answered as its size deserves exactly if it is
within the limit: one that is too long is never answered 413. -/
theorem upload_tooLarge_iff (cfg : Config) (turns : Nat → Turn) (owner : ChunkOwner)
    (chunkSize : Nat) {maxObjectSize : Int} (positive : 0 < maxObjectSize) {r : Request}
    (uploads : r.method = .put) (undeclared : r.contentLength = -1) (w : World) :
    (TooLarge (limitRequestBody (serveUpload cfg maxObjectSize turns owner chunkSize)
        maxObjectSize r w) ↔ maxObjectSize < r.body.bytes.length) ↔
      r.body.bytes.length ≤ maxObjectSize := by
  have never : ¬TooLarge (limitRequestBody (serveUpload cfg maxObjectSize turns owner chunkSize)
      maxObjectSize r w) := by
    rintro ⟨message, refused⟩
    rw [limitRequestBody, if_neg (by omega), if_pos (Or.inl uploads),
      if_neg (by omega)] at refused
    unfold serveUpload Procedure.within at refused
    split at refused
    · cases refused
    · next f w' failed =>
        refine raises_streamUpload_small cfg owner turns positive r chunkSize w w' f failed ?_
        rw [Except.error.inj refused]
  simp [never]

/-- A body of two bytes whose length is not declared. -/
def undeclaredBody : Request := ⟨.put, -1, ⟨[[1, 2]], .leaf .eof, false⟩, rfl⟩

def emptyWorld : World := ⟨Database.empty, ⟨fun _ _ => none, []⟩⟩

def noPlace : Nat → Turn := fun _ =>
  ⟨0, 0, 0, 0, .error .resourceExhausted, ⟨fun _ => .served, id, fun _ => .refl _⟩⟩

theorem upload_tooLarge_iff_twoBytes :
    ¬TooLarge (limitRequestBody (serveUpload ⟨8, 1⟩ 2 noPlace ⟨some 1, none⟩ 2) 2
      undeclaredBody emptyWorld) := by
  have answered := (upload_tooLarge_iff ⟨8, 1⟩ noPlace ⟨some 1, none⟩ 2
    (by decide : (0 : Int) < 2) (r := undeclaredBody) rfl rfl emptyWorld).mpr (by decide)
  exact fun refused => absurd (answered.mp refused) (by decide)

/-- With a limit of one byte the client is told that it has closed the request. -/
theorem upload_tooLong_closed :
    (limitRequestBody (serveUpload ⟨8, 1⟩ 1 noPlace ⟨some 1, none⟩ 2) 1 undeclaredBody
      emptyWorld).1 =
        .error ⟨499, .clientClosedRequest, some "failed reading request body"⟩ := by
  decide +kernel

end FlexStore.Gateway
