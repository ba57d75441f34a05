import FlexStore.Digest.Sha256
import FlexStore.Storage.Stream

/-!
# A storage node

What the calls of the storage service do to the visible file of one chunk. `write` is the
store's write without failures of the file system: a file that already has the expected
digest is kept without reading the source, anything else is replaced, but only by bytes
that have the declared size and digest.

A node that copies a chunk from a peer reads the peer's stream through the same store. The
peer ends the stream of a damaged file with `FailedPrecondition`; to the store that is an
error of its source like any other, and not the sentinel of a digest mismatch.
-/

namespace FlexStore.Storage

open Go Digest Rpc

structure WriteResult where
  bytesWritten : Nat
  checksum : BitVec 256
  alreadyExisted : Bool
  deriving DecidableEq, Repr

/-- The size of a data frame, on both sides. -/
def streamFrameSize : Nat := 256 * 1024

/-- The part of `ChunkStore.Write` behind the check for an existing file: copy the source and
accept what has the declared size and digest. -/
def writeNew (source : Bytes × Option Error) (expectedSize : Int)
    (expectedChecksum : Option (BitVec 256)) : Except Error (WriteResult × Bytes) :=
  match source with
  | (_, some err) => .error (.wrapped "write chunk: %w" err)
  | (written, none) =>
    if 0 ≤ expectedSize ∧ (written.length : Int) ≠ expectedSize then
      .error (.leaf (.own (.wrongSize written.length expectedSize)))
    else if expectedChecksum.any (· ≠ sha256 written) then
      .error (.wrapped "%w: expected digest differs from the computed one"
        (.leaf (.own .mismatch)))
    else .ok (⟨written.length, sha256 written, false⟩, written)

/-- `ChunkStore.Write`: the result, and the visible file after a successful write. After a
failed one the file is as it was. -/
def write (file : Option Bytes) (source : Bytes × Option Error) (expectedSize : Int)
    (expectedChecksum : Option (BitVec 256)) : Except Error (WriteResult × Bytes) :=
  match file with
  | some bytes =>
    if expectedChecksum.all (· = sha256 bytes) then
      .ok (⟨bytes.length, sha256 bytes, true⟩, bytes)
    else writeNew source expectedSize expectedChecksum
  | none => writeNew source expectedSize expectedChecksum

/-- The header that opens a `StoreChunk` stream. -/
structure ChunkHeader where
  sizeBytes : Int
  checksum : Option (BitVec 256)

/-- `StoreChunk`: the messages behind the header are the source of a write. Returns the
answer and the visible file afterwards. -/
def storeChunk (file : Option Bytes) (header : ChunkHeader) (messages : List Message)
    (err : Error) : Except Code WriteResult × Option Bytes :=
  match write file (copy streamRead ⟨messages, err, [], false⟩) header.sizeBytes
    header.checksum with
  | .ok (res, bytes) => (.ok res, some bytes)
  | .error e => (.error (if e.is (.own .mismatch) then .failedPrecondition else .internal), file)

/-- `ReadChunk`: the messages of the stream and how it ends. -/
def readChunk (file : Option Bytes) (expectedChecksum : Option (BitVec 256)) :
    List Message × Error :=
  match file with
  | none => ([], .leaf (.own (.status .notFound)))
  | some bytes =>
    (frames streamFrameSize bytes.length bytes,
      if expectedChecksum.all (· = sha256 bytes) then .leaf .eof
      else .leaf (.own (.status .failedPrecondition)))

/-- `ReplicateChunk`: the stream of the source node is the source of a write. Returns the
answer and the visible file afterwards. -/
def replicateChunk (file : Option Bytes) (stream : List Message × Error) (sizeBytes : Int)
    (checksum : Option (BitVec 256)) : Except Code WriteResult × Option Bytes :=
  match write file (copy readChunkRead ⟨stream.1, stream.2, [], false⟩) sizeBytes checksum with
  | .ok (res, bytes) => (.ok res, some bytes)
  | .error e => (.error (if e.is (.own .mismatch) then .failedPrecondition else .internal), file)

/-- `CheckChunk` with and without verification. -/
structure CheckResult where
  present : Bool
  sizeBytes : Nat
  checksum : Option (BitVec 256)
  valid : Bool
  deriving DecidableEq, Repr

def checkChunk (file : Option Bytes) (verify : Bool) : CheckResult :=
  match file with
  | none => ⟨false, 0, none, false⟩
  | some bytes => ⟨true, bytes.length, if verify then some (sha256 bytes) else none, verify⟩

section Write

variable {file : Option Bytes} {source : Bytes × Option Error} {size : Int} {sum : BitVec 256}

theorem writeNew_ok {res : WriteResult} {bytes : Bytes}
    (h : writeNew source size (some sum) = .ok (res, bytes)) :
    sha256 bytes = sum ∧ res.checksum = sum ∧ res.bytesWritten = bytes.length ∧
      source = (bytes, none) := by
  rcases source with ⟨written, none | err⟩
  · change (if _ then _ else if _ then _ else _) = _ at h
    split at h
    next => cases h
    next =>
      split at h
      next => cases h
      next same =>
        obtain ⟨rfl, rfl⟩ := Prod.mk.inj (Except.ok.inj h)
        have same : sum = sha256 written := by simpa using same
        exact ⟨same.symm, same.symm, rfl, rfl⟩
  · cases h

/-- After a write with a digest the visible file has that digest, and the answer says how long
it is. -/
theorem write_ok {res : WriteResult} {bytes : Bytes}
    (h : write file source size (some sum) = .ok (res, bytes)) :
    sha256 bytes = sum ∧ res.checksum = sum ∧ res.bytesWritten = bytes.length ∧
      (file = some bytes ∨ source = (bytes, none)) := by
  have new (h : writeNew source size (some sum) = .ok (res, bytes)) :
      sha256 bytes = sum ∧ res.checksum = sum ∧ res.bytesWritten = bytes.length ∧
        (file = some bytes ∨ source = (bytes, none)) := by
    obtain ⟨digest, answer, length, taken⟩ := writeNew_ok h
    exact ⟨digest, answer, length, Or.inr taken⟩
  cases file with
  | none => exact new h
  | some old =>
    change (if _ then _ else _) = _ at h
    split at h
    next same =>
      obtain ⟨rfl, rfl⟩ := Prod.mk.inj (Except.ok.inj h)
      have same : sum = sha256 old := by simpa using same
      exact ⟨same.symm, same.symm, rfl, Or.inl rfl⟩
    next => exact new h

/-- A source that fails makes the write fail with its error wrapped, unless a file with the
digest is there already. -/
theorem write_source_failed {err : Error} {copied : Bytes}
    (invalid : ∀ bytes, file = some bytes → sha256 bytes ≠ sum) :
    write file (copied, some err) size (some sum) = .error (.wrapped "write chunk: %w" err) := by
  cases file with
  | none => rfl
  | some bytes =>
    have other : sum ≠ sha256 bytes := (invalid bytes rfl).symm
    simp [write, writeNew, other]

end Write

/-- The messages of a chunk stream, received on the other side. -/
theorem copy_frames {read : StreamReader → Nat → Bytes × Option Error × StreamReader}
    (copies : ∀ r : StreamReader, r.Clean →
      copy read r = (r.rest, if r.err.is .eof then none else some r.err)) (bytes : Bytes)
    (err : Error) : copy read ⟨frames streamFrameSize bytes.length bytes, err, [], false⟩ =
      (bytes, if err.is .eof then none else some err) := by
  rw [copies _ ⟨rfl, frames_clean _ _ _⟩, StreamReader.rest,
    payload_frames (by decide) (Nat.le_refl _)]
  rfl

end FlexStore.Storage
