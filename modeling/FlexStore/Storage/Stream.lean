import FlexStore.Go.Reader

/-!
# Chunk bytes on a stream

A chunk travels between a gateway and a node, or between two nodes, as a sequence of
messages. The receiving side adapts the stream to a reader that hands out one message
after the other and keeps what a read leaves of it, and copies from that reader until it
ends. What arrives is what the messages carry, up to the first message or error that is
not part of the chunk.
-/

namespace FlexStore

/-- The gRPC status codes that the services return or look at. -/
inductive Rpc.Code where
  | unknown
  | invalidArgument
  | notFound
  | failedPrecondition
  | resourceExhausted
  | unavailable
  | internal
  deriving DecidableEq, Repr

namespace Storage

open Go Rpc

/-- The errors of a storage node: the sentinel for a digest that does not match, a status
that came over the wire, and the plain errors that nothing compares with. -/
inductive ErrorName where
  | mismatch
  | status (code : Code)
  | secondHeader
  | wrongSize (written declared : Int)
  deriving DecidableEq, Repr

abbrev Error := Go.Error ErrorName

inductive Message where
  | header
  | data (bytes : Bytes)
  deriving DecidableEq, Repr

/-- A stream and what is left of its last message. `Recv` returns the messages and then
`err`, `io.EOF` if the other side has closed its half. -/
structure StreamReader where
  messages : List Message
  err : Error
  buf : Bytes
  done : Bool

/-- `Recv` until there is a message with bytes. `accept` says what a message contributes. -/
def fill (accept : Message → Except Error Bytes) (err : Error) :
    List Message → Except Error Bytes × List Message
  | [] => (.error err, [])
  | message :: rest =>
    match accept message with
    | .error e => (.error e, rest)
    | .ok [] => fill accept err rest
    | .ok bytes => (.ok bytes, rest)

/-- `Read` of a reader that adapts a stream. -/
def StreamReader.readWith (accept : Message → Except Error Bytes) (r : StreamReader)
    (limit : Nat) : Bytes × Option Error × StreamReader :=
  if r.buf ≠ [] then (r.buf.take limit, none, { r with buf := r.buf.drop limit })
  else if r.done then ([], some (.leaf .eof), r)
  else
    match fill accept r.err r.messages with
    | (.ok bytes, messages) =>
      (bytes.take limit, none, { r with messages, buf := bytes.drop limit })
    | (.error e, messages) =>
      if e.is .eof then ([], some (.leaf .eof), { r with messages, done := true })
      else ([], some e, { r with messages })

/-- The adapter of a `StoreChunk` stream: a second header is an error. -/
def acceptData : Message → Except Error Bytes
  | .header => .error (.leaf (.own .secondHeader))
  | .data bytes => .ok bytes

/-- The adapter of a `ReadChunk` stream, whose messages carry bytes only. -/
def acceptAny : Message → Except Error Bytes
  | .header => .ok []
  | .data bytes => .ok bytes

/-- `streamReader.Read`. -/
def streamRead : StreamReader → Nat → Bytes × Option Error × StreamReader :=
  StreamReader.readWith acceptData

/-- `readChunkReader.Read`. -/
def readChunkRead : StreamReader → Nat → Bytes × Option Error × StreamReader :=
  StreamReader.readWith acceptAny

/-- The size of the buffer of `io.Copy`. -/
def copyBuffer : Nat := 32 * 1024

/-- The loop of `io.Copy` with a buffer of `size` bytes: a plain `io.EOF` ends it, any other
error is returned with what was copied before. -/
def copyLoop (size : Nat) (read : StreamReader → Nat → Bytes × Option Error × StreamReader) :
    Nat → StreamReader → Bytes × Option Error
  | 0, _ => ([], none)
  | fuel + 1, r =>
    match read r size with
    | (data, some e, _) => (data, if e = .leaf .eof then none else some e)
    | (data, none, r) =>
      let (more, err) := copyLoop size read fuel r
      (data ++ more, err)

def payload : List Message → Bytes
  | [] => []
  | .header :: rest => payload rest
  | .data bytes :: rest => bytes ++ payload rest

/-- `io.Copy` from a stream. Every read without an error returns at least one byte, so one
read more than there are bytes is enough. -/
def copy (read : StreamReader → Nat → Bytes × Option Error × StreamReader)
    (r : StreamReader) : Bytes × Option Error :=
  copyLoop copyBuffer read ((r.buf ++ payload r.messages).length + 1) r

/-- The bytes that the reader still delivers, if only data follows. -/
def StreamReader.rest (r : StreamReader) : Bytes := r.buf ++ payload r.messages

def StreamReader.Clean (r : StreamReader) : Prop :=
  r.done = false ∧ ∀ m ∈ r.messages, m ≠ .header

section Copy

variable {accept : Message → Except Error Bytes} (data : ∀ b, accept (.data b) = .ok b)
include data

theorem fill_clean (err : Error) {messages : List Message} (clean : ∀ m ∈ messages, m ≠ .header) :
    (payload messages = [] ∧ fill accept err messages = (.error err, [])) ∨
      ∃ bytes rest, fill accept err messages = (.ok bytes, rest) ∧ bytes ≠ [] ∧
        payload messages = bytes ++ payload rest ∧ ∀ m ∈ rest, m ≠ .header := by
  induction messages with
  | nil => exact Or.inl ⟨rfl, rfl⟩
  | cons message rest ih =>
    have others := (List.forall_mem_cons.mp clean).2
    cases message with
    | header => exact absurd rfl (clean .header List.mem_cons_self)
    | data bytes =>
      cases bytes with
      | nil =>
        have skip : fill accept err (.data [] :: rest) = fill accept err rest := by
          simp [fill, data]
        rw [skip]
        exact ih others
      | cons b more =>
        exact Or.inr ⟨b :: more, rest, by simp [fill, data], by simp, rfl, others⟩

/-- A read of a clean stream returns some bytes, or its final error when none are left. -/
theorem readWith_clean {r : StreamReader} (clean : r.Clean) {limit : Nat} (room : 0 < limit) :
    (∃ got r', r.readWith accept limit = (got, none, r') ∧ got ≠ [] ∧ r.rest = got ++ r'.rest ∧
        r'.Clean ∧ r'.err = r.err) ∨
      (r.rest = [] ∧ ∃ r', r.readWith accept limit =
        ([], some (if r.err.is .eof then .leaf .eof else r.err), r')) := by
  rcases r with ⟨messages, err, buf, done⟩
  obtain ⟨rfl, dataOnly⟩ : done = false ∧ ∀ m ∈ messages, m ≠ .header := clean
  have nonempty {bytes : Bytes} (some_ : bytes ≠ []) : bytes.take limit ≠ [] := by
    simp [some_, Nat.pos_iff_ne_zero.mp room]
  by_cases held : buf = []
  · subst held
    rcases fill_clean data err dataOnly with ⟨none_, out⟩ | ⟨bytes, rest, out, some_, split, more⟩
    · refine Or.inr ⟨none_, ?_⟩
      by_cases eof : err.is .eof = true
      · exact ⟨⟨[], err, [], true⟩, by simp [StreamReader.readWith, out, eof]⟩
      · exact ⟨⟨[], err, [], false⟩, by simp [StreamReader.readWith, out, eof]⟩
    · refine Or.inl ⟨bytes.take limit, ⟨rest, err, bytes.drop limit, false⟩,
        by simp [StreamReader.readWith, out], nonempty some_, ?_, ⟨rfl, more⟩, rfl⟩
      simp [StreamReader.rest, split, ← List.append_assoc]
  · refine Or.inl ⟨buf.take limit, ⟨messages, err, buf.drop limit, false⟩,
      by simp [StreamReader.readWith, held], nonempty held, ?_, ⟨rfl, dataOnly⟩, rfl⟩
    simp [StreamReader.rest, ← List.append_assoc]

/-- Copying a clean stream yields its bytes and its final error. -/
theorem copyLoop_clean {size : Nat} (room : 0 < size) {fuel : Nat} {r : StreamReader}
    (clean : r.Clean) (enough : r.rest.length < fuel) :
    copyLoop size (StreamReader.readWith accept) fuel r =
      (r.rest, if r.err.is .eof then none else some r.err) := by
  induction fuel generalizing r with
  | zero => cases enough
  | succ fuel ih =>
    rcases readWith_clean data clean room with
      ⟨got, r', out, some_, split, clean', same⟩ | ⟨drained, r', out⟩
    · have fewer : r'.rest.length < fuel := by
        have positive := List.length_pos_iff.mpr some_
        rw [split, List.length_append] at enough
        omega
      simp only [copyLoop, out, ih clean' fewer, same, split]
    · by_cases eof : r.err.is .eof = true
      · simp [copyLoop, out, drained, eof]
      · have plain : r.err ≠ .leaf .eof := by
          rintro same
          simp [same, Go.Error.is] at eof
        simp [copyLoop, out, drained, eof, plain]

end Copy

/-- What a node receives on a `StoreChunk` stream of data messages. -/
theorem copy_streamRead {r : StreamReader} (clean : r.Clean) :
    copy streamRead r = (r.rest, if r.err.is .eof then none else some r.err) :=
  copyLoop_clean (fun _ => rfl) (by decide) clean (Nat.lt_succ_self _)

/-- What a node receives on a `ReadChunk` stream. -/
theorem copy_readChunkRead {r : StreamReader} (clean : r.Clean) :
    copy readChunkRead r = (r.rest, if r.err.is .eof then none else some r.err) :=
  copyLoop_clean (fun _ => rfl) (by decide) clean (Nat.lt_succ_self _)

/-- The frames in which a sender streams a payload: `size` bytes each, the last one shorter. -/
def frames (size : Nat) : Nat → Bytes → List Message
  | 0, _ => []
  | fuel + 1, bytes =>
    if bytes = [] then []
    else .data (bytes.take size) :: frames size fuel (bytes.drop size)

theorem payload_frames {size fuel : Nat} {bytes : Bytes} (positive : 0 < size)
    (enough : bytes.length ≤ fuel) : payload (frames size fuel bytes) = bytes := by
  induction fuel generalizing bytes with
  | zero => simp_all [frames, payload]
  | succ fuel ih =>
    by_cases empty : bytes = []
    · simp [frames, empty, payload]
    · have fewer : (bytes.drop size).length ≤ fuel := by
        rw [List.length_drop]
        omega
      simp [frames, empty, payload, ih fewer]

theorem frames_clean (size fuel : Nat) (bytes : Bytes) :
    ∀ m ∈ frames size fuel bytes, m ≠ .header := by
  induction fuel generalizing bytes with
  | zero => simp [frames]
  | succ fuel ih =>
    by_cases empty : bytes = []
    · simp [frames, empty]
    · simp only [frames, if_neg empty, List.forall_mem_cons]
      exact ⟨by simp, ih _⟩

end Storage

end FlexStore
