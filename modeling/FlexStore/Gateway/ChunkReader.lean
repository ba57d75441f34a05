import FlexStore.Digest.Sha256
import FlexStore.Gateway.Spans
import FlexStore.Go.Slice
import FlexStore.Storage.Stream

/-!
# Reading a chunk

`fetch` reads one chunk into a buffer. It asks the replicas in the order of the placement
and returns the first copy that has the recorded length and digest, after it has arrived as
a whole. The buffer is a slice of a shared array: each attempt starts to fill it again from
the front, and what earlier attempts left in it is overwritten or never looked at.

How a node answers an attempt is a `NodeReply`, which may be anything: no connection, or any
messages followed by any end of the stream. `NodeReply.failure` says what an attempt makes of
it, and `fetch_spec` reduces the loop to that.
-/

namespace FlexStore.Gateway

open Go Digest Rpc Metadata

/-- The ways in which a call does not reach its node, or loses it. -/
inductive TransportFailure where
  | unavailable (message : String)
  | deadlineExceeded
  deriving DecidableEq, Repr

def TransportFailure.text : TransportFailure → String
  | .unavailable message => "rpc error: code = Unavailable desc = " ++ message
  | .deadlineExceeded => "rpc error: code = DeadlineExceeded desc = context deadline exceeded"

/-- How a stream of messages ends: the node closes it, the node ends it with a status, or the
connection breaks. -/
inductive Ending where
  | eof
  | status (code : Code) (message : String)
  | broken (failure : TransportFailure)
  deriving DecidableEq, Repr

inductive NodeReply where
  | noClient (message : String)
  | notOpened (failure : TransportFailure)
  | stream (messages : List Bytes) (ending : Ending)
  deriving DecidableEq, Repr

inductive ReadError where
  | noClient (message : String)
  | notOpened (failure : TransportFailure)
  | broken (failure : TransportFailure)
  | status (code : Code) (message : String)
  | tooLong (recorded : Int)
  | wrongLength (read : Nat) (recorded : Int)
  | wrongDigest (chunkID : UUID) (expected : Option Checksum) (computed : Checksum)
  deriving DecidableEq, Repr

/-- The names of the errors of a read: the two sentinels, the status of a node, what the
transport returns when the node is not reached, and the error of a missing client. -/
inductive ErrorName where
  | mismatch
  | noReplica
  | status (code : Code)
  | transport (failure : TransportFailure)
  | noClient
  deriving DecidableEq, Repr

def checksumText (sum : Option Checksum) : String := (sum.map hex).getD ""

/-- `err.Error()` of an error of `fetchFrom`. -/
def ReadError.text : ReadError → String
  | .noClient message => message
  | .notOpened failure => "open ReadChunk: " ++ failure.text
  | .broken failure => failure.text
  | .status code message => "rpc error: code = " ++ codeName code ++ " desc = " ++ message
  | .tooLong recorded => "checksum mismatch: node returned more than the recorded " ++
      toString recorded ++ " bytes"
  | .wrongLength read recorded => "checksum mismatch: read " ++ toString read ++
      " bytes, metadata says " ++ toString recorded
  | .wrongDigest chunkID expected computed => "checksum mismatch for " ++ toString chunkID ++
      ": expected " ++ checksumText expected ++ ", computed " ++ hex computed
where
  codeName : Code → String
    | .unknown => "Unknown"
    | .invalidArgument => "InvalidArgument"
    | .notFound => "NotFound"
    | .failedPrecondition => "FailedPrecondition"
    | .resourceExhausted => "ResourceExhausted"
    | .unavailable => "Unavailable"
    | .internal => "Internal"

/-- The error value, for `errors.Is` and `status.Code`. -/
def ReadError.value (e : ReadError) : Go.Error ErrorName :=
  match e with
  | .noClient _ => .leaf (.own .noClient)
  | .notOpened failure => .wrapped e.text (.leaf (.own (.transport failure)))
  | .broken failure => .leaf (.own (.transport failure))
  | .status code _ => .leaf (.own (.status code))
  | .tooLong _ | .wrongLength _ _ | .wrongDigest _ _ _ =>
    .wrapped e.text (.leaf (.own .mismatch))

/-- The test of `Fetch` for a replica that is reported. -/
def ReadError.corrupt (e : ReadError) : Bool :=
  e.value.is (.own .mismatch) || e.value.is (.own (.status .failedPrecondition))

/-- The loop of `fetchFrom`. Returns the filled buffer and the bytes that were hashed. -/
def receive (chunk : ChunkPlacement) (ending : Ending) :
    List Bytes → Heap UInt8 → Slice → Bytes → Except ReadError (Slice × Bytes) × Heap UInt8
  | [], h, buf, hashed =>
    match ending with
    | .eof => (.ok (buf, hashed), h)
    | .status code message => (.error (.status code message), h)
    | .broken failure => (.error (.broken failure), h)
  | data :: rest, h, buf, hashed =>
    if chunk.sizeBytes < buf.len + data.length then (.error (.tooLong chunk.sizeBytes), h)
    else
      let (h, buf) := buf.append h data
      receive chunk ending rest h buf (hashed ++ data)

def fetchFrom (reply : NodeReply) (chunk : ChunkPlacement) (h : Heap UInt8) (buf : Slice) :
    Except ReadError Slice × Heap UInt8 :=
  match reply with
  | .noClient message => (.error (.noClient message), h)
  | .notOpened failure => (.error (.notOpened failure), h)
  | .stream messages ending =>
    match receive chunk ending messages h buf [] with
    | (.error e, h) => (.error e, h)
    | (.ok (buf, hashed), h) =>
      if (buf.len : Int) ≠ chunk.sizeBytes then
        (.error (.wrongLength buf.len chunk.sizeBytes), h)
      else if chunk.checksum ≠ some (sha256 hashed) then
        (.error (.wrongDigest chunk.chunkID chunk.checksum (sha256 hashed)), h)
      else (.ok buf, h)

/-- An attempt that failed, and whether the replica was reported to the coordinator. -/
structure Attempt where
  node : NodeInfo
  err : ReadError
  reported : Bool
  deriving DecidableEq, Repr

inductive FetchError where
  | noLocations (chunkID : UUID)
  | exhausted (chunkID : UUID) (attempts : List Attempt)
  deriving DecidableEq, Repr

def errNoReplica : Go.Error ErrorName := .leaf (.own .noReplica)

/-- The error value: `ErrNoReplica`, and behind it the errors of the attempts. -/
def FetchError.value : FetchError → Go.Error ErrorName
  | .noLocations chunkID =>
    .wrapped s!"%w: chunk {chunkID} has no replica locations" errNoReplica
  | .exhausted chunkID attempts =>
    let tried := attempts.length
    .wrapped s!"%w for chunk {chunkID} after {tried} attempts: %w"
      (attempts.foldl (fun err a => .joined err (.wrapped "node %s: %w" a.err.value))
        errNoReplica)

structure Fetched where
  result : Except FetchError Slice
  attempts : List Attempt
  heap : Heap UInt8

/-- The loop of `Fetch` from the replica with number `j` on: the data if a replica delivers
it, and the attempts that failed before. -/
def attemptAll (chunk : ChunkPlacement) (reply : Nat → NodeReply) (buf : Slice) :
    Nat → List NodeInfo → Heap UInt8 → Option Slice × List Attempt × Heap UInt8
  | _, [], h => (none, [], h)
  | j, node :: rest, h =>
    match fetchFrom (reply j) chunk h (buf.reslice 0 0) with
    | (.ok data, h) => (some data, [], h)
    | (.error e, h) =>
      let (data, attempts, h) := attemptAll chunk reply buf (j + 1) rest h
      (data, ⟨node, e, e.corrupt⟩ :: attempts, h)

/-- The buffer of `Fetch`: a new one if the given one is too small for the chunk. -/
def bufferFor (size : Int) (h : Heap UInt8) (buf : Slice) : Heap UInt8 × Slice :=
  if buf.cap < size then makeSlice h 0 0 size.toNat else (h, buf)

/-- `Fetch`. `reply j` is the answer of the node with number `j` of the placement. -/
def fetch (chunk : ChunkPlacement) (reply : Nat → NodeReply) (h : Heap UInt8) (buf : Slice) :
    Fetched :=
  if chunk.nodes = [] then ⟨.error (.noLocations chunk.chunkID), [], h⟩
  else
    let (h, buf) := bufferFor chunk.sizeBytes h buf
    let (data, attempts, h) := attemptAll chunk reply buf 0 chunk.nodes h
    match data with
    | some data => ⟨.ok data, attempts, h⟩
    | none => ⟨.error (.exhausted chunk.chunkID attempts), attempts, h⟩

/-- Why the stream of an attempt fails before its bytes are checked, if it does. `start` bytes
have been received before. -/
def streamFailure (chunk : ChunkPlacement) (start : Nat) (messages : List Bytes)
    (ending : Ending) : Option ReadError :=
  if messages ≠ [] ∧ chunk.sizeBytes < start + messages.flatten.length then
    some (.tooLong chunk.sizeBytes)
  else
    match ending with
    | .eof => none
    | .status code message => some (.status code message)
    | .broken failure => some (.broken failure)

/-- What is wrong with the bytes of a stream that the node has closed, if anything. -/
def checkBytes (chunk : ChunkPlacement) (data : Bytes) : Option ReadError :=
  if (data.length : Int) ≠ chunk.sizeBytes then
    some (.wrongLength data.length chunk.sizeBytes)
  else if chunk.checksum ≠ some (sha256 data) then
    some (.wrongDigest chunk.chunkID chunk.checksum (sha256 data))
  else none

/-- Why an attempt with this reply fails, if it does. -/
def NodeReply.failure (chunk : ChunkPlacement) : NodeReply → Option ReadError
  | .noClient message => some (.noClient message)
  | .notOpened failure => some (.notOpened failure)
  | .stream messages ending =>
    (streamFailure chunk 0 messages ending).or (checkBytes chunk messages.flatten)

def NodeReply.bytes : NodeReply → Bytes
  | .stream messages _ => messages.flatten
  | _ => []

/-- The reply is the recorded chunk: its length and its digest, on a stream that the node
has closed. -/
def NodeReply.Delivers (chunk : ChunkPlacement) : NodeReply → Prop
  | .stream messages .eof => (messages.flatten.length : Int) = chunk.sizeBytes ∧
      chunk.checksum = some (sha256 messages.flatten)
  | _ => False

section Attempt

variable {chunk : ChunkPlacement} {h : Heap UInt8} {buf : Slice}

/-- An attempt does not fail exactly if the reply is the recorded chunk. -/
theorem NodeReply.failure_eq_none {reply : NodeReply} :
    reply.failure chunk = none ↔ reply.Delivers chunk := by
  cases reply with
  | noClient message | notOpened failure => simp [NodeReply.failure, NodeReply.Delivers]
  | stream messages ending =>
    rw [NodeReply.failure, Option.or_eq_none_iff]
    cases ending with
    | eof =>
      simp only [streamFailure, checkBytes, NodeReply.Delivers]
      constructor
      · rintro ⟨-, checked⟩
        split at checked
        next => cases checked
        next length =>
          split at checked
          next => cases checked
          next digest => exact ⟨not_not.mp length, not_not.mp digest⟩
      · rintro ⟨length, digest⟩
        have enough : ¬ (messages ≠ [] ∧
            chunk.sizeBytes < ((0 : Nat) : Int) + messages.flatten.length) := by omega
        rw [if_neg enough, if_neg (not_not.mpr length), if_neg (not_not.mpr digest)]
        exact ⟨rfl, rfl⟩
    | status code message | broken failure =>
      simp only [streamFailure, NodeReply.Delivers, iff_false, not_and]
      split <;> simp

/-- What the loop of an attempt returns for a failure, or else for the bytes received: the
error, or a slice that holds the bytes. -/
inductive Outcome (h : Heap UInt8) (data : Bytes) : Option ReadError → Except ReadError Slice → Prop
  | failed (e : ReadError) : Outcome h data (some e) (.error e)
  | filled {slice : Slice} (valid : slice.Valid h) (holds : slice.contents h = data) :
      Outcome h data none (.ok slice)

/-- As long as the recorded size fits into the buffer, the messages are appended in place
and are all that the slice holds. -/
theorem receive_spec (messages : List Bytes) (ending : Ending) {hashed : Bytes}
    (valid : buf.Valid h) (room : chunk.sizeBytes ≤ buf.cap) (holds : buf.contents h = hashed) :
    h.Grows (receive chunk ending messages h buf hashed).2 ∧
      match streamFailure chunk hashed.length messages ending with
      | some e => (receive chunk ending messages h buf hashed).1 = .error e
      | none => ∃ slice : Slice, (receive chunk ending messages h buf hashed).1 =
            .ok (slice, hashed ++ messages.flatten) ∧
          slice.Valid (receive chunk ending messages h buf hashed).2 ∧
          slice.contents (receive chunk ending messages h buf hashed).2 =
            hashed ++ messages.flatten := by
  induction messages generalizing h buf hashed with
  | nil =>
    cases ending with
    | eof => exact ⟨Heap.Grows.refl h, buf, by simp [receive], valid,
        by simpa [receive] using holds⟩
    | status code message | broken failure => exact ⟨Heap.Grows.refl h, rfl⟩
  | cons data rest ih =>
    have len : buf.len = hashed.length := by rw [← valid.length_contents, holds]
    by_cases long : chunk.sizeBytes < buf.len + data.length
    · have failure : streamFailure chunk hashed.length (data :: rest) ending =
          some (.tooLong chunk.sizeBytes) := by
        apply if_pos
        refine ⟨by simp, ?_⟩
        rw [List.flatten_cons, List.length_append]
        omega
      simp only [receive, if_pos long, failure]
      exact ⟨Heap.Grows.refl h, trivial⟩
    · have fits : buf.len + data.length ≤ buf.cap := by omega
      have held := valid.contents_append fits
      rw [holds] at held
      have cap : (buf.append h data).2.cap = buf.cap := by rw [Slice.append_in_place fits]
      have same : streamFailure chunk hashed.length (data :: rest) ending =
          streamFailure chunk (hashed ++ data).length rest ending := by
        cases rest with
        | nil =>
          have short : ¬ chunk.sizeBytes < (hashed.length : Int) + data.length := by omega
          simp [streamFailure, short]
        | cons next rest => simp [streamFailure, Int.add_assoc]
      obtain ⟨grows, outcome⟩ := ih (valid.append_in_place fits) (cap ▸ room) held
      simp only [receive, if_neg long, same]
      refine ⟨(valid.append_grows fits).trans grows, ?_⟩
      simpa using outcome

/-- An attempt fails as its reply says, or returns a slice with the bytes of the reply. -/
theorem fetchFrom_spec (reply : NodeReply) (valid : buf.Valid h) (room : chunk.sizeBytes ≤ buf.cap)
    (empty : buf.contents h = []) :
    h.Grows (fetchFrom reply chunk h buf).2 ∧
      Outcome (fetchFrom reply chunk h buf).2 reply.bytes (reply.failure chunk)
        (fetchFrom reply chunk h buf).1 := by
  cases reply with
  | noClient message | notOpened failure => exact ⟨Heap.Grows.refl h, .failed _⟩
  | stream messages ending =>
    obtain ⟨grows, outcome⟩ := receive_spec messages ending valid room empty
    simp only [fetchFrom, NodeReply.failure, NodeReply.bytes]
    generalize receive chunk ending messages h buf [] = received at grows outcome
    obtain ⟨result, heap⟩ := received
    rw [List.length_nil] at outcome
    cases failure : streamFailure chunk 0 messages ending with
    | some e =>
      rw [failure] at outcome
      obtain rfl : result = .error e := outcome
      exact ⟨grows, .failed e⟩
    | none =>
      rw [failure] at outcome
      obtain ⟨slice, returned, valid, holds⟩ := outcome
      obtain rfl : result = .ok (slice, messages.flatten) := returned
      have holds : slice.contents heap = messages.flatten := holds
      have len : slice.len = messages.flatten.length := by
        rw [← valid.length_contents, holds]
      simp only [len, checkBytes, Option.none_or]
      split
      next => exact ⟨grows, .failed _⟩
      next =>
        split
        next => exact ⟨grows, .failed _⟩
        next => exact ⟨grows, .filled valid holds⟩

end Attempt

section Fetch

variable {chunk : ChunkPlacement} {reply : Nat → NodeReply}

/-- The attempts that fail before a replica delivers the chunk, from number `j` on. -/
def failedAttempts (chunk : ChunkPlacement) (reply : Nat → NodeReply) :
    Nat → List NodeInfo → List Attempt
  | _, [] => []
  | j, node :: rest =>
    match (reply j).failure chunk with
    | none => []
    | some e => ⟨node, e, e.corrupt⟩ :: failedAttempts chunk reply (j + 1) rest

/-- The number of the first replica that delivers the chunk, from number `j` on. -/
def firstDelivery (chunk : ChunkPlacement) (reply : Nat → NodeReply) :
    Nat → List NodeInfo → Option Nat
  | _, [] => none
  | j, _ :: rest =>
    match (reply j).failure chunk with
    | none => some j
    | some _ => firstDelivery chunk reply (j + 1) rest

/-- The slice holds the bytes of the reply with this number. -/
def Holds (reply : Nat → NodeReply) (h : Heap UInt8) : Option Nat → Option Slice → Prop
  | none, none => True
  | some k, some slice => slice.Valid h ∧ slice.contents h = (reply k).bytes
  | _, _ => False

theorem attemptAll_spec {buf : Slice} {h : Heap UInt8} (j : Nat) (nodes : List NodeInfo)
    (valid : buf.Valid h) (room : chunk.sizeBytes ≤ buf.cap) :
    (attemptAll chunk reply buf j nodes h).2.1 = failedAttempts chunk reply j nodes ∧
      h.Grows (attemptAll chunk reply buf j nodes h).2.2 ∧
      Holds reply (attemptAll chunk reply buf j nodes h).2.2
        (firstDelivery chunk reply j nodes) (attemptAll chunk reply buf j nodes h).1 := by
  induction nodes generalizing j h with
  | nil => exact ⟨rfl, Heap.Grows.refl h, trivial⟩
  | cons node rest ih =>
    have emptied : (buf.reslice 0 0).Valid h := valid.reslice (Nat.le_refl 0) (Nat.zero_le _)
    obtain ⟨grows, outcome⟩ := fetchFrom_spec (reply j) emptied room
      (Slice.contents_reslice_zero buf h)
    simp only [attemptAll, failedAttempts, firstDelivery]
    generalize fetchFrom (reply j) chunk h (buf.reslice 0 0) = attempt at grows outcome
    obtain ⟨result, heap⟩ := attempt
    cases failure : (reply j).failure chunk with
    | none =>
      rw [failure] at outcome
      cases outcome with
      | filled valid holds => exact ⟨rfl, grows, valid, holds⟩
    | some e =>
      rw [failure] at outcome
      cases outcome with
      | failed =>
        obtain ⟨attempts, more, holds⟩ := ih (j + 1) (valid.mono grows)
        exact ⟨congrArg _ attempts, grows.trans more, holds⟩

theorem bufferFor_spec (size : Int) {h : Heap UInt8} {buf : Slice} (valid : buf.Valid h) :
    h.Grows (bufferFor size h buf).1 ∧
      (bufferFor size h buf).2.Valid (bufferFor size h buf).1 ∧
      size ≤ (bufferFor size h buf).2.cap := by
  unfold bufferFor
  split
  next =>
    refine ⟨Heap.allocate_grows h _ _, makeSlice_valid (Nat.zero_le _), ?_⟩
    simp only [makeSlice, Heap.allocate, List.length_replicate]
    omega
  next enough => exact ⟨Heap.Grows.refl h, valid, Int.not_lt.mp enough⟩

/-- `Fetch` returns the bytes of the first replica that delivers the chunk. -/
theorem fetch_spec (reply : Nat → NodeReply) {buf : Slice} {h : Heap UInt8}
    (valid : buf.Valid h) :
    (fetch chunk reply h buf).attempts = failedAttempts chunk reply 0 chunk.nodes ∧
      h.Grows (fetch chunk reply h buf).heap ∧
      Holds reply (fetch chunk reply h buf).heap (firstDelivery chunk reply 0 chunk.nodes)
        (fetch chunk reply h buf).result.toOption := by
  by_cases locations : chunk.nodes = []
  · rw [fetch, if_pos locations, locations]
    exact ⟨rfl, Heap.Grows.refl h, trivial⟩
  · rw [fetch, if_neg locations]
    obtain ⟨grown, valid, room⟩ := bufferFor_spec chunk.sizeBytes valid
    generalize bufferFor chunk.sizeBytes h buf = buffer at grown valid room ⊢
    obtain ⟨attempts, grows, holds⟩ := attemptAll_spec 0 chunk.nodes valid room
    simp only
    generalize attemptAll chunk reply buffer.2 0 chunk.nodes buffer.1 = out at attempts grows holds
    obtain ⟨data, tried, heap⟩ := out
    cases data with
    | none | some slice => exact ⟨attempts, grown.trans grows, holds⟩

theorem firstDelivery_eq_some {j k : Nat} {nodes : List NodeInfo}
    (h : firstDelivery chunk reply j nodes = some k) :
    j ≤ k ∧ k < j + nodes.length ∧ (reply k).Delivers chunk ∧
      ∀ i, j ≤ i → i < k → ¬ (reply i).Delivers chunk := by
  induction nodes generalizing j with
  | nil => cases h
  | cons node rest ih =>
    simp only [firstDelivery] at h
    cases failure : (reply j).failure chunk with
    | none =>
      rw [failure] at h
      obtain rfl := Option.some.inj h
      refine ⟨Nat.le_refl j, by simp, NodeReply.failure_eq_none.mp failure, ?_⟩
      intro i low high
      omega
    | some e =>
      rw [failure] at h
      obtain ⟨low, high, delivers, others⟩ := ih h
      refine ⟨by omega, by rw [List.length_cons]; omega, delivers, ?_⟩
      intro i start stop
      by_cases same : i = j
      · subst same
        rw [← NodeReply.failure_eq_none, failure]
        simp
      · exact others i (by omega) stop

theorem firstDelivery_eq_none {j : Nat} {nodes : List NodeInfo}
    (h : firstDelivery chunk reply j nodes = none) :
    ∀ i, j ≤ i → i < j + nodes.length → ¬ (reply i).Delivers chunk := by
  induction nodes generalizing j with
  | nil =>
    intro i low high
    rw [List.length_nil] at high
    omega
  | cons node rest ih =>
    simp only [firstDelivery] at h
    cases failure : (reply j).failure chunk with
    | none =>
      rw [failure] at h
      cases h
    | some e =>
      rw [failure] at h
      intro i low high
      by_cases same : i = j
      · subst same
        rw [← NodeReply.failure_eq_none, failure]
        simp
      · rw [List.length_cons] at high
        exact ih h i (by omega) (by omega)

theorem FetchError.is_noReplica (e : FetchError) : e.value.is (.own .noReplica) = true := by
  cases e with
  | noLocations chunkID => rfl
  | exhausted chunkID attempts =>
    have joined : ∀ err : Go.Error ErrorName, err.is (.own .noReplica) = true →
        (attempts.foldl (fun err a => .joined err (.wrapped "node %s: %w" a.err.value)) err).is
          (.own .noReplica) = true := by
      induction attempts with
      | nil => exact fun err is => is
      | cons a rest ih =>
        intro err is
        apply ih
        simp [Go.Error.is, is]
    exact joined errNoReplica rfl

variable {h : Heap UInt8} {buf : Slice}

/-- The first listed replica that delivers the chunk is the one that is used. -/
theorem fetch_first (valid : buf.Valid h) {j : Nat} (listed : j < chunk.nodes.length)
    (delivers : (reply j).Delivers chunk) (first : ∀ i, i < j → ¬ (reply i).Delivers chunk) :
    ∃ data, (fetch chunk reply h buf).result = .ok data ∧
      data.contents (fetch chunk reply h buf).heap = (reply j).bytes := by
  obtain ⟨-, -, holds⟩ := fetch_spec reply valid
  cases found : firstDelivery chunk reply 0 chunk.nodes with
  | none => exact absurd delivers (firstDelivery_eq_none found j (Nat.zero_le j) (by omega))
  | some k =>
    obtain ⟨-, -, delivers', first'⟩ := firstDelivery_eq_some found
    have same : k = j := by
      rcases Nat.lt_trichotomy k j with less | same | greater
      · exact absurd delivers' (first k less)
      · exact same
      · exact absurd delivers (first' j (Nat.zero_le j) greater)
    subst same
    rw [found] at holds
    cases result : (fetch chunk reply h buf).result with
    | error e =>
      rw [result] at holds
      exact holds.elim
    | ok data =>
      rw [result] at holds
      exact ⟨data, rfl, holds.2⟩

theorem fetch_noReplica (valid : buf.Valid h)
    (none_ : ∀ j, j < chunk.nodes.length → ¬ (reply j).Delivers chunk) :
    ∃ e, (fetch chunk reply h buf).result = .error e ∧ e.value.is (.own .noReplica) := by
  obtain ⟨-, -, holds⟩ := fetch_spec reply valid
  cases found : firstDelivery chunk reply 0 chunk.nodes with
  | some k =>
    obtain ⟨-, listed, delivers, -⟩ := firstDelivery_eq_some found
    exact absurd delivers (none_ k (by omega))
  | none =>
    rw [found] at holds
    cases result : (fetch chunk reply h buf).result with
    | error e => exact ⟨e, rfl, e.is_noReplica⟩
    | ok data =>
      rw [result] at holds
      exact holds.elim

end Fetch

end FlexStore.Gateway
