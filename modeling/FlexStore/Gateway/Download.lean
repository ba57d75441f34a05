import FlexStore.Gateway.ChunkReader

/-!
# Downloading an object

`streamDownload` fetches the chunk of one span after the other, cuts the span out of it and
writes it to the client. One buffer serves the whole response: the next fetch starts where
the last piece starts, with what is left of the capacity, or with a new buffer if that is
not enough. A chunk reaches the client only after all of it has been verified, so what the
client has at any time is the beginning of what it asked for.
-/

namespace FlexStore.Gateway

open Go Digest Metadata

inductive DownloadError where
  | fetch (e : FetchError)
  | writeToClient
  deriving DecidableEq, Repr

/-- What a download has sent to the client, what it returns as written, and its error. -/
structure Downloaded where
  sent : Bytes
  written : Int
  err : Option DownloadError
  deriving DecidableEq, Repr

/-- `data[from:to]`, unless the span is all of the data. -/
def ChunkSpan.trim (span : ChunkSpan) (data : Slice) : Slice :=
  if 0 < span.fromOffset ∨ span.toOffset < data.len then
    data.reslice span.fromOffset.toNat span.toOffset.toNat
  else data

/-- The loop of `streamDownload` from the span with number `i` on. `replies i j` is the answer
of replica `j` of that span's chunk, and `client i` how many bytes of the piece the client
takes before the write fails, or `none` if it takes all of it. -/
def streamSpans (replies : Nat → Nat → NodeReply) (client : Nat → Option Nat) :
    Nat → List ChunkSpan → Heap UInt8 → Slice → Int → Downloaded
  | _, [], _, _, written => ⟨[], written, none⟩
  | i, span :: rest, h, buf, written =>
    let out := fetch span.chunk (replies i) h buf
    match out.result with
    | .error e => ⟨[], written, some (.fetch e)⟩
    | .ok data =>
      let data := span.trim data
      let bytes := data.contents out.heap
      match client i with
      | some taken =>
        ⟨bytes.take taken, int64 (written + (bytes.take taken).length),
          some .writeToClient⟩
      | none =>
        let more := streamSpans replies client (i + 1) rest out.heap (data.reslice 0 0)
          (int64 (written + bytes.length))
        { more with sent := bytes ++ more.sent }

/-- `streamDownload` with a buffer from the pool. -/
def streamDownload (replies : Nat → Nat → NodeReply) (client : Nat → Option Nat)
    (spans : List ChunkSpan) (h : Heap UInt8) (buf : Slice) : Downloaded :=
  streamSpans replies client 0 spans h (buf.reslice 0 0) 0

section Stream

variable {truth : ChunkPlacement → Bytes} {h : Heap UInt8} {data : Slice} {span : ChunkSpan}

/-- The recorded size and digest are those of the true contents. -/
def ChunkPlacement.Records (chunk : ChunkPlacement) (content : Bytes) : Prop :=
  (content.length : Int) = chunk.sizeBytes ∧ chunk.checksum = some (sha256 content)

/-- A digest that a reply has in common with the true contents is no collision. -/
def NodeReply.Collides (reply : NodeReply) (content : Bytes) : Prop :=
  sha256 reply.bytes = sha256 content ∧ reply.bytes ≠ content

/-- What delivers a chunk is its true contents. -/
theorem NodeReply.Delivers.bytes_eq {reply : NodeReply} {chunk : ChunkPlacement}
    {content : Bytes} (delivers : reply.Delivers chunk) (records : chunk.Records content)
    (distinct : ¬ reply.Collides content) : reply.bytes = content := by
  have digest : chunk.checksum = some (sha256 reply.bytes) := by
    cases reply with
    | noClient message | notOpened failure => exact delivers.elim
    | stream messages ending =>
      cases ending with
      | eof => exact delivers.2
      | status code message | broken failure => exact delivers.elim
  have same := Option.some.inj (digest.symm.trans records.2)
  by_contra other
  exact distinct ⟨same, other⟩

theorem ChunkSpan.trim_spec (within : span.Within) (valid : data.Valid h)
    (full : ((data.contents h).length : Int) = span.chunk.sizeBytes) :
    (span.trim data).Valid h ∧ (span.trim data).contents h = span.cut (data.contents h) := by
  obtain ⟨low, order, high⟩ := within
  have len := valid.length_contents
  have cap := valid.len_le
  unfold ChunkSpan.trim ChunkSpan.cut
  rw [len]
  split
  next =>
    refine ⟨valid.reslice (by omega) (by omega), ?_⟩
    rw [Slice.contents_reslice (by omega)]
    rfl
  next => exact ⟨valid, rfl⟩

/-- A successful fetch returns the true contents. -/
theorem fetch_true {chunk : ChunkPlacement} {reply : Nat → NodeReply} {buf : Slice}
    (valid : buf.Valid h) (records : chunk.Records (truth chunk))
    (distinct : ∀ j, ¬ (reply j).Collides (truth chunk))
    (fetched : (fetch chunk reply h buf).result = .ok data) :
    data.Valid (fetch chunk reply h buf).heap ∧
      data.contents (fetch chunk reply h buf).heap = truth chunk := by
  obtain ⟨-, -, holds⟩ := fetch_spec reply valid
  rw [fetched] at holds
  cases first : firstDelivery chunk reply 0 chunk.nodes with
  | none =>
    rw [first] at holds
    exact holds.elim
  | some k =>
    rw [first] at holds
    obtain ⟨valid, contents⟩ : data.Valid _ ∧ data.contents _ = (reply k).bytes := holds
    obtain ⟨-, -, delivers, -⟩ := firstDelivery_eq_some first
    exact ⟨valid, contents.trans (delivers.bytes_eq records (distinct k))⟩

/-- What has been sent is the beginning of the pieces, and all of them without an error. -/
theorem streamSpans_spec {replies : Nat → Nat → NodeReply} (client : Nat → Option Nat)
    {spans : List ChunkSpan} {i : Nat} {buf : Slice} (written : Int) (valid : buf.Valid h)
    (within : ∀ span ∈ spans, span.Within)
    (records : ∀ span ∈ spans, span.chunk.Records (truth span.chunk))
    (distinct : ∀ k span, spans[k]? = some span →
      ∀ j, ¬ (replies (i + k) j).Collides (truth span.chunk)) :
    (streamSpans replies client i spans h buf written).sent <+: pieces truth spans ∧
      ((streamSpans replies client i spans h buf written).err = none →
        (streamSpans replies client i spans h buf written).sent = pieces truth spans) := by
  induction spans generalizing i h buf written with
  | nil => simp [streamSpans, pieces]
  | cons span rest ih =>
    obtain ⟨inside, within⟩ := List.forall_mem_cons.mp within
    obtain ⟨recorded, records⟩ := List.forall_mem_cons.mp records
    have cons : pieces truth (span :: rest) =
        span.cut (truth span.chunk) ++ pieces truth rest := by simp [pieces]
    rw [cons]
    cases fetched : (fetch span.chunk (replies i) h buf).result with
    | error e => simp [streamSpans, fetched]
    | ok data =>
      obtain ⟨valid, contents⟩ := fetch_true valid recorded
        (by simpa using distinct 0 span rfl) fetched
      obtain ⟨trimmed, piece⟩ := span.trim_spec inside valid
        (by rw [contents]; exact recorded.1)
      rw [contents] at piece
      cases answer : client i with
      | some taken =>
        simp only [streamSpans, fetched, answer, piece]
        refine ⟨(List.take_prefix taken _).trans (List.prefix_append _ _), ?_⟩
        simp
      | none =>
        have emptied := trimmed.reslice (Nat.le_refl 0) (Nat.zero_le _)
        have later : ∀ k span, rest[k]? = some span →
            ∀ j, ¬ (replies (i + 1 + k) j).Collides (truth span.chunk) := by
          intro k span found
          rw [Nat.add_right_comm, Nat.add_assoc]
          exact distinct (k + 1) span found
        obtain ⟨front, all⟩ := ih _ emptied within records later
        simp only [streamSpans, fetched, answer, piece]
        refine ⟨(List.prefix_append_right_inj _).mpr front, ?_⟩
        intro finished
        rw [all finished]

end Stream

/-- For every behaviour of the nodes and of the client, what `streamDownload` has sent is the
beginning of the requested pieces of the true chunks, and all of them if it returns no error.
Each fetch returns the bytes of the first listed replica that delivers the recorded length
and digest, and `ErrNoReplica` if there is none. -/
theorem streamDownload_sends_true_pieces {truth : ChunkPlacement → Bytes}
    {spans : List ChunkSpan} (within : ∀ span ∈ spans, span.Within)
    (records : ∀ span ∈ spans, span.chunk.Records (truth span.chunk))
    {replies : Nat → Nat → NodeReply}
    (distinct : ∀ k span, spans[k]? = some span →
      ∀ j, ¬ (replies k j).Collides (truth span.chunk))
    (client : Nat → Option Nat) {h : Heap UInt8} {buf : Slice} (valid : buf.Valid h) :
    (streamDownload replies client spans h buf).sent <+: pieces truth spans ∧
      ((streamDownload replies client spans h buf).err = none →
        (streamDownload replies client spans h buf).sent = pieces truth spans) ∧
      ∀ (chunk : ChunkPlacement) (reply : Nat → NodeReply) (h : Heap UInt8) (buf : Slice),
        buf.Valid h →
          (∀ j, j < chunk.nodes.length → (reply j).Delivers chunk →
            (∀ i, i < j → ¬ (reply i).Delivers chunk) →
            ∃ data, (fetch chunk reply h buf).result = .ok data ∧
              data.contents (fetch chunk reply h buf).heap = (reply j).bytes) ∧
          ((∀ j, j < chunk.nodes.length → ¬ (reply j).Delivers chunk) →
            ∃ e, (fetch chunk reply h buf).result = .error e ∧ e.value.is (.own .noReplica)) := by
  have emptied := valid.reslice (Nat.le_refl 0) (Nat.zero_le _)
  obtain ⟨front, all⟩ := streamSpans_spec (i := 0) client 0 emptied within records
    (by simpa using distinct)
  refine ⟨front, all, ?_⟩
  intro chunk reply h buf valid
  exact ⟨fun j listed delivers first => fetch_first valid listed delivers first,
    fun none_ => fetch_noReplica valid none_⟩

def twoCopies : ChunkPlacement :=
  ⟨1, 0, 3, some (sha256 [1, 2, 3]), [⟨"n1", "n1:9000"⟩, ⟨"n2", "n2:9000"⟩]⟩

/-- The first replica breaks off behind the last byte, the second delivers the chunk. -/
def brokenThenWhole (_ j : Nat) : NodeReply :=
  if j = 0 then .stream [[1], [2, 3]] (.broken .deadlineExceeded)
  else .stream [[1, 2, 3]] .eof

def oneTwoThree (_ : ChunkPlacement) : Bytes := [1, 2, 3]

def twoSpans : List ChunkSpan := [⟨twoCopies, 1, 3⟩, ⟨twoCopies, 0, 2⟩]

theorem streamDownload_sends_two_pieces :
    (streamDownload brokenThenWhole (fun _ => none) twoSpans ⟨[[9, 9, 9, 9]]⟩
      ⟨0, 0, 4, 4⟩).sent <+: [2, 3, 1, 2] := by
  have within : ∀ span ∈ twoSpans, span.Within := by decide
  have records : ∀ span ∈ twoSpans, span.chunk.Records (oneTwoThree span.chunk) := by
    intro span mem
    rcases List.mem_pair.mp mem with rfl | rfl
    all_goals exact ⟨rfl, rfl⟩
  have same : ∀ k j, (brokenThenWhole k j).bytes = [1, 2, 3] := by
    intro k j
    unfold brokenThenWhole
    split <;> rfl
  have valid : Slice.Valid (⟨[[9, 9, 9, 9]]⟩ : Heap UInt8) ⟨0, 0, 4, 4⟩ :=
    ⟨by decide, by decide, by decide⟩
  exact (streamDownload_sends_true_pieces within records
    (fun k span _ j collides => collides.2 (same k j)) (fun _ => none) valid).1

/-- What `GetObject` answers before the body: the status, the announced length and the spans
to send. -/
structure Response where
  status : Nat
  contentLength : Int
  spans : List ChunkSpan
  deriving DecidableEq, Repr

/-- The range handling of `GetObject`. A range is served only if the recorded size is the sum
of the chunks; an unsatisfiable one is answered with an error. -/
def respond (header : Bytes) (objectSize : Int) (chunks : List ChunkPlacement) :
    Except RangeError Response :=
  let whole : Response := ⟨200, objectSize, allChunks chunks⟩
  if header = [] then .ok whole
  else
    match parseRange header objectSize with
    | .ok br =>
      if objectSizeFromChunks chunks ≠ objectSize then .ok whole
      else .ok ⟨206, br.length, selectChunks chunks br⟩
    | .error .unsatisfiable => .error .unsatisfiable
    | .error .ignorable => .ok whole

/-- The bytes that a request is for: those of its range, and all of them without one. -/
def requested (header data : Bytes) : Bytes :=
  match parseRange header data.length with
  | .ok br => window br.start.toNat (br.last + 1).toNat data
  | .error _ => data

section Respond

variable {content : ChunkPlacement → Bytes} {chunks : List ChunkPlacement} {header : Bytes}

/-- Unless the range cannot be satisfied, the spans of the answer cut out what was asked for,
and their length is announced. -/
theorem respond_sends (sizes : ∀ c ∈ chunks, ((content c).length : Int) = c.sizeBytes)
    (fits : (chunks.map (·.sizeBytes)).sum < 2 ^ 63)
    (satisfiable : parseRange header (chunks.map (·.sizeBytes)).sum ≠ .error .unsatisfiable) :
    ∃ response, respond header (chunks.map (·.sizeBytes)).sum chunks = .ok response ∧
      (∀ span ∈ response.spans, span.chunk ∈ chunks ∧ span.Within) ∧
      pieces content response.spans = requested header (chunks.flatMap content) ∧
      response.contentLength = (requested header (chunks.flatMap content)).length := by
  have total := length_flatMap_content sizes
  have whole : (∀ span ∈ allChunks chunks, span.chunk ∈ chunks ∧ span.Within) ∧
      pieces content (allChunks chunks) = chunks.flatMap content ∧
      (chunks.map (·.sizeBytes)).sum = (chunks.flatMap content).length := by
    refine ⟨fun span mem => ?_, pieces_allChunks sizes, total.symm⟩
    obtain ⟨c, listed, rfl⟩ := List.mem_map.mp mem
    exact ⟨listed, Int.le_refl 0, sizes c listed ▸ Int.natCast_nonneg _, Int.le_refl _⟩
  unfold respond
  rw [requested, total]
  by_cases empty : header = []
  · subst empty
    exact ⟨_, if_pos rfl, whole⟩
  cases parsed : parseRange header (chunks.map (·.sizeBytes)).sum with
  | error e =>
    cases e with
    | unsatisfiable => exact absurd parsed satisfiable
    | ignorable => exact ⟨_, if_neg empty, whole⟩
  | ok br =>
    obtain ⟨spans, cuts⟩ := selectChunks_window sizes fits parsed
    simp only [empty, if_false, objectSizeFromChunks_eq sizes fits, ne_eq, not_true]
    exact ⟨_, rfl, spans, cuts, cuts ▸ (length_pieces_selectChunks sizes fits parsed).symm⟩

end Respond

end FlexStore.Gateway
