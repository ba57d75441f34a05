import FlexStore.Gateway.Download
import FlexStore.Gateway.Put
import FlexStore.Metadata.Layout

/-!
# What is got is what was put

A PUT cuts the body into chunks, stores them on nodes and publishes a row that counts them. A
GET of the key takes the layout from the database, selects the spans of the range that it is
for and fetches each of them from the first copy that delivers it. The two meet at the chunk
rows: each row of the object is `Stored`, so whatever delivers the recorded chunk delivers the
piece of the body.
-/

namespace FlexStore.Gateway

open Chunking Coordinator Digest Go Metadata Relational Rpc Transition

/-- What the coordinator tells about a chunk. -/
def placementOf (entry : ChunkWithReplicas) : ChunkPlacement where
  chunkID := entry.chunk.id
  chunkIndex := entry.chunk.index
  sizeBytes := entry.chunk.sizeBytes
  checksum := entry.chunk.checksum
  nodes := entry.replicas.map fun r => ⟨r.nodeID, r.address⟩

/-- The listed nodes, of which there is one at least, have the recorded piece. -/
structure Kept (nodes : Nodes) (c : ChunkPlacement) (piece : Bytes) : Prop where
  records : c.Records piece
  listed : c.nodes ≠ []
  files : ∀ n ∈ c.nodes, nodes.files c.chunkID n.nodeID = some piece

/-- Some listed copy is answered with the file of its node, and no answer has the digest of
such a file and other bytes. -/
structure Answered (nodes : Nodes) (c : ChunkPlacement) (reply : Nat → NodeReply) : Prop where
  served : ∃ j n messages, c.nodes[j]? = some n ∧ reply j = .stream messages .eof ∧
    nodes.files c.chunkID n.nodeID = some messages.flatten
  distinct : ∀ n ∈ c.nodes, ∀ j data, nodes.files c.chunkID n.nodeID = some data →
    ¬(reply j).Collides data

/-- All of these bytes have been sent. -/
def Downloaded.Complete (out : Downloaded) (bytes : Bytes) : Prop :=
  out.err = none ∧ out.sent = bytes

/-- The file of the first node that is listed for a chunk. -/
def firstFile (nodes : Nodes) (c : ChunkPlacement) : Bytes :=
  (c.nodes.head?.bind fun n => nodes.files c.chunkID n.nodeID).getD []

section Reading

variable {nodes : Nodes} {h : Heap UInt8} {buf : Slice}

/-- A fetch of a chunk that is kept succeeds if some copy is answered. -/
theorem fetch_answered {c : ChunkPlacement} {piece : Bytes} {reply : Nat → NodeReply}
    (valid : buf.Valid h) (kept : Kept nodes c piece) (answered : Answered nodes c reply) :
    ∃ data, (fetch c reply h buf).result = .ok data ∧ data.Valid (fetch c reply h buf).heap ∧
      data.contents (fetch c reply h buf).heap = piece := by
  have some_ : ∃ j, j < c.nodes.length ∧ (reply j).Delivers c := by
    obtain ⟨j, n, messages, listed, answer, file⟩ := answered.served
    rw [kept.files n (List.mem_of_getElem? listed), Option.some.injEq] at file
    refine ⟨j, (List.getElem?_eq_some_iff.mp listed).1, ?_⟩
    rw [answer, NodeReply.Delivers, ← file]
    exact kept.records
  have distinct : ∀ j, ¬(reply j).Collides piece := by
    obtain ⟨n, listed⟩ := List.exists_mem_of_ne_nil _ kept.listed
    exact fun j => answered.distinct n listed j piece (kept.files n listed)
  classical
  obtain ⟨listed, delivers⟩ := Nat.find_spec some_
  obtain ⟨data, fetched, -⟩ := fetch_first valid listed delivers fun j below early =>
    Nat.find_min some_ below ⟨below.trans listed, early⟩
  exact ⟨data, fetched, @fetch_true (fun _ => piece) _ _ _ _ _ valid kept.records distinct fetched⟩

/-- A client that takes everything is sent all the pieces. -/
theorem streamSpans_answered {replies : Nat → Nat → NodeReply} {spans : List ChunkSpan} {i : Nat}
    (written : Int) (valid : buf.Valid h)
    (kept : ∀ span ∈ spans, Kept nodes span.chunk (firstFile nodes span.chunk) ∧ span.Within)
    (answered : ∀ k span, spans[k]? = some span → Answered nodes span.chunk (replies (i + k))) :
    (streamSpans replies (fun _ => none) i spans h buf written).Complete
      (pieces (firstFile nodes) spans) := by
  induction spans generalizing i h buf written with
  | nil => exact ⟨rfl, rfl⟩
  | cons span rest ih =>
    obtain ⟨⟨first, inside⟩, kept⟩ := List.forall_mem_cons.mp kept
    obtain ⟨data, fetched, valid, contents⟩ :=
      fetch_answered valid first (show Answered _ _ (replies i) from answered 0 span rfl)
    obtain ⟨trimmed, piece⟩ := span.trim_spec inside valid (by rw [contents]; exact first.records.1)
    have later : ∀ k span, rest[k]? = some span →
        Answered nodes span.chunk (replies (i + 1 + k)) := by
      intro k span found
      rw [Nat.add_right_comm, Nat.add_assoc]
      exact answered (k + 1) span found
    simp only [streamSpans, fetched, piece, contents]
    obtain ⟨done, all⟩ := ih _ (trimmed.reslice (Nat.le_refl 0) (Nat.zero_le _)) kept later
    exact ⟨done, congrArg (span.cut (firstFile nodes span.chunk) ++ ·) all⟩

variable {chunks : List ChunkPlacement} {parts : List Bytes}

theorem firstFile_kept (kept : List.Forall₂ (Kept nodes) chunks parts) :
    (∀ c ∈ chunks, Kept nodes c (firstFile nodes c)) ∧
      chunks.flatMap (firstFile nodes) = parts.flatten := by
  induction kept with
  | nil => simp
  | @cons c piece _ _ first _ ih =>
    obtain ⟨n, rest, listed⟩ := List.exists_cons_of_ne_nil first.listed
    have same : firstFile nodes c = piece := by
      simp [firstFile, listed, first.files n (by simp [listed])]
    simpa [same, ih.2] using ⟨first, ih.1⟩

/-- A GET of chunks that are kept sends what was asked for. -/
theorem download_of_kept (replies : Nat → Nat → NodeReply)
    (kept : List.Forall₂ (Kept nodes) chunks parts) (fits : parts.flatten.length < 2 ^ 63)
    {header : Bytes} (valid : buf.Valid h)
    (satisfiable : parseRange header parts.flatten.length ≠ .error .unsatisfiable) :
    ∃ response, respond header parts.flatten.length chunks = .ok response ∧
      response.contentLength = (requested header parts.flatten).length ∧
      ((∀ k span, response.spans[k]? = some span → Answered nodes span.chunk (replies k)) →
        (streamDownload replies (fun _ => none) response.spans h buf).Complete
          (requested header parts.flatten)) := by
  obtain ⟨each, all⟩ := firstFile_kept kept
  have sizes : ∀ c ∈ chunks, ((firstFile nodes c).length : Int) = c.sizeBytes :=
    fun c listed => (each c listed).records.1
  have total := length_flatMap_content sizes
  rw [← all] at fits satisfiable ⊢
  rw [total] at satisfiable ⊢
  obtain ⟨response, answer, spans, cuts, length⟩ := respond_sends sizes (by omega) satisfiable
  refine ⟨response, answer, length, fun answered => ?_⟩
  rw [← cuts]
  exact streamSpans_answered (i := 0) 0 (valid.reslice (Nat.le_refl 0) (Nat.zero_le _))
    (fun span mem => ⟨each _ (spans span mem).1, (spans span mem).2⟩) (by simpa using answered)

variable {w : World} {row : ChunkRow} {piece : Bytes}

/-- A stored chunk that can be served is kept where its layout says. -/
theorem Stored.kept (stored : Stored w row piece)
    (served : joinedReplicas w.db true row.id ≠ []) :
    Kept w.nodes (placementOf (servedEntry w.db row)) piece where
  records := ⟨congrArg Nat.cast stored.1.symm, stored.2.1⟩
  listed := by simpa [placementOf, servedEntry] using served
  files := by
    intro n listed
    simp only [placementOf, servedEntry, List.map_map, List.mem_map] at listed
    obtain ⟨copy, joined, rfl⟩ := listed
    obtain ⟨inTable, chosen⟩ := List.mem_filter.mp ((joinedReplicas_perm _ _).mem_iff.mp joined)
    simp only [servable, Bool.and_eq_true, decide_eq_true_eq] at chosen
    exact stored.2.2.2 _ (replicaState_eq_some.mpr ⟨copy, inTable, chosen.1, rfl, chosen.2.1⟩)

end Reading

section Writing

variable {cfg : Config} {own : ChunkOwner} {turns : Nat → Turn} {w w' : World}

/-- The bucket and key of an object row. -/
def named (db : Database) (id : UUID) : Option (String × String) :=
  (db.view.objects id).map fun o => (o.bucket, o.key)

theorem named_streamChunk {turn : Turn} {chunk : Chunking.Chunk} {u : Unit}
    (h : streamChunk cfg own turn chunk w = (.ok u, w')) : named w'.db = named w.db := by
  obtain ⟨alloc, middle, res, available, allocated, -, committed⟩ := streamChunk_ok h
  obtain ⟨-, -, -, _, reserved, recorded⟩ := allocateChunk_ok allocated
  obtain ⟨_, -, -, position⟩ := reserveChunk_ok reserved
  obtain ⟨-, targeted⟩ := recordChunkTargets_ok recorded
  obtain ⟨row, -, -, -, -, -, session, view⟩ := commitChunk_ok (transaction_ok.mp committed)
  have objects : middle.view.objects = w.db.view.objects := by
    rw [targeted]
    rcases position with ⟨_, -, -, -, begun⟩ | ⟨-, -, -, begun⟩ <;>
      exact (congrArg View.objects begun : _)
  funext id
  have rows : w'.db.view.objects id = (middle.view.objects id).map _ :=
    congrFun (congrArg View.objects view) id
  rw [named, named, rows, objects, Option.map_map]
  refine Option.map_congr fun o _ => ?_
  dsimp only [Function.comp_apply]
  split <;> rfl

/-- What a loop reports about its chunks; it renames no object. -/
theorem streamChunks_totals {err : Chunking.Error} {cs : List Chunking.Chunk} {p : Progress}
    {res : UploadResult} (h : streamChunks cfg own turns err cs p w = (.ok res, w')) :
    res.sizeBytes = p.total + (cs.map (·.data)).flatten.length ∧
      res.etag = hex (sha256 (p.hashed ++ (cs.map (·.data)).flatten)) ∧
      named w'.db = named w.db := by
  induction cs generalizing p w with
  | nil =>
    unfold streamChunks finishStream at h
    split at h
    next =>
      obtain ⟨rfl, rfl⟩ : p.result = res ∧ w = w' := by simpa using h
      simp [Progress.result]
    next => split at h <;> cases h
  | cons chunk rest ih =>
    obtain ⟨_, middle, first, h⟩ := Procedure.bind_ok.mp h
    obtain ⟨size, etag, same⟩ := ih h
    refine ⟨?_, ?_, same.trans (named_streamChunk first)⟩
    · simp [size, Progress.add, Nat.add_assoc]
    · simp [etag, Progress.add, List.append_assoc]

variable {g : GatewayConfig} {env : Environment} {bucket key contentType : String} {body : Reader}

/-- What a successful stream of a whole body reports; it renames no object. -/
theorem streamUpload_totals {chunkSize : Nat} {res : UploadResult} (ended : body.err = .leaf .eof)
    (positive : 0 < chunkSize)
    (h : streamUpload cfg g.maxObjectSize turns body own chunkSize w = (.ok res, w')) :
    res.sizeBytes = body.bytes.length ∧ res.etag = hex (sha256 body.bytes) ∧
      named w'.db = named w.db := by
  obtain ⟨cs, e, loop, splits⟩ := streamUpload_eq cfg own turns g.maxObjectSize body positive
  rw [loop] at h
  have all : (cs.map (·.data)).flatten = body.bytes := by
    refine (splits.bytes fun excess => ?_).trans (by rw [counted, ended]; rfl)
    have finished := streamChunks_ended h
    simp [splits.excess excess] at finished
  simpa [all] using streamChunks_totals h

/-- What a successful PUT of a whole body has published. -/
theorem putObject_published {created : Created} (consistent : w.db.view.Consistent)
    (silent : w.nodes.answers = []) (unwritten : ∀ i n, w.nodes.files (env.turns i).newID n = none)
    (ended : body.err = .leaf .eof)
    (put : putObject g cfg env bucket key contentType body w = (.ok created, w')) :
    ∃ parts row, parts.flatten = body.bytes ∧ w'.db.view.Consistent ∧
      List.Forall₂ (Stored w') (committedChunks row.id w'.db) parts ∧
      w'.db.view.objects row.id = some row ∧ currentVersion bucket key row ∧
      row.sizeBytes = body.bytes.length ∧ row.chunkCount = parts.length ∧
      created = ⟨row.id, quoteETag (hex (sha256 body.bytes)), parts.length⟩ := by
  obtain ⟨⟨id, chunkSize⟩, first, opened, put⟩ := Procedure.bind_ok.mp put
  obtain ⟨-, positive, nodes, ⟨begins, -, began⟩, fresh⟩ := opened_ok consistent opened
  rcases out : storeBody g cfg env body ⟨id, chunkSize⟩ first with ⟨f | _, _⟩
  · rw [Procedure.catching_of_error out] at put
    obtain ⟨_, _, -, failed⟩ := Procedure.bind_ok.mp put
    cases failed
  rw [Procedure.catching_of_ok out] at put
  cases put
  obtain ⟨res, middle, streamed, out⟩ := Procedure.bind_ok.mp out
  obtain ⟨obj, _, completed, out⟩ := Procedure.bind_ok.mp out
  cases out
  obtain ⟨db, done, rfl⟩ := Procedure.within_ok.mp completed
  replace done := transaction_ok.mp done
  obtain ⟨parts, uploaded, bytes⟩ := uploaded_of_streamUpload
    (began ▸ consistent_run consistent begins) rfl fresh (nodes ▸ silent) streamed
  obtain ⟨size, etag, same⟩ := streamUpload_totals ended positive streamed
  obtain ⟨row, found, -, committed, -, -, rfl, view⟩ := completeUpload_ok done
  obtain ⟨rfl, rfl⟩ : row.bucket = bucket ∧ row.key = key := by
    obtain ⟨_, begin_, rfl⟩ := Procedure.within_ok.mp opened
    obtain ⟨begun, -, -, start, rfl, rfl, opening⟩ := Coordinator.beginUpload_ok begin_
    cases begun
    simpa [named, found, opening] using congrFun same env.objectID
  obtain rfl : row.id = id := (Table.mem_of_find? found).2
  have count : (committedChunks row.id middle.db).length = parts.length := by
    simpa using congrArg List.length uploaded.indices
  have declared : res.chunkCount = parts.length := by
    rw [← committed.2, ← count, committedChunks, List.length_insertionSort]
    simp [chunksOf, Table.select, List.filter_filter, Bool.and_comm]
  have after := uploaded.complete done
  refine ⟨parts, row.finish env.completedAt res.sizeBytes res.chunkCount.toNat res.etag,
    bytes.trans (by rw [counted, ended]; rfl), after.consistent, after.stored (nodes ▸ unwritten),
    ?_, currentVersion_iff.mpr ⟨rfl, rfl, rfl⟩, size, ?_, ?_⟩
  · rw [view]
    exact Function.update_self _ _ _
  · exact congrArg Int.toNat declared
  · rw [← etag, ← declared]
    rfl

/-- A GET behind a PUT of a whole body. If each chunk has an AVAILABLE copy on a node that is
not DEAD, the request is answered unless its range cannot be satisfied, with the length of what
it is for. If some listed copy of each chunk is served, that is what the client gets. -/
theorem get_putObject {calls : List Call} {created : Created}
    (reached : w.db = run step Database.empty calls) (silent : w.nodes.answers = [])
    (unwritten : ∀ i n, w.nodes.files (env.turns i).newID n = none)
    (ended : body.err = .leaf .eof) (fits : body.bytes.length < 2 ^ 63)
    (put : putObject g cfg env bucket key contentType body w = (.ok created, w'))
    (readable : Readable bucket key w'.db) {header : Bytes} (replies : Nat → Nat → NodeReply)
    {h : Heap UInt8} {buf : Slice} (valid : buf.Valid h)
    (satisfiable : parseRange header body.bytes.length ≠ .error .unsatisfiable) :
    ∃ obj layout response, getObject bucket key w'.db = .ok (obj, layout) ∧
      respond header obj.sizeBytes (layout.map placementOf) = .ok response ∧
      response.contentLength = (requested header body.bytes).length ∧
      created.etag = quoteETag (hex (sha256 body.bytes)) ∧
      ((∀ k span, response.spans[k]? = some span → Answered w'.nodes span.chunk (replies k)) →
        (streamDownload replies (fun _ => none) response.spans h buf).Complete
          (requested header body.bytes)) := by
  have consistent : w.db.view.Consistent := reached ▸ consistent_run consistent_empty calls
  obtain ⟨parts, row, bytes, after, stored, found, current, size, count, rfl⟩ :=
    putObject_published consistent silent unwritten ended put
  have served : ∀ c ∈ committedChunks row.id w'.db, joinedReplicas w'.db true c.id ≠ [] := by
    intro c listed
    obtain ⟨inTable, mine, -⟩ := mem_committedChunks.mp listed
    exact served_of_readable after readable found current c (mem_chunksOf.mpr ⟨inTable, mine⟩)
  have layout : chunksForObject row.id true w'.db =
      (committedChunks row.id w'.db).map (servedEntry w'.db) :=
    chunksForObject_eq_map fun c selected =>
      joinedReplicas_ne_nil.mp (served c ((List.mem_insertionSort _).mpr selected))
  have got : getObject bucket key w'.db =
      .ok (scanObject row, (committedChunks row.id w'.db).map (servedEntry w'.db)) := by
    obtain ⟨other, found', current', head⟩ := headObject_of_readable readable
    rw [(after.visible found' current').mp ⟨row.id, row, found, current, rfl⟩] at head
    rw [getObject, bind_eq_ok]
    refine ⟨_, head, getLayout_eq_ok.mpr ⟨(congrArg List.length layout).trans ?_, rfl, layout⟩⟩
    rw [List.length_map, stored.length_eq]
    exact count.symm
  have kept : List.Forall₂ (Kept w'.nodes)
      (((committedChunks row.id w'.db).map (servedEntry w'.db)).map placementOf) parts := by
    rw [List.map_map, List.forall₂_map_left_iff]
    exact ((List.forall₂_and_left _ _).mpr ⟨served, stored⟩).imp fun _ _ c => c.2.kept c.1
  rw [← bytes] at fits satisfiable size ⊢
  obtain ⟨response, answer, length, sends⟩ :=
    download_of_kept replies kept fits valid satisfiable
  rw [← size] at answer
  exact ⟨_, _, response, got, answer, length, rfl, sends⟩

theorem get_putObject_oneByte : ∃ obj layout response,
    getObject "bucket" "k" (putOneByte (.leaf .eof)).2.db = .ok (obj, layout) ∧
      respond [] obj.sizeBytes (layout.map placementOf) = .ok response ∧
      response.contentLength = 1 := by
  have ok : (putOneByte (.leaf .eof)).1.isOk = true ∧
      Readable "bucket" "k" (putOneByte (.leaf .eof)).2.db := by decide +kernel
  rcases put : putOneByte (.leaf .eof) with ⟨f | created, w'⟩ <;> rw [put] at ok
  · simp [Except.isOk, Except.toBool] at ok
  have valid : Slice.Valid (⟨[[0]]⟩ : Heap UInt8) ⟨0, 0, 1, 1⟩ :=
    ⟨by decide, by decide, by decide⟩
  obtain ⟨obj, layout, response, got, answer, length, -⟩ := get_putObject
    (show _ = run step Database.empty objectStored from rfl) rfl (fun _ _ => rfl) rfl (by decide)
    put ok.2 (fun _ _ => .stream [[7]] .eof) valid (show parseRange [] _ ≠ _ by decide)
  exact ⟨obj, layout, response, got, answer, length⟩

end Writing

end FlexStore.Gateway
