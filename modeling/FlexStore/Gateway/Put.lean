import FlexStore.Gateway.Recorded
import FlexStore.Metadata.Declared

/-!
# Single-shot uploads

`putObject` opens an upload, streams the body and completes the upload; any failure after
the first step aborts it. What a client may rely on is `Faithful`: the upload is completed
only for a body that ended with `io.EOF`, with exactly the bytes of the body, and a body
that ended with another error leaves the key as it was.

The splitter cannot tell the error of a broken body from the end of a finished one when the
error is, or wraps, `io.EOF` or `io.ErrUnexpectedEOF`. `putObject_faithful_iff` says that
these are the bodies that are not stored faithfully, unless the size limit stops them.
-/

namespace FlexStore.Gateway

open Chunking Coordinator Digest Go Metadata Relational Rpc Transition

structure GatewayConfig where
  chunkSize : Int
  maxObjectSize : Int

/-- What the coordinator and the nodes decide about one request. -/
structure Environment where
  objectID : UUID
  begunAt : Time
  completedAt : Time
  abortedAt : Time
  turns : Nat → Turn

def quoteETag (e : String) : String := if e = "" then "" else "\"" ++ e ++ "\""

structure Created where
  objectID : UUID
  etag : String
  chunkCount : Int
  deriving DecidableEq, Repr

/-- The part of a PUT behind `BeginUpload`. -/
def storeBody (g : GatewayConfig) (cfg : Config) (env : Environment) (body : Reader)
    (begun : BeginUploadResponse) : Procedure World Failure Created := do
  let res ← streamUpload cfg g.maxObjectSize env.turns body ⟨some begun.objectID, none⟩
    begun.chunkSize
  let obj ← coordinator .complete
    (completeUpload env.completedAt begun.objectID res.sizeBytes res.chunkCount res.etag)
  pure ⟨obj.id, quoteETag obj.etag, res.chunkCount⟩

/-- The deferred part of a PUT that did not succeed: the upload is aborted, or its chunks
would leak until the reaper notices. -/
def abandon (env : Environment) (begun : BeginUploadResponse) (failure : Failure) :
    Procedure World Failure Created := do
  .attempt (coordinator .complete
    (abortUpload env.abortedAt begun.objectID "gateway aborted upload"))
  .fail failure

/-- `PUT /objects/{bucket}/{key...}`. -/
def putObject (g : GatewayConfig) (cfg : Config) (env : Environment)
    (bucket key contentType : String) (body : Reader) : Procedure World Failure Created := do
  let contentType := if contentType = "" then defaultContentType else contentType
  let begun ← coordinator .begin_
    (beginUpload cfg env.begunAt env.objectID bucket key contentType g.chunkSize)
  (storeBody g cfg env body begun).catching (abandon env begun)

/-- The request failed because a call to the coordinator or to the nodes did. -/
def Failure.byCall : Failure → Bool
  | .begin_ _ | .allocate _ | .replicas _ | .commit _ | .complete _ => true
  | .chunker _ | .tooLarge _ | .body _ | .stalled => false

/-- An object's committed chunk rows in index order. -/
def committedChunks (objectID : UUID) (db : Database) : List ChunkRow :=
  (db.chunks.select fun c => c.owner = .object objectID && c.state = .committed).insertionSort
    fun a b => a.index ≤ b.index

/-- The row describes the piece, and every copy that counts is a file with its bytes. -/
def Stored (w : World) (row : ChunkRow) (piece : Bytes) : Prop :=
  row.sizeBytes = piece.length ∧ row.checksum = some (sha256 piece) ∧
    (∃ n, w.db.replicaState row.id n = some .available) ∧
    ∀ n, w.db.replicaState row.id n = some .available → w.nodes.files row.id n = some piece

/-- What a client may rely on. -/
structure Faithful (bucket key : String) (body : Reader) (w : World)
    (out : Except Failure Created × World) : Prop where
  completed : ∀ created, out.1 = .ok created → body.err = .leaf .eof ∧
    ∃ pieces, List.Forall₂ (Stored out.2) (committedChunks created.objectID out.2.db) pieces ∧
      pieces.flatten = body.bytes
  failed : body.err ≠ .leaf .eof → (∃ failure, out.1 = .error failure) ∧
    headObject bucket key out.2.db = headObject bucket key w.db

section Errors

variable {cfg : Config} {owner : ChunkOwner} {turns : Nat → Turn}

theorem raises_streamChunk {turn : Turn} {chunk : Chunking.Chunk} :
    Procedure.Raises (Failure.byCall · = true) (streamChunk cfg owner turn chunk) := by
  unfold streamChunk
  refine Procedure.Raises.bind (Procedure.raises_within fun _ => rfl) fun alloc => ?_
  refine Procedure.Raises.bind (fun _ _ _ h => by cases h) fun out => ?_
  rcases out with ⟨res, none | err⟩
  · exact Procedure.Raises.bind (Procedure.raises_within fun _ => rfl)
      fun _ => Procedure.raises_pure _
  · refine Procedure.Raises.bind ?_ fun _ => Procedure.raises_fail rfl
    unfold recordFailedCommit
    split
    next => exact Procedure.raises_pure _
    next => exact fun _ _ _ h => by cases h

/-- The loop fails in a call, or because the stream did not end. -/
theorem raises_streamChunks {err : Chunking.Error} (cs : List Chunking.Chunk) (p : Progress) :
    Procedure.Raises (fun f => f.byCall = true ∨ err.is .eof = false)
      (streamChunks cfg owner turns err cs p) := by
  induction cs generalizing p with
  | nil =>
    unfold streamChunks finishStream
    split
    next => exact Procedure.raises_pure _
    next broken =>
      split <;> exact Procedure.raises_fail (Or.inr (Bool.eq_false_iff.mpr broken))
  | cons chunk rest ih =>
    exact Procedure.Raises.bind (fun s s' e h => Or.inl (raises_streamChunk s s' e h))
      fun _ => ih _

/-- The body looks finished to the splitter, and its bytes are within the size limit. -/
def LooksFinished (maxObjectSize : Int) (chunkSize : Nat) (body : Reader) : Prop :=
  (body.err.is .eof = true ∨ body.err.is .unexpectedEOF = true) ∧
    ¬(0 < maxObjectSize ∧ maxObjectSize < (counted chunkSize body.err body.bytes).length)

/-- Unless a call fails, an upload succeeds exactly for the bodies that look finished. -/
theorem looksFinished_iff (cfg : Config) (owner : ChunkOwner) (turns : Nat → Turn)
    (maxObjectSize : Int) (body : Reader) {chunkSize : Nat} (positive : 0 < chunkSize) (w : World)
    (served : ∀ f w', streamUpload cfg maxObjectSize turns body owner chunkSize w =
      (.error f, w') → f.byCall = false) :
    LooksFinished maxObjectSize chunkSize body ↔
      ∃ res w', streamUpload cfg maxObjectSize turns body owner chunkSize w = (.ok res, w') := by
  obtain ⟨cs, e, loop, splits⟩ := streamUpload_eq cfg owner turns maxObjectSize body positive
  have finished : LooksFinished maxObjectSize chunkSize body ↔ e.is .eof = true := by
    constructor
    · rintro ⟨verdict, within⟩
      rw [splits.ends fun excess => within ⟨excess.1, by simpa using excess.2⟩]
      simpa using verdict
    · intro ended
      by_cases excess : 0 < maxObjectSize ∧
          maxObjectSize < (counted chunkSize body.err body.bytes).length
      · simp [splits.excess ⟨excess.1, by simpa using excess.2⟩] at ended
      · rw [splits.ends fun h => excess ⟨h.1, by simpa using h.2⟩] at ended
        exact ⟨by simpa using ended, excess⟩
  rw [finished]
  constructor
  · intro ended
    rcases out : streamUpload cfg maxObjectSize turns body owner chunkSize w with ⟨f | res, w'⟩
    · have called := served f w' out
      rw [loop] at out
      rcases raises_streamChunks cs _ w w' f out with byCall | broken
      · simp [called] at byCall
      · simp [ended] at broken
    · exact ⟨res, w', rfl⟩
  · rintro ⟨res, w', out⟩
    rw [loop] at out
    exact streamChunks_ended out

end Errors

section Chunks

variable {cfg : Config} {turns : Nat → Turn} {start : Nodes} {pieces : List Bytes} {w w' : World}
  {id : UUID}

/-- The chunk row of an uploaded piece, whatever else is known about it. -/
theorem Uploaded.settled {owner : Owner} (uploaded : Uploaded cfg owner turns start pieces w)
    {i : Nat} {piece : Bytes} (listed : pieces[i]? = some piece) {c : UUID} {row : ChunkRow}
    (found : w.db.view.chunks c = some row) (mine : row.owner = owner) (position : row.index = i) :
    c = (turns i).newID ∧ row.state = .committed ∧ ∃ targets,
      Recorded cfg owner i piece targets (start.files c) (w.account c) := by
  obtain ⟨placement, -, recorded⟩ := uploaded.recorded listed
  obtain ⟨row', found', mine', position', state, -⟩ := recorded.row
  obtain rfl := uploaded.consistent.index found found' (mine.trans mine'.symm)
    (position.trans position'.symm)
  obtain rfl := Option.some.inj (found.symm.trans found')
  exact ⟨rfl, state, placement.targets, recorded⟩

theorem mem_committedChunks {db : Database} {row : ChunkRow} :
    row ∈ committedChunks id db ↔
      db.view.chunks row.id = some row ∧ row.owner = .object id ∧ row.state = .committed := by
  rw [committedChunks, List.mem_insertionSort, Table.select, List.mem_filter]
  constructor
  · rintro ⟨member, chosen⟩
    exact ⟨Table.find?_of_mem member, by simpa using chosen⟩
  · rintro ⟨found, chosen⟩
    exact ⟨(Table.mem_of_find? found).1, by simpa using chosen⟩

theorem nodup_committedChunks (db : Database) : (committedChunks id db).Nodup :=
  (List.perm_insertionSort _ _).nodup_iff.mpr (Table.nodup_select _ _).of_map

/-- The committed chunks of an upload have the indices of its pieces. -/
theorem Uploaded.indices (uploaded : Uploaded cfg (.object id) turns start pieces w) :
    (committedChunks id w.db).map (·.index) = List.range pieces.length := by
  refine List.Perm.eq_of_pairwise' (r := (· ≤ ·))
    (List.pairwise_map.mpr (List.pairwise_insertionSort _ _)) List.pairwise_le_range ?_
  refine (List.perm_ext_iff_of_nodup ?_ List.nodup_range).mpr fun i => ?_
  · refine (List.nodup_map_iff_inj_on (nodup_committedChunks _)).mpr fun a first b second same => ?_
    obtain ⟨found, mine, -⟩ := mem_committedChunks.mp first
    obtain ⟨found', mine', -⟩ := mem_committedChunks.mp second
    have ids := uploaded.consistent.index found found' (mine.trans mine'.symm) same
    exact Option.some.inj (found.symm.trans (ids ▸ found'))
  · rw [List.mem_range, List.mem_map]
    constructor
    · rintro ⟨row, member, rfl⟩
      obtain ⟨found, mine, -⟩ := mem_committedChunks.mp member
      exact uploaded.rows found mine
    · intro below
      obtain ⟨_, -, recorded⟩ := uploaded.recorded (List.getElem?_eq_getElem below)
      obtain ⟨row, found, mine, position, state, -⟩ := recorded.row
      have named : row.id = (turns i).newID := chunk_id found
      exact ⟨row, mem_committedChunks.mpr ⟨named ▸ found, mine, state⟩, position⟩

/-- If no node had a file for the new chunks, the copies of an upload are its pieces. -/
theorem Uploaded.stored (uploaded : Uploaded cfg (.object id) turns start pieces w)
    (unwritten : ∀ i n, start.files (turns i).newID n = none) :
    List.Forall₂ (Stored w) (committedChunks id w.db) pieces := by
  have indices := uploaded.indices
  refine List.forall₂_iff_get.mpr ⟨by simpa using congrArg List.length indices, ?_⟩
  intro i below within
  rw [List.get_eq_getElem, List.get_eq_getElem]
  have position : (committedChunks id w.db)[i].index = i := by
    have each := congrArg (·[i]?) indices
    simpa [below, within] using each
  obtain ⟨found, mine, -⟩ := mem_committedChunks.mp (List.getElem_mem below)
  obtain ⟨named, -, targets, recorded⟩ :=
    uploaded.settled (List.getElem?_eq_getElem within) found mine position
  obtain ⟨row, found', -, -, -, size, checksum⟩ := recorded.row
  obtain rfl := Option.some.inj (found.symm.trans found')
  refine ⟨size, checksum, ?_, fun n available => ?_⟩
  · have enough : 0 < ((w.account (committedChunks id w.db)[i].id).answers.filter
        (·.acknowledged)).length := by
      have := recorded.quorum
      omega
    obtain ⟨x, chosen⟩ := List.exists_mem_of_length_pos enough
    obtain ⟨member, yes⟩ := List.mem_filter.mp chosen
    exact ⟨x.nodeID, (recorded.available _).mpr ⟨x, member, yes, rfl⟩⟩
  · obtain ⟨x, member, yes, rfl⟩ := (recorded.available n).mp available
    obtain ⟨bytes, held, -, new⟩ := recorded.held x member yes
    exact (recorded.files x member).trans (held.trans (congrArg some (new (named ▸ unwritten i _))))

theorem completeUpload_id {now : Time} {sizeBytes chunkCount : Int} {etag : String} {obj : Object}
    {db db' : Database}
    (h : Metadata.completeUpload now id sizeBytes chunkCount etag db = .ok (obj, db')) :
    obj.id = id := by
  obtain ⟨row, found, -, -, -, -, rfl, -⟩ := completeUpload_ok h
  exact (Table.mem_of_find? found).2

/-- Completing the upload leaves its accounts alone. -/
theorem Uploaded.complete (uploaded : Uploaded cfg (.object id) turns start pieces w)
    {now : Time} {sizeBytes chunkCount : Int} {etag : String} {obj : Object} {db : Database}
    (h : Metadata.completeUpload now id sizeBytes chunkCount etag w.db = .ok (obj, db)) :
    Uploaded cfg (.object id) turns start pieces { w with db } := by
  obtain ⟨row, found, -, -, -, -, -, view⟩ := completeUpload_ok h
  have chunks : db.view.chunks = w.db.view.chunks := by rw [view]; rfl
  have named : row.id = id := (Table.mem_of_find? found).2
  have slots {c : UUID} {chunk : ChunkRow} (held : w.db.view.chunks c = some chunk)
      (mine : chunk.owner = .object id) : db.view.slots c = w.db.view.slots c := by
    rw [view]
    funext n
    simp [View.promote, View.supersede, View.condemnOwned, View.condemn, View.ownedBy,
      View.mapObjects, View.objectWith, held, mine, found, supersededBy, named]
  have accounts {c : UUID} {chunk : ChunkRow} (held : w.db.view.chunks c = some chunk)
      (mine : chunk.owner = .object id) : World.account { w with db } c = w.account c := by
    simp only [World.account, chunks, slots held mine]
  refine ⟨?_, uploaded.bound, fun found => uploaded.rows (chunks ▸ found), fun listed => ?_,
    uploaded.untouched⟩
  · have ran : exec ⟨now, .completeUpload id sizeBytes chunkCount etag⟩ w.db =
        .ok (.object obj, db) := by
      simp [exec, h]
    exact (exec_change ran).consistent uploaded.consistent
  · obtain ⟨placement, place, recorded⟩ := uploaded.recorded listed
    obtain ⟨chunk, held, mine, -⟩ := recorded.row
    exact ⟨placement, place, accounts held mine ▸ recorded⟩

end Chunks

section Put

variable {g : GatewayConfig} {cfg : Config} {env : Environment} {bucket key contentType : String}
  {body : Reader} {w : World} {begun : BeginUploadResponse}

/-- What becomes of a body if no call fails. One that looks finished is stored as the chunks
of the object; any other one is given up before anything is published. -/
theorem storeBody_cases (g : GatewayConfig) (cfg : Config) (env : Environment) (body : Reader)
    (positive : 0 < begun.chunkSize) (consistent : w.db.view.Consistent)
    (fresh : ∀ c row, w.db.view.chunks c = some row → row.owner ≠ .object begun.objectID)
    (silent : w.nodes.answers = []) (unwritten : ∀ i n, w.nodes.files (env.turns i).newID n = none)
    (served : ∀ f w', storeBody g cfg env body begun w = (.error f, w') → f.byCall = false) :
    (LooksFinished g.maxObjectSize begun.chunkSize body ∧ ∃ created w',
      storeBody g cfg env body begun w = (.ok created, w') ∧ ∃ pieces,
        List.Forall₂ (Stored w') (committedChunks created.objectID w'.db) pieces ∧
        pieces.flatten = counted begun.chunkSize body.err body.bytes) ∨
    (¬LooksFinished g.maxObjectSize begun.chunkSize body ∧ ∃ f w',
      storeBody g cfg env body begun w = (.error f, w') ∧
      ∃ calls : List Call, (∀ call ∈ calls, Withholding call.op) ∧
        w'.db = run step w.db calls) := by
  have finished := looksFinished_iff cfg ⟨some begun.objectID, none⟩ env.turns g.maxObjectSize body
    positive w fun f w' out => served f w' (Procedure.bind_of_error out)
  rw [finished]
  rcases streamed : streamUpload cfg g.maxObjectSize env.turns body ⟨some begun.objectID, none⟩
    begun.chunkSize w with ⟨f | res, middle⟩
  · refine Or.inr ⟨?_, f, middle, Procedure.bind_of_error streamed, ?_⟩
    · rintro ⟨res, w', out⟩
      cases out
    · simpa only [streamed] using issues_streamUpload cfg ⟨some begun.objectID, none⟩ env.turns
        g.maxObjectSize body begun.chunkSize w
  · refine Or.inl ⟨⟨res, middle, rfl⟩, ?_⟩
    have stored : storeBody g cfg env body begun w = _ := Procedure.bind_of_ok streamed
    rcases completed : coordinator .complete (Coordinator.completeUpload env.completedAt
      begun.objectID res.sizeBytes res.chunkCount res.etag) middle with ⟨f | obj, last⟩
    · have byCall : f.byCall = true :=
        Procedure.raises_within (p := (Failure.byCall · = true)) (fun _ => rfl) _ _ _ completed
      simp [served f last (stored.trans (Procedure.bind_of_error completed))] at byCall
    · obtain ⟨db, done, rfl⟩ := Procedure.within_ok.mp completed
      have done := transaction_ok.mp done
      obtain ⟨pieces, uploaded, bytes⟩ :=
        uploaded_of_streamUpload consistent rfl fresh silent streamed
      have named : obj.id = begun.objectID := completeUpload_id done
      refine ⟨_, _, stored.trans (Procedure.bind_of_ok completed), pieces, ?_, bytes⟩
      rw [named]
      exact (uploaded.complete done).stored unwritten

/-- An upload that was opened has a chunk size and no chunks, and nothing was published. -/
theorem opened_ok {now : Time} {id : UUID} {first : World} (consistent : w.db.view.Consistent)
    (h : coordinator .begin_ (Coordinator.beginUpload cfg now id bucket key contentType
      g.chunkSize) w = (.ok begun, first)) :
    begun.chunkSize = (cfg.chunkSizeFor g.chunkSize).toNat ∧ 0 < begun.chunkSize ∧
      first.nodes = w.nodes ∧
      (∃ calls : List Call, (∀ call ∈ calls, Withholding call.op) ∧
        first.db = run step w.db calls) ∧
      ∀ c row, first.db.view.chunks c = some row → row.owner ≠ .object begun.objectID := by
  have issued : Issues World.db Withholding (coordinator .begin_
      (Coordinator.beginUpload cfg now id bucket key contentType g.chunkSize)) :=
    issues_coordinator (issues_beginUpload fun _ _ => rfl)
  have calls := issued w
  rw [h] at calls
  obtain ⟨db, opened, rfl⟩ := Procedure.within_ok.mp h
  obtain ⟨rfl, positive, absent, _, -, -, view⟩ := Coordinator.beginUpload_ok opened
  refine ⟨rfl, by simpa using positive, rfl, calls, fun c row found mine => ?_⟩
  rw [view] at found
  exact consistent.unowned absent found mine

theorem issues_abandon (env : Environment) (begun : BeginUploadResponse) (failure : Failure) :
    Issues World.db Withholding (abandon env begun failure) :=
  Issues.bind (Issues.attempt (issues_coordinator (issues_abortUpload rfl))) fun _ => issues_fail _

/-- If no call of the request fails, a PUT is faithful exactly when the body ended with
`io.EOF` itself or does not look finished. -/
theorem putObject_faithful_iff {calls : List Call}
    (reached : w.db = run step Database.empty calls) (silent : w.nodes.answers = [])
    (unwritten : ∀ i n, w.nodes.files (env.turns i).newID n = none)
    (served : ∀ f, (putObject g cfg env bucket key contentType body w).1 = .error f →
      f.byCall = false) :
    Faithful bucket key body w (putObject g cfg env bucket key contentType body w) ↔
      body.err = .leaf .eof ∨
        ¬LooksFinished g.maxObjectSize (cfg.chunkSizeFor g.chunkSize).toNat body := by
  have consistent : w.db.view.Consistent := reached ▸ consistent_run consistent_empty calls
  rcases opened : coordinator .begin_ (Coordinator.beginUpload cfg env.begunAt env.objectID bucket
    key (if contentType = "" then defaultContentType else contentType) g.chunkSize) w with
    ⟨f | begun, first⟩
  · have byCall : f.byCall = true :=
      Procedure.raises_within (p := (Failure.byCall · = true)) (fun _ => rfl) _ _ _ opened
    have failed : putObject g cfg env bucket key contentType body w = (.error f, first) :=
      Procedure.bind_of_error opened
    simp [served f (by rw [failed])] at byCall
  have put : putObject g cfg env bucket key contentType body w = _ := Procedure.bind_of_ok opened
  obtain ⟨sized, positive, nodes, ⟨begins, withheld, began⟩, fresh⟩ := opened_ok consistent opened
  have consistent' : first.db.view.Consistent := began ▸ consistent_run consistent begins
  rw [put] at served ⊢
  rw [← sized]
  rcases storeBody_cases g cfg env body positive consistent' fresh (nodes ▸ silent)
    (nodes ▸ unwritten) fun f w' out => served f (by rw [Procedure.catching_of_error out]; rfl) with
    ⟨finished, created, w', out, pieces, stored, bytes⟩ |
    ⟨unfinished, f, w', out, streams, withheld', streamed⟩
  · rw [Procedure.catching_of_ok out]
    simp only [finished, not_true, or_false]
    constructor
    · exact fun faithful => (faithful.completed created rfl).1
    · intro ended
      refine ⟨fun other same => ⟨ended, pieces, ?_, ?_⟩, fun broken => absurd ended broken⟩
      · rwa [← Except.ok.inj same]
      · rw [bytes, counted, ended]
        rfl
  · rw [Procedure.catching_of_error out]
    obtain ⟨aborts, withheld'', aborted⟩ := issues_abandon env begun f w'
    refine iff_of_true ⟨fun _ same => (by cases same), fun _ => ⟨⟨f, rfl⟩, ?_⟩⟩
      (Or.inr unfinished)
    rw [aborted, streamed, began, ← run_append, ← run_append, reached]
    refine headObject_run_private (consistent_run consistent_empty calls)
      (represents_run consistent_empty represents_empty calls) ?_ bucket key
    simp only [List.mem_append]
    rintro call (h | h | h)
    exacts [withheld call h, withheld' call h, withheld'' call h]

/-- One registered node, and an object under the key. -/
def objectStored : List Call :=
  [⟨0, .upsertNode "n1" "n1:9000" .healthy {} 0⟩, ⟨1, .beginUpload 1 "bucket" "k" "" 2⟩,
    ⟨2, .completeUpload 1 0 0 "old"⟩]

def oneNode : Environment where
  objectID := 2
  begunAt := 3
  completedAt := 6
  abortedAt := 6
  turns i := ⟨10 + i, 4, 4, 5, .ok ⟨["n1"], by decide⟩, ⟨fun _ => .served, fun l => l, .refl⟩⟩

/-- A PUT of one byte whose body ends with the given error. -/
def putOneByte (err : Chunking.Error) : Except Failure Created × World :=
  putObject ⟨2, 0⟩ ⟨2, 1⟩ oneNode "bucket" "k" "" ⟨[[7]], err, false⟩ (freshWorld objectStored)

theorem putObject_faithful_iff_wholeBody :
    (putOneByte (.leaf .eof)).1.isOk = true ∧
      Faithful "bucket" "k" ⟨[[7]], .leaf .eof, false⟩ (freshWorld objectStored)
        (putOneByte (.leaf .eof)) := by
  have ok : (putOneByte (.leaf .eof)).1.isOk = true := by decide +kernel
  refine ⟨ok, (putObject_faithful_iff (show _ = run step Database.empty objectStored from rfl) rfl
    (fun _ _ => rfl) fun f failed => ?_).mpr (Or.inl rfl)⟩
  change (putOneByte (.leaf .eof)).1 = .error f at failed
  simp [failed, Except.isOk, Except.toBool] at ok

/-- The client disconnects after one byte, and the byte replaces the object. -/
theorem disconnected_body_replaces_object :
    (putOneByte (.leaf .unexpectedEOF)).1.isOk = true ∧
      (headObject "bucket" "k" (freshWorld objectStored).db).toOption.map (·.id) = some 1 ∧
      (headObject "bucket" "k" (putOneByte (.leaf .unexpectedEOF)).2.db).toOption.map (·.id) =
        some 2 := by
  decide +kernel

end Put

end FlexStore.Gateway
