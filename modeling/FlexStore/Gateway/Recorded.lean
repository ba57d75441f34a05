import FlexStore.Gateway.Upload

/-!
# What a successful upload has recorded

An `Account` is everything the world says about one chunk: its row, its copies, the
answers of the nodes and their files. A turn of the upload loop settles the account of a
fresh chunk and leaves every other account alone, so the accounts of a whole upload are
settled one by one (`Uploaded`).
-/

namespace FlexStore.Gateway

open Chunking Coordinator Digest Go Metadata Relational Rpc Transition

/-- Everything the world says about one chunk. -/
structure Account where
  row : Option ChunkRow
  slots : NodeID → Slot
  answers : List Answer
  files : NodeID → Option Bytes

def World.account (w : World) (c : UUID) : Account where
  row := w.db.view.chunks c
  slots := w.db.view.slots c
  answers := w.nodes.log c
  files := w.nodes.files c

/-- The chunk is committed with the size and digest of `piece`, its targets have answered,
enough of them with a file of that digest, and the copies are recorded as they answered.
`before` are the files that the nodes had when the upload started. -/
structure Recorded (cfg : Config) (owner : Owner) (index : Nat) (piece : Bytes)
    (targets : List NodeID) (before : NodeID → Option Bytes) (a : Account) : Prop where
  row : ∃ row, a.row = some row ∧ row.owner = owner ∧ row.index = index ∧
    row.state = .committed ∧ row.sizeBytes = piece.length ∧ row.checksum = some (sha256 piece)
  answered : (a.answers.map (·.nodeID)).Perm targets
  distinct : (a.answers.map (·.nodeID)).Nodup
  quorum : max 1 cfg.minWriteReplicas ≤ (a.answers.filter (·.acknowledged)).length
  held : ∀ x ∈ a.answers, x.acknowledged = true → ∃ bytes, x.held = some bytes ∧
    sha256 bytes = sha256 piece ∧ (before x.nodeID = none → bytes = piece)
  files : ∀ x ∈ a.answers, a.files x.nodeID = x.held
  available : ∀ n, (a.slots n).replica = some .available ↔
    ∃ x ∈ a.answers, x.acknowledged = true ∧ x.nodeID = n
  unavailable : ∀ n, (a.slots n).replica = some .unavailable ↔
    ∃ x ∈ a.answers, x.acknowledged = false ∧ x.nodeID = n

/-- An index is converted faithfully if the result is not negative. -/
theorem int32_eq {n : Nat} (small : n ≤ 2 ^ 31) (nonneg : 0 ≤ int32 n) :
    n < 2 ^ 31 ∧ int32 n = n := by
  unfold int32 at *
  rw [Int.bmod_def] at nonneg ⊢
  split at nonneg <;> omega

section Turn

variable {cfg : Config} {own : ChunkOwner} {owner : Owner} {turn : Turn}
  {chunk : Chunking.Chunk} {w w' : World}

/-- What the rows say about a fresh chunk that was allocated and then committed, and about
every other chunk. -/
theorem rows_of_turn {db middle db' : Database} {reservedAt recordedAt committedAt : Time}
    {newID : UUID} {place : Except Code Placement} {index : Nat} {sum : Checksum} {size : Nat}
    {alloc : Allocation} {succeeded failed : List NodeID} {available : Nat}
    (consistent : db.view.Consistent) (single : own.single = some owner)
    (free : ∀ c row, db.view.chunks c = some row → row.owner = owner → row.index ≠ index)
    (allocated : allocateChunk cfg reservedAt recordedAt newID place own index size db =
      (.ok alloc, middle))
    (committed : Coordinator.commitChunk cfg committedAt alloc.chunkID sum size succeeded failed
      middle = (.ok available, db')) :
    alloc.chunkID = newID ∧ db.view.chunks newID = none ∧
      (∀ c, c ≠ newID → db'.view.chunks c = db.view.chunks c ∧
        db'.view.slots c = db.view.slots c) ∧
      (∃ row, db'.view.chunks newID = some row ∧ row.owner = owner ∧ row.index = index ∧
        row.state = .committed ∧ row.sizeBytes = size ∧ row.checksum = some sum) ∧
      ∀ n, (db'.view.slots newID n).replica =
        if n ∈ succeeded then some .available
        else if n ∈ alloc.placement.targets then
          some (if n ∈ failed then .unavailable else .writing)
        else none := by
  obtain ⟨-, -, -, reserved_, reserved, recorded⟩ := allocateChunk_ok allocated
  obtain ⟨_, single', -, position⟩ := reserveChunk_ok reserved
  obtain rfl := Option.some.inj (single.symm.trans single')
  obtain ⟨-, targeted⟩ := recordChunkTargets_ok recorded
  rcases position with ⟨old, found, mine, taken, -⟩ | ⟨same, fresh, -, begun⟩
  · exact absurd taken (free _ old found mine)
  obtain ⟨row, found, -, -, -, -, session, view⟩ := commitChunk_ok (transaction_ok.mp committed)
  rw [targeted, begun, same] at found view
  obtain rfl := Option.some.inj (found.symm.trans (Function.update_self _ _ _))
  rw [same] at fresh
  have empty (n : NodeID) : (db.view.slots newID n).replica = none := by
    by_contra held
    have known := consistent.copy (Option.ne_none_iff_isSome.mp held)
    simp [View.referenced, fresh] at known
  have after : db'.view.chunks newID = some _ :=
    (congrFun (congrArg View.chunks view) newID).trans (Function.update_self _ _ _)
  refine ⟨same, fresh, fun c other => ⟨?_, ?_⟩, ⟨_, after, rfl, rfl, rfl, rfl, rfl⟩, fun n => ?_⟩
  · rw [view]
    simp [View.setReplicas, other]
  · rw [view]
    simp [View.mapObjects, View.mapUploads, View.acknowledge, View.setReplicas, View.mapReplicas,
      other, other.symm]
  · rw [view]
    by_cases acknowledged : n ∈ succeeded <;> by_cases target : n ∈ alloc.placement.targets <;>
      simp [View.mapObjects, View.mapUploads, View.acknowledge, View.setReplicas,
        View.mapReplicas, acknowledged, target, empty]

/-- The copies are recorded as the nodes answered: the targets are the nodes of the log, and
those that acknowledged are told from those that did not. -/
theorem copies_of_log {log : List Answer} {targets succeeded failed : List NodeID}
    {state : NodeID → Option ReplicaState} (distinct : (log.map (·.nodeID)).Nodup)
    (order : (log.map (·.nodeID)).Perm targets)
    (acknowledged : succeeded = (log.filter (·.acknowledged)).map (·.nodeID))
    (refused : failed = (log.filter (!·.acknowledged)).map (·.nodeID))
    (recorded : ∀ n, state n = if n ∈ succeeded then some .available
      else if n ∈ targets then some (if n ∈ failed then .unavailable else .writing) else none)
    (n : NodeID) :
    (state n = some .available ↔ ∃ x ∈ log, x.acknowledged = true ∧ x.nodeID = n) ∧
      (state n = some .unavailable ↔ ∃ x ∈ log, x.acknowledged = false ∧ x.nodeID = n) := by
  have success : n ∈ succeeded ↔ ∃ x ∈ log, x.acknowledged = true ∧ x.nodeID = n := by
    simp [acknowledged, and_assoc]
  have failure : n ∈ failed ↔ ∃ x ∈ log, x.acknowledged = false ∧ x.nodeID = n := by
    simp [refused, and_assoc]
  rw [← success, ← failure, recorded]
  -- A node of which both is said would have answered twice.
  have once : n ∈ failed → n ∉ succeeded := by
    rw [success, failure]
    rintro ⟨x, listed, no, rfl⟩ ⟨y, also, yes, same⟩
    obtain rfl := List.inj_on_of_nodup_map distinct also listed same
    simp [no] at yes
  have target : n ∈ failed → n ∈ targets := by
    rw [failure]
    rintro ⟨x, listed, -, rfl⟩
    exact order.mem_iff.mp (List.mem_map.mpr ⟨x, listed, rfl⟩)
  by_cases yes : n ∈ succeeded
  · simp [yes, mt once (not_not.mpr yes)]
  · by_cases no : n ∈ failed
    · simp [yes, no, target no]
    · by_cases listed : n ∈ targets <;> simp [yes, no, listed]

/-- A successful turn settles the account of a fresh chunk and leaves the others alone. -/
theorem account_of_turn {u : Unit} (consistent : w.db.view.Consistent)
    (single : own.single = some owner) (small : chunk.index ≤ 2 ^ 31)
    (free : ∀ c row, w.db.view.chunks c = some row → row.owner = owner → row.index ≠ chunk.index)
    (quiet : w.db.view.chunks turn.newID = none → w.nodes.log turn.newID = [])
    (h : streamChunk cfg own turn chunk w = (.ok u, w')) :
    chunk.index < 2 ^ 31 ∧ w.db.view.chunks turn.newID = none ∧
      (∀ c, c ≠ turn.newID → w'.account c = w.account c) ∧
      ∃ placement, turn.place = .ok placement ∧ Recorded cfg owner chunk.index chunk.data
        placement.targets (w.nodes.files turn.newID) (w'.account turn.newID) := by
  obtain ⟨alloc, middle, res, available, allocated, sent, committed⟩ := streamChunk_ok h
  obtain ⟨nonneg, place, least, -⟩ := allocateChunk_ok allocated
  obtain ⟨below, index⟩ := int32_eq small nonneg
  rw [index] at allocated
  obtain ⟨same, fresh, others, row, slots⟩ :=
    rows_of_turn consistent single free allocated committed
  obtain ⟨log, answers, nodes, succeeded, failed, enough⟩ :=
    write_ok alloc.placement.distinct sent
  rw [same] at answers
  have mine : ∀ x ∈ log, x.chunkID = turn.newID := fun x member =>
    (mem_answersTo (answers ▸ member)).1
  have order : (log.map (·.nodeID)).Perm alloc.placement.targets := by
    rw [answers, map_nodeID_answersTo]
    exact turn.fan.perm _
  have distinct := order.nodup_iff.mpr alloc.placement.distinct
  refine ⟨below, fresh, fun c other => ?_, alloc.placement, place, ?_⟩
  · obtain ⟨chunks, copies⟩ := others c other
    have files : w'.nodes.files c = w.nodes.files c := by
      rw [nodes]
      exact funext fun n => files_foldl_answer_of_not_mem fun x member about =>
        other (about.1.trans (mine x member))
    simp only [World.account, chunks, copies, files]
    rw [nodes, log_foldl_answer_other mine other]
  · have logged : (w'.account turn.newID).answers = log := by
      rw [World.account, nodes, log_foldl_answer_self mine, quiet fresh, List.nil_append]
    refine ⟨row, ?_, ?_, ?_, ?_, ?_, ?_, ?_⟩ <;> rw [logged]
    · exact order
    · exact distinct
    · simpa [succeeded, least] using enough
    · intro x member acknowledged
      obtain ⟨-, sent⟩ := mem_answersTo (answers ▸ member)
      rw [sent] at acknowledged
      obtain ⟨bytes, held, digest, new⟩ := writeOne_acknowledged acknowledged
      exact ⟨bytes, sent ▸ held, digest, new⟩
    · intro x member
      rw [World.account, nodes, ← mine x member]
      exact files_foldl_answer_of_mem distinct member
    · exact fun n => (copies_of_log distinct order succeeded failed slots n).1
    · exact fun n => (copies_of_log distinct order succeeded failed slots n).2

end Turn

/-- The pieces are the chunks of the owner, at the indices from zero, and their accounts are
settled; nothing has been written for any other chunk. `start` are the nodes at the
beginning. -/
structure Uploaded (cfg : Config) (owner : Owner) (turns : Nat → Turn) (start : Nodes)
    (pieces : List Bytes) (w : World) : Prop where
  consistent : w.db.view.Consistent
  bound : pieces.length ≤ 2 ^ 31
  rows : ∀ {c row}, w.db.view.chunks c = some row → row.owner = owner → row.index < pieces.length
  recorded : ∀ {i piece}, pieces[i]? = some piece → ∃ placement,
    (turns i).place = .ok placement ∧ Recorded cfg owner i piece placement.targets
      (start.files (turns i).newID) (w.account (turns i).newID)
  untouched : ∀ {c}, (∀ i, i < pieces.length → c ≠ (turns i).newID) →
    w.nodes.log c = [] ∧ w.nodes.files c = start.files c

section Run

variable {cfg : Config} {own : ChunkOwner} {owner : Owner} {turns : Nat → Turn} {start : Nodes}
  {pieces : List Bytes} {w w' : World}

/-- A chunk that has no row is none of those that were uploaded. -/
theorem Uploaded.fresh (uploaded : Uploaded cfg owner turns start pieces w) {c : UUID}
    (absent : w.db.view.chunks c = none) (i : Nat) (done : i < pieces.length) :
    c ≠ (turns i).newID := by
  rintro rfl
  obtain ⟨_, -, recorded⟩ := uploaded.recorded (List.getElem?_eq_getElem done)
  obtain ⟨row, found, -⟩ := recorded.row
  simp [World.account, absent] at found

/-- One more turn uploads one more piece. -/
theorem Uploaded.turn (uploaded : Uploaded cfg owner turns start pieces w)
    (single : own.single = some owner) {chunk : Chunking.Chunk} {u : Unit}
    (index : chunk.index = pieces.length)
    (h : streamChunk cfg own (turns chunk.index) chunk w = (.ok u, w')) :
    Uploaded cfg owner turns start (pieces ++ [chunk.data]) w' := by
  have free : ∀ c row, w.db.view.chunks c = some row → row.owner = owner →
      row.index ≠ chunk.index := fun c row found mine =>
    index ▸ Nat.ne_of_lt (uploaded.rows found mine)
  obtain ⟨below, absent, others, placement, place, settled⟩ :=
    account_of_turn uploaded.consistent single (index ▸ uploaded.bound) free
      (fun absent => (uploaded.untouched (uploaded.fresh absent)).1) h
  have apart := uploaded.fresh absent
  have files := (uploaded.untouched apart).2
  rw [index] at below apart others place settled files
  refine ⟨?_, ?_, ?_, ?_, ?_⟩
  · obtain ⟨calls, -, after⟩ := issues_streamChunk w
    rw [h] at after
    rw [after]
    exact consistent_run uploaded.consistent calls
  · rw [List.length_append, List.length_singleton]
    exact below
  · intro c row found mine
    rw [List.length_append, List.length_singleton]
    by_cases new : c = (turns pieces.length).newID
    · obtain ⟨row', found', -, position, -⟩ := settled.row
      rw [new] at found
      obtain rfl := Option.some.inj (found.symm.trans found')
      omega
    · have same : w'.db.view.chunks c = w.db.view.chunks c := congrArg Account.row (others c new)
      exact Nat.lt_succ_of_lt (uploaded.rows (same ▸ found) mine)
  · intro i piece listed
    rcases Nat.lt_trichotomy i pieces.length with old | rfl | beyond
    · rw [List.getElem?_append_left old] at listed
      obtain ⟨placement, place, recorded⟩ := uploaded.recorded listed
      exact ⟨placement, place, others _ (apart i old).symm ▸ recorded⟩
    · rw [List.getElem?_append_right (Nat.le_refl _), Nat.sub_self] at listed
      obtain rfl := Option.some.inj listed
      exact ⟨placement, place, files ▸ settled⟩
    · rw [List.getElem?_eq_none (by simp only [List.length_append, List.length_singleton]; omega)]
        at listed
      cases listed
  · intro c other
    rw [List.length_append, List.length_singleton] at other
    have same := others c (other _ (Nat.lt_succ_self _))
    obtain ⟨log, before⟩ := uploaded.untouched fun i old => other i (Nat.lt_succ_of_lt old)
    exact ⟨(congrArg Account.answers same).trans log, (congrArg Account.files same).trans before⟩

/-- A successful loop over chunks that continue the numbering uploads all of them. -/
theorem Uploaded.chunks (single : own.single = some owner) {err : Chunking.Error}
    {cs : List Chunking.Chunk} {p : Progress} {res : UploadResult}
    (uploaded : Uploaded cfg owner turns start pieces w)
    (numbered : cs.map (·.index) = List.range' pieces.length cs.length)
    (h : streamChunks cfg own turns err cs p w = (.ok res, w')) :
    Uploaded cfg owner turns start (pieces ++ cs.map (·.data)) w' := by
  induction cs generalizing pieces p w with
  | nil =>
    unfold streamChunks finishStream at h
    split at h
    next =>
      obtain ⟨-, rfl⟩ : p.result = res ∧ w = w' := by simpa using h
      simpa using uploaded
    next => split at h <;> cases h
  | cons chunk rest ih =>
    rw [List.map_cons, List.length_cons, List.range'_succ, List.cons.injEq] at numbered
    obtain ⟨_, middle, first, h⟩ := Procedure.bind_ok.mp h
    have next := uploaded.turn single numbered.1 first
    simpa using ih next (by simpa using numbered.2) h

theorem uploaded_start (consistent : w.db.view.Consistent)
    (fresh : ∀ c row, w.db.view.chunks c = some row → row.owner ≠ owner)
    (silent : w.nodes.answers = []) : Uploaded cfg owner turns w.nodes [] w where
  consistent := consistent
  bound := Nat.zero_le _
  rows found mine := absurd mine (fresh _ _ found)
  recorded listed := by simp at listed
  untouched _ := ⟨by simp [Nodes.log, silent], rfl⟩

variable {maxObjectSize : Int} {src : Reader} {chunkSize : Nat} {res : UploadResult}

/-- A successful upload has uploaded pieces that make up the bytes it counted. -/
theorem uploaded_of_streamUpload (consistent : w.db.view.Consistent)
    (single : own.single = some owner)
    (fresh : ∀ c row, w.db.view.chunks c = some row → row.owner ≠ owner)
    (silent : w.nodes.answers = [])
    (h : streamUpload cfg maxObjectSize turns src own chunkSize w = (.ok res, w')) :
    ∃ pieces, Uploaded cfg owner turns w.nodes pieces w' ∧
      pieces.flatten = counted chunkSize src.err src.bytes := by
  rcases Nat.eq_zero_or_pos chunkSize with rfl | positive
  · cases h
  · obtain ⟨cs, e, loop, splits⟩ := streamUpload_eq cfg own turns maxObjectSize src positive
    rw [loop] at h
    have ended := streamChunks_ended h
    refine ⟨_, (uploaded_start consistent fresh silent).chunks single
      (by simpa using splits.indices) h, splits.bytes fun excess => ?_⟩
    simp [splits.excess excess] at ended

/-- Enough nodes held a file with the digest when they acknowledged the chunk, and of its
targets exactly those that acknowledged are AVAILABLE and exactly those that failed are
UNAVAILABLE. -/
structure Durable (cfg : Config) (targets : List NodeID) (c : UUID) (sum : Checksum)
    (w : World) : Prop where
  quorum : ∃ holders : List NodeID, holders.Nodup ∧ cfg.minWriteReplicas ≤ holders.length ∧
    ∀ n ∈ holders, ∃ bytes, ⟨c, n, true, some bytes⟩ ∈ w.nodes.answers ∧ sha256 bytes = sum
  available : ∀ n, w.db.replicaState c n = some .available ↔
    n ∈ targets ∧ ∃ held, ⟨c, n, true, held⟩ ∈ w.nodes.answers
  unavailable : ∀ n, w.db.replicaState c n = some .unavailable ↔
    n ∈ targets ∧ ∃ held, ⟨c, n, false, held⟩ ∈ w.nodes.answers

theorem Nodes.mem_log {nodes : Nodes} {c : UUID} {x : Answer} :
    x ∈ nodes.log c ↔ x ∈ nodes.answers ∧ x.chunkID = c := by
  simp [Nodes.log]

/-- The answers with one verdict, as the log of the chunk has them. -/
theorem Recorded.verdict {index : Nat} {piece : Bytes} {targets : List NodeID}
    {before : NodeID → Option Bytes} {c : UUID}
    (recorded : Recorded cfg owner index piece targets before (w.account c)) {n : NodeID}
    {verdict : Bool} :
    (∃ x ∈ (w.account c).answers, x.acknowledged = verdict ∧ x.nodeID = n) ↔
      n ∈ targets ∧ ∃ held, ⟨c, n, verdict, held⟩ ∈ w.nodes.answers := by
  constructor
  · rintro ⟨x, listed, rfl, rfl⟩
    obtain ⟨member, rfl⟩ := Nodes.mem_log.mp listed
    exact ⟨recorded.answered.mem_iff.mp (List.mem_map.mpr ⟨x, listed, rfl⟩), x.held, member⟩
  · rintro ⟨-, held, member⟩
    exact ⟨_, Nodes.mem_log.mpr ⟨member, rfl⟩, rfl, rfl⟩

theorem Recorded.durable {index : Nat} {piece : Bytes} {targets : List NodeID}
    {before : NodeID → Option Bytes} {c : UUID}
    (recorded : Recorded cfg owner index piece targets before (w.account c)) :
    Durable cfg targets c (sha256 piece) w where
  quorum := by
    refine ⟨((w.account c).answers.filter (·.acknowledged)).map (·.nodeID), ?_, ?_, ?_⟩
    · exact recorded.distinct.sublist (List.filter_sublist.map _)
    · have enough := recorded.quorum
      rw [List.length_map]
      omega
    · intro n listed
      obtain ⟨x, chosen, rfl⟩ := List.mem_map.mp listed
      obtain ⟨member, yes⟩ := List.mem_filter.mp chosen
      obtain ⟨bytes, held, digest, -⟩ := recorded.held x member yes
      obtain ⟨answered, rfl⟩ := Nodes.mem_log.mp member
      exact ⟨bytes, by rw [← held, ← yes]; exact answered, digest⟩
  available n := (recorded.available n).trans recorded.verdict
  unavailable n := (recorded.unavailable n).trans recorded.verdict

/-- The chunk rows of the owner are consecutive pieces of the bytes, each committed with the
digest of its piece and durable on its targets. -/
def ChunksDurable (cfg : Config) (owner : Owner) (turns : Nat → Turn) (bytes : Bytes)
    (w : World) : Prop :=
  ∃ pieces : List Bytes, pieces.flatten = bytes ∧
    (∀ c row, w.db.chunks.find? c = some row → row.owner = owner → row.index < pieces.length) ∧
    ∀ i piece, pieces[i]? = some piece → ∃ c row placement, w.db.chunks.find? c = some row ∧
      row.owner = owner ∧ row.index = i ∧ row.state = .committed ∧
      row.checksum = some (sha256 piece) ∧ (turns i).place = .ok placement ∧
      Durable cfg placement.targets c (sha256 piece) w

/-- A successful upload of an owner that had no chunks leaves the chunks of the body durable,
whatever the placement and the storage nodes did. -/
theorem streamUpload_durable {calls : List Call} (reached : w.db = run step Database.empty calls)
    (single : own.single = some owner)
    (fresh : ∀ c row, w.db.chunks.find? c = some row → row.owner ≠ owner)
    (silent : w.nodes.answers = [])
    (h : streamUpload cfg maxObjectSize turns src own chunkSize w = (.ok res, w')) :
    ChunksDurable cfg owner turns (counted chunkSize src.err src.bytes) w' := by
  have consistent : w.db.view.Consistent := reached ▸ consistent_run consistent_empty calls
  obtain ⟨pieces, uploaded, bytes⟩ :=
    uploaded_of_streamUpload consistent single fresh silent h
  refine ⟨pieces, bytes, fun c row => uploaded.rows, fun i piece listed => ?_⟩
  obtain ⟨placement, place, recorded⟩ := uploaded.recorded listed
  obtain ⟨row, found, mine, position, state, -, checksum⟩ := recorded.row
  exact ⟨_, row, placement, found, mine, position, state, checksum, place, recorded.durable⟩

/-- Three registered nodes and an upload that has just begun. -/
def begunUpload : List Call :=
  [⟨0, .upsertNode "n1" "n1:9000" .healthy {} 0⟩, ⟨0, .upsertNode "n2" "n2:9000" .healthy {} 0⟩,
    ⟨0, .upsertNode "n3" "n3:9000" .healthy {} 0⟩, ⟨1, .beginUpload 1 "bucket" "k" "" 2⟩]

/-- The third node does not answer; the targets finish in the opposite order. -/
def thirdNodeDown : Fanout where
  delivery n := if n = "n3" then .failed none else .served
  finish := List.reverse
  perm := List.reverse_perm

def thirdNodeDownTurn (i : Nat) : Turn :=
  ⟨10 + i, 2, 3, 4, .ok ⟨["n1", "n2", "n3"], by decide⟩, thirdNodeDown⟩

def freshWorld (calls : List Call) : World :=
  ⟨run step Database.empty calls, ⟨fun _ _ => none, []⟩⟩

/-- Three bytes in chunks of two. -/
def thirdNodeDownUpload : Except Failure UploadResult × World :=
  streamUpload ⟨2, 2⟩ 0 thirdNodeDownTurn ⟨[[1], [2, 3]], .leaf .eof, false⟩ ⟨some 1, none⟩ 2
    (freshWorld begunUpload)

theorem streamUpload_durable_thirdNodeDown :
    (thirdNodeDownUpload.1.toOption.map fun res => (res.sizeBytes, res.chunkCount)) =
      some (3, 2) ∧
    ChunksDurable ⟨2, 2⟩ (.object 1) thirdNodeDownTurn [1, 2, 3] thirdNodeDownUpload.2 := by
  have done : (thirdNodeDownUpload.1.toOption.map fun res => (res.sizeBytes, res.chunkCount)) =
      some (3, 2) := by decide +kernel
  obtain ⟨res, ok⟩ : ∃ res, thirdNodeDownUpload.1 = .ok res := by
    cases out : thirdNodeDownUpload.1 with
    | error e => simp [out, Except.toOption] at done
    | ok res => exact ⟨res, rfl⟩
  have bare : (freshWorld begunUpload).db.chunks.rows = [] := rfl
  have ran : thirdNodeDownUpload = (.ok res, thirdNodeDownUpload.2) := by
    rw [← ok]
  exact ⟨done, streamUpload_durable (show _ = run step Database.empty begunUpload from rfl) rfl
    (fun c row found => by simp [Table.find?, bare] at found) rfl ran⟩

end Run

end FlexStore.Gateway
