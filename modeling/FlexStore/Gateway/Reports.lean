import FlexStore.Coordinator.Service
import FlexStore.Gateway.ChunkReader
import FlexStore.Metadata.Integrity

/-!
# Reporting bad replicas

A read that fails over tells the coordinator about the replicas that cannot be trusted, and
the coordinator demotes them. `Disproves` says when a node has answered and so shown that it
does not hold the recorded chunk, and `Unreached` when nothing is known about its copy. The
reader reports an attempt if its error wraps the mismatch sentinel or is a
`FailedPrecondition`. That covers every way to be disproved but one: a node that does not
have the file at all answers `NotFound`, and the replica stays listed.

A report is itself refused if it names no node, or if its text is cut inside a character.
-/

namespace FlexStore.Gateway

open Go Digest Rpc Metadata Transition

/-- The node answered, and its copy is not the recorded chunk: it has no such file, or its
own check failed, or the stream is too long, too short or has another digest. -/
def NodeReply.Disproves (chunk : ChunkPlacement) : NodeReply → Prop
  | .noClient _ | .notOpened _ => False
  | .stream messages ending =>
    messages ≠ [] ∧ chunk.sizeBytes < messages.flatten.length ∨
      match ending with
      | .eof => (messages.flatten.length : Int) ≠ chunk.sizeBytes ∨
          chunk.checksum ≠ some (sha256 messages.flatten)
      | .status code _ => code = .notFound ∨ code = .failedPrecondition
      | .broken _ => False

/-- The node was not reached, or was lost before it had sent too much. -/
def NodeReply.Unreached (chunk : ChunkPlacement) : NodeReply → Prop
  | .noClient _ | .notOpened _ => True
  | .stream messages (.broken _) =>
    ¬ (messages ≠ [] ∧ chunk.sizeBytes < messages.flatten.length)
  | .stream _ _ => False

/-- The database after the report of an attempt has been handled. -/
def handleReport (now : Time) (repair : Option Int) (chunk : ChunkPlacement) (a : Attempt)
    (db : Database) : Database :=
  (Coordinator.reportCorruptReplica now repair chunk.chunkID a.node.nodeID a.err.text db).2

/-- The coordinator takes the report: it names a node, and the text that is kept of it is not
cut inside a character. -/
def Admissible (nodeID : NodeID) (e : ReadError) : Prop :=
  nodeID ≠ "" ∧ ∃ kept, truncate e.text 500 = .ok kept

section Classify

variable {chunk : ChunkPlacement} {reply : NodeReply} {e : ReadError}

theorem corrupt_status (code : Code) (message : String) :
    (ReadError.status code message).corrupt = decide (code = .failedPrecondition) := by
  cases code <;> rfl

theorem streamFailure_of_long {messages : List Bytes} (ending : Ending)
    (long : messages ≠ [] ∧ chunk.sizeBytes < messages.flatten.length) :
    streamFailure chunk 0 messages ending = some (.tooLong chunk.sizeBytes) := by
  apply if_pos
  simpa using long

theorem streamFailure_of_short {messages : List Bytes} (ending : Ending)
    (short : ¬ (messages ≠ [] ∧ chunk.sizeBytes < messages.flatten.length)) :
    streamFailure chunk 0 messages ending =
      match ending with
      | .eof => none
      | .status code message => some (.status code message)
      | .broken failure => some (.broken failure) := by
  apply if_neg
  simpa using short

/-- The bytes of a closed stream fail with a mismatch exactly if they are not the chunk. -/
theorem checkBytes_eq_some {data : Bytes} (h : checkBytes chunk data = some e) :
    e.corrupt = true ∧
      ((data.length : Int) ≠ chunk.sizeBytes ∨ chunk.checksum ≠ some (sha256 data)) := by
  unfold checkBytes at h
  split at h
  next length =>
    obtain rfl := Option.some.inj h
    exact ⟨rfl, Or.inl length⟩
  next =>
    split at h
    next digest =>
      obtain rfl := Option.some.inj h
      exact ⟨rfl, Or.inr digest⟩
    next => cases h

/-- The errors of a disproved attempt are those that are reported, and `NotFound`. -/
theorem disproves_iff (failed : reply.failure chunk = some e) :
    reply.Disproves chunk ↔ e.corrupt = true ∨ ∃ message, e = .status .notFound message := by
  cases reply with
  | noClient message | notOpened failure =>
    obtain rfl := Option.some.inj failed
    simp [NodeReply.Disproves, ReadError.corrupt, ReadError.value, Go.Error.is]
  | stream messages ending =>
    rw [NodeReply.failure] at failed
    by_cases long : messages ≠ [] ∧ chunk.sizeBytes < messages.flatten.length
    · rw [streamFailure_of_long ending long] at failed
      obtain rfl := Option.some.inj failed
      exact iff_of_true (Or.inl long) (Or.inl rfl)
    · rw [streamFailure_of_short ending long] at failed
      cases ending with
      | eof =>
        obtain ⟨corrupt, wrong⟩ := checkBytes_eq_some failed
        exact iff_of_true (Or.inr wrong) (Or.inl corrupt)
      | status code message =>
        obtain rfl := Option.some.inj failed
        change _ ∨ (code = .notFound ∨ code = .failedPrecondition) ↔ _
        rw [or_iff_right long, corrupt_status, decide_eq_true_eq, or_comm]
        simp
      | broken failure =>
        obtain rfl := Option.some.inj failed
        change _ ∨ False ↔ _
        rw [or_iff_right long]
        simp [ReadError.corrupt, ReadError.value, Go.Error.is]

/-- An attempt that did not reach its node is not reported. -/
theorem not_corrupt_of_unreached (failed : reply.failure chunk = some e)
    (unreached : reply.Unreached chunk) : e.corrupt = false := by
  cases reply with
  | noClient message =>
    obtain rfl := Option.some.inj failed
    rfl
  | notOpened failure =>
    obtain rfl := Option.some.inj failed
    simp [ReadError.corrupt, ReadError.value, Go.Error.is]
  | stream messages ending =>
    cases ending with
    | eof | status code message => exact unreached.elim
    | broken failure =>
      rw [NodeReply.failure, streamFailure_of_short _ unreached] at failed
      obtain rfl := Option.some.inj failed
      simp [ReadError.corrupt, ReadError.value, Go.Error.is]

end Classify

section Attempts

variable {chunk : ChunkPlacement} {reply : Nat → NodeReply}

/-- A failed attempt is one of a replica that all replicas before failed as well. -/
theorem failedAttempts_getElem? {nodes : List NodeInfo} {j k : Nat} {a : Attempt} :
    (failedAttempts chunk reply j nodes)[k]? = some a ↔
      nodes[k]? = some a.node ∧ (∀ i < k, (reply (j + i)).failure chunk ≠ none) ∧
        (reply (j + k)).failure chunk = some a.err ∧ a.reported = a.err.corrupt := by
  induction nodes generalizing j k with
  | nil => simp [failedAttempts]
  | cons node rest ih =>
    cases failure : (reply j).failure chunk with
    | none =>
      simp only [failedAttempts, failure, List.getElem?_nil]
      refine iff_of_false (by simp) ?_
      rintro ⟨-, before, failed, -⟩
      cases k with
      | zero => simp [failure] at failed
      | succ k => exact before 0 (Nat.zero_lt_succ k) failure
    | some e =>
      simp only [failedAttempts, failure]
      cases k with
      | zero =>
        rcases a with ⟨node', e', reported⟩
        simp only [List.getElem?_cons_zero, Option.some.injEq, Attempt.mk.injEq,
          Nat.not_lt_zero, false_imp_iff, implies_true, Nat.add_zero, failure, true_and]
        constructor
        · rintro ⟨rfl, rfl, rfl⟩
          exact ⟨rfl, rfl, rfl⟩
        · rintro ⟨rfl, rfl, rfl⟩
          exact ⟨rfl, rfl, rfl⟩
      | succ k =>
        have shift : ∀ i, j + 1 + i = j + (i + 1) := by omega
        simp only [List.getElem?_cons_succ, ih, shift]
        have before : (∀ i < k, (reply (j + (i + 1))).failure chunk ≠ none) ↔
            ∀ i < k + 1, (reply (j + i)).failure chunk ≠ none := by
          rw [Nat.forall_lt_succ_left]
          simp [failure]
        rw [before]

end Attempts

section Handle

variable {db db' : Database} {chunk : ChunkPlacement} {a : Attempt}

variable {now : Time} {chunkID : UUID} {nodeID : NodeID} {detail : String}

/-- A report that the store refuses changes nothing. -/
theorem reportCorruptReplica_refused {repair : Option Int}
    (refused : nodeID = "" ∨ ∃ e, markReplicaCorrupt now chunkID nodeID detail db = .error e) :
    (Coordinator.reportCorruptReplica now repair chunkID nodeID detail db).2 = db := by
  unfold Coordinator.reportCorruptReplica
  split
  next => rfl
  next named =>
    obtain ⟨e, refused⟩ := refused.resolve_left named
    have failed : Coordinator.transaction Coordinator.toStatus
        (markReplicaCorrupt now chunkID nodeID detail) db =
          (.error (Coordinator.toStatus e), db) := by
      rw [Coordinator.transaction, Procedure.transact, refused]
      rfl
    rw [Procedure.bind_of_error failed]

/-- Scheduling the replacement leaves what is recorded about the copies. -/
theorem view_reportCorruptReplica {repair : Option Int} {remaining : Int} (named : nodeID ≠ "")
    (marked : markReplicaCorrupt now chunkID nodeID detail db = .ok (remaining, db')) :
    (Coordinator.reportCorruptReplica now repair chunkID nodeID detail db).2.view = db'.view := by
  unfold Coordinator.reportCorruptReplica
  rw [if_neg named, Procedure.bind_of_ok (Coordinator.transaction_ok.mpr marked)]
  cases repair with
  | none => rfl
  | some replicationFactor =>
    simp only
    split
    next => exact view_foldl_enqueueRepair now _ db'
    next => rfl

/-- The store marks a replica of a known chunk if it can keep the text. -/
theorem markReplicaCorrupt_of_row {kept : String} (cut : truncate detail 500 = .ok kept)
    (row : (db.chunks.find? chunkID).isSome) :
    ∃ out, markReplicaCorrupt now chunkID nodeID detail db = .ok out := by
  obtain ⟨found, row⟩ := Option.isSome_iff_exists.mp row
  have same : (demoteCorrupt now chunkID nodeID kept db).chunks.find? chunkID = some found := row
  simp [markReplicaCorrupt, cut, same, lookup]

theorem kept_of_marked {out : Int × Database}
    (marked : markReplicaCorrupt now chunkID nodeID detail db = .ok out) :
    ∃ kept, truncate detail 500 = .ok kept := by
  cases cut : truncate detail 500 with
  | error e => simp [markReplicaCorrupt, cut] at marked
  | ok kept => exact ⟨kept, rfl⟩

/-- A report that is admitted leaves the replica in another state than AVAILABLE. One that is
not changes nothing. -/
theorem handleReport_available (consistent : db.view.Consistent) (now : Time)
    (repair : Option Int) :
    (handleReport now repair chunk a db).replicaState chunk.chunkID a.node.nodeID =
        some .available ↔
      db.replicaState chunk.chunkID a.node.nodeID = some .available ∧
        ¬ Admissible a.node.nodeID a.err := by
  unfold handleReport
  generalize a.node.nodeID = nodeID
  by_cases named : nodeID = ""
  · rw [reportCorruptReplica_refused (Or.inl named)]
    simp [Admissible, named]
  · cases marked : markReplicaCorrupt now chunk.chunkID nodeID a.err.text db with
    | error e =>
      rw [reportCorruptReplica_refused (Or.inr ⟨e, marked⟩), iff_self_and]
      rintro available ⟨-, kept, cut⟩
      have row : (db.chunks.find? chunk.chunkID).isSome := by
        have known := consistent.copy (c := chunk.chunkID) (n := nodeID)
          (by simp [Database.view, available])
        simp only [View.referenced, Bool.and_eq_true] at known
        exact known.1
      obtain ⟨out, accepted⟩ := markReplicaCorrupt_of_row cut row
      exact absurd (accepted.symm.trans marked) (by simp)
    | ok out =>
      obtain ⟨remaining, db'⟩ := out
      have view : (Coordinator.reportCorruptReplica now repair chunk.chunkID nodeID a.err.text
          db).2.view = db'.view := view_reportCorruptReplica named marked
      obtain ⟨-, after⟩ := markReplicaCorrupt_ok marked
      have state : (Coordinator.reportCorruptReplica now repair chunk.chunkID nodeID a.err.text
          db).2.replicaState chunk.chunkID nodeID = (db.replicaState chunk.chunkID nodeID).map
            fun s => if s = .deleting then s else .corrupt := by
        refine (congrArg (fun v : View => (v.slots chunk.chunkID nodeID).replica)
          (view.trans after)).trans ?_
        simp [View.enqueue, View.mapReplicas, Database.view, ite_not]
      refine iff_of_false ?_ ?_
      · rw [state]
        cases db.replicaState chunk.chunkID nodeID with
        | none => simp
        | some s => cases s <;> simp
      · rintro ⟨-, refused⟩
        exact refused ⟨named, kept_of_marked marked⟩

end Handle

/-- Every failed attempt of a read is accounted for: a replica that was disproved has been
reported and is not AVAILABLE once the report has been handled, and one whose node was not
reached has not been reported. `db j` is the database when report `j` arrives. -/
def Accounted (chunk : ChunkPlacement) (reply : Nat → NodeReply) (attempts : List Attempt)
    (now : Time) (repair : Option Int) (db : Nat → Database) : Prop :=
  ∀ j a, attempts[j]? = some a →
    ((reply j).Disproves chunk → a.reported = true ∧
      (handleReport now repair chunk a (db j)).replicaState chunk.chunkID a.node.nodeID ≠
        some .available) ∧
    ((reply j).Unreached chunk → a.reported = false)

/-- No node that is asked before the read ends answers `NotFound`, and the coordinator takes
the reports about the replicas that it lists as AVAILABLE. -/
def AllReportable (chunk : ChunkPlacement) (reply : Nat → NodeReply) (db : Nat → Database) :
    Prop :=
  ∀ j node e, chunk.nodes[j]? = some node → (∀ i < j, (reply i).failure chunk ≠ none) →
    (reply j).failure chunk = some e →
      (∀ message, e ≠ .status .notFound message) ∧
        (e.corrupt = true → (db j).replicaState chunk.chunkID node.nodeID = some .available →
          Admissible node.nodeID e)

def storedTwice : List Call :=
  [⟨0, .upsertNode "n1" "n1:9000" .healthy {} 0⟩, ⟨0, .upsertNode "n2" "n2:9000" .healthy {} 0⟩,
    ⟨1, .beginUpload 1 "b" "k" "" 8⟩, ⟨2, .reserveChunk 10 ⟨some 1, none⟩ 0 3⟩,
    ⟨3, .recordChunkTargets 10 ["n1", "n2"]⟩, ⟨4, .commitChunk 10 5 3 ["n1", "n2"] [] 2⟩,
    ⟨5, .completeUpload 1 3 1 "e"⟩]

def placedTwice : ChunkPlacement :=
  ⟨10, 0, 3, some 5, [⟨"n1", "n1:9000"⟩, ⟨"n2", "n2:9000"⟩]⟩

/-- The first node does not reach the end of its file, the second is down. -/
def truncatedThenDown (j : Nat) : NodeReply :=
  if j = 0 then .stream [[1, 2]] .eof else .notOpened .deadlineExceeded

/-- The file is missing on the first node. -/
def missingThenDown (j : Nat) : NodeReply :=
  if j = 0 then .stream [] (.status .notFound "chunk 10 not on node n1")
  else .notOpened .deadlineExceeded

end FlexStore.Gateway
