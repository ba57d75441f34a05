import FlexStore.Gateway.Upload

/-!
# Writes that too few nodes acknowledge

After such a write the gateway still sends `CommitChunk`, for the side effect of recording
which nodes took the chunk and which did not. The coordinator refuses the call, as the
gateway expects, and the transaction that would have recorded the states is rolled back. The
rows stay as the allocation has left them.
-/

namespace FlexStore.Gateway

open Chunking Coordinator Digest Go Metadata Rpc Transition

/-- The rows show what became of each node, and the chunk is not committed. -/
def Reported (chunkID : UUID) (res : WriteResult) (db : Database) : Prop :=
  (∀ n ∈ res.succeeded, db.replicaState chunkID n = some .available) ∧
    (∀ n ∈ res.failed, db.replicaState chunkID n = some .unavailable) ∧
    (db.chunks.find? chunkID).map (·.state) = some .pending

variable {cfg : Config} {owner : ChunkOwner} {turn : Turn} {chunk : Chunking.Chunk}
  {w w' : World}

section Call

variable {now : Time} {chunkID : UUID} {sum : Checksum} {size : Int} {res : WriteResult}

theorem recordFailedCommit_ok :
    (recordFailedCommit cfg now chunkID sum size res w).1 = .ok () := by
  unfold recordFailedCommit
  split_ifs <;> rfl

/-- The database after the call. -/
theorem recordFailedCommit_db (some_ : ¬(res.succeeded = [] ∧ res.failed = [])) :
    (recordFailedCommit cfg now chunkID sum size res w).2.db =
      (commitChunk cfg now chunkID sum size res.succeeded res.failed w.db).2 := by
  unfold recordFailedCommit
  rw [if_neg some_]
  show (coordinator .commit _ w).2.db = _
  unfold coordinator Procedure.within
  cases commitChunk cfg now chunkID sum size res.succeeded res.failed w.db with
  | mk outcome db => cases outcome <;> rfl

/-- The call reports nothing: the rows show it afterwards only if they did before. -/
theorem reported_of_recordFailedCommit
    (after : Reported chunkID res (recordFailedCommit cfg now chunkID sum size res w).2.db) :
    Reported chunkID res w.db := by
  by_cases empty : res.succeeded = [] ∧ res.failed = []
  · unfold recordFailedCommit at after
    rw [if_pos empty] at after
    exact after
  rw [recordFailedCommit_db empty] at after
  cases out : commitChunk cfg now chunkID sum size res.succeeded res.failed w.db with
  | mk outcome db =>
    rw [out] at after
    cases outcome with
    | error code =>
      obtain rfl : db = w.db := transaction_error out
      exact after
    | ok available =>
      -- A call that is accepted commits the chunk.
      obtain ⟨row, -, -, -, -, -, session, view⟩ := commitChunk_ok (transaction_ok.mp out)
      have found : db.chunks.find? chunkID = some _ :=
        (congrFun (congrArg View.chunks view) chunkID).trans (Function.update_self _ _ _)
      have pending := after.2.2
      rw [found] at pending
      cases pending

end Call

/-- What a turn did in which too few nodes acknowledged. -/
theorem streamChunk_failed {err : WriteError}
    (h : streamChunk cfg owner turn chunk w = (.error (.replicas err), w')) :
    ∃ alloc middle res nodes,
      allocateChunk cfg turn.reservedAt turn.recordedAt turn.newID turn.place owner
        (int32 chunk.index) chunk.data.length w.db = (.ok alloc, middle) ∧
      write turn.fan alloc.chunkID chunk.data (sha256 chunk.data) alloc.placement.targets
        (max 1 alloc.minWriteReplicas) w.nodes = (res, some err, nodes) ∧
      w' = (recordFailedCommit cfg turn.committedAt alloc.chunkID (sha256 chunk.data)
        chunk.data.length res ⟨middle, nodes⟩).2 := by
  unfold streamChunk at h
  obtain refused | ⟨alloc, w₁, first, h⟩ := Procedure.bind_error.mp h
  · obtain ⟨code, other⟩ := Procedure.within_error refused
    cases other
  obtain ⟨middle, allocated, rfl⟩ := Procedure.within_ok.mp first
  obtain refused | ⟨⟨res, outcome⟩, w₂, second, h⟩ := Procedure.bind_error.mp h
  · cases refused
  obtain ⟨sent, same⟩ := fanOut_ok second
  cases outcome with
  | none =>
    obtain refused | ⟨_, _, -, h⟩ := Procedure.bind_error.mp h
    · obtain ⟨code, other⟩ := Procedure.within_error refused
      cases other
    · cases h
  | some err =>
    obtain refused | ⟨_, w₃, third, h⟩ := Procedure.bind_error.mp h
    · have fine := recordFailedCommit_ok.symm.trans (congrArg Prod.fst refused)
      cases fine
    · cases h
      obtain ⟨db, nodes⟩ := w₂
      obtain rfl : db = middle := same
      exact ⟨alloc, db, res, nodes, allocated, sent, (congrArg Prod.snd third).symm⟩

/-- The allocation leaves every target WRITING, and the chunk pending. -/
theorem rows_of_allocation {db middle : Database} {reservedAt recordedAt : Time} {newID : UUID}
    {place : Except Code Placement} {index size : Int} {alloc : Allocation}
    (allocated : allocateChunk cfg reservedAt recordedAt newID place owner index size db =
      (.ok alloc, middle)) :
    (∀ n ∈ alloc.placement.targets, middle.replicaState alloc.chunkID n = some .writing) ∧
      (middle.chunks.find? alloc.chunkID).map (·.state) = some .pending := by
  obtain ⟨-, -, -, reserved_, reserved, recorded⟩ := allocateChunk_ok allocated
  obtain ⟨-, targeted⟩ := recordChunkTargets_ok recorded
  obtain ⟨_, -, -, position⟩ := reserveChunk_ok reserved
  constructor
  · intro n target
    have copy : (middle.view.slots alloc.chunkID n).replica = some .writing := by
      rw [targeted]
      simp [View.setReplicas, target]
    exact copy
  · have rows : middle.chunks.find? alloc.chunkID = reserved_.view.chunks alloc.chunkID :=
      congrFun (congrArg View.chunks targeted) alloc.chunkID
    obtain ⟨old, -, -, -, begun⟩ | ⟨-, -, -, begun⟩ := position
    · rw [rows, begun]
      simp [ChunkRow.reset]
    · rw [rows, begun]
      simp

/-- After a write that too few nodes acknowledge, the rows show what became of each node
exactly if there was none to write to. -/
theorem failed_write_reported_iff {err : WriteError}
    (failed : streamChunk cfg owner turn chunk w = (.error (.replicas err), w')) :
    ∃ alloc middle res nodes,
      allocateChunk cfg turn.reservedAt turn.recordedAt turn.newID turn.place owner
        (int32 chunk.index) chunk.data.length w.db = (.ok alloc, middle) ∧
      write turn.fan alloc.chunkID chunk.data (sha256 chunk.data) alloc.placement.targets
        (max 1 alloc.minWriteReplicas) w.nodes = (res, some err, nodes) ∧
      w' = (recordFailedCommit cfg turn.committedAt alloc.chunkID (sha256 chunk.data)
        chunk.data.length res ⟨middle, nodes⟩).2 ∧
      (Reported alloc.chunkID res w'.db ↔ alloc.placement.targets = []) := by
  obtain ⟨alloc, middle, res, nodes, allocated, sent, done⟩ := streamChunk_failed failed
  obtain ⟨writing, pending⟩ := rows_of_allocation allocated
  have answered := write_partition alloc.placement.distinct sent
  refine ⟨alloc, middle, res, nodes, allocated, sent, done, ?_, ?_⟩
  · intro after
    rw [done] at after
    obtain ⟨available, unavailable, -⟩ := reported_of_recordFailedCommit after
    refine List.eq_nil_iff_forall_not_mem.mpr fun n target => ?_
    have state := writing n target
    obtain yes | no := List.mem_append.mp (answered.mem_iff.mpr target)
    · rw [available n yes] at state
      cases state
    · rw [unavailable n no] at state
      cases state
  · intro none_
    rw [none_] at answered
    have empty := List.append_eq_nil_iff.mp (List.perm_nil.mp answered)
    rw [done, recordFailedCommit, if_pos empty]
    refine ⟨?_, ?_, pending⟩
    · simp [empty.1]
    · simp [empty.2]

/-- Two of the three nodes do not answer. -/
def oneNodeUp : Fanout where
  delivery n := if n = "n1" then .served else .failed none
  finish := id
  perm := List.Perm.refl

theorem threeNodes_distinct : ["n1", "n2", "n3"].Nodup := by decide

/-- A write to three nodes of which two have to acknowledge. -/
def underQuorum : Except Failure Unit × World :=
  streamChunk ⟨2, 2⟩ ⟨some 1, none⟩
    ⟨10, 2, 3, 4, .ok ⟨["n1", "n2", "n3"], threeNodes_distinct⟩, oneNodeUp⟩
    ⟨0, [1, 2]⟩ ⟨run step Database.empty [⟨0, .upsertNode "n1" "n1:9000" .healthy {} 0⟩,
      ⟨0, .upsertNode "n2" "n2:9000" .healthy {} 0⟩,
      ⟨0, .upsertNode "n3" "n3:9000" .healthy {} 0⟩, ⟨1, .beginUpload 1 "bucket" "k" "" 2⟩],
      ⟨fun _ _ => none, []⟩⟩

theorem failed_write_reported_underQuorum :
    underQuorum.1 = .error (.replicas (.durability 1 3 2)) ∧
      ∃ chunkID res, ¬ Reported chunkID res underQuorum.2.db := by
  have failed : underQuorum.1 = .error (.replicas (.durability 1 3 2)) := by decide +kernel
  have ran : underQuorum = (.error (.replicas (.durability 1 3 2)), underQuorum.2) := by
    rw [← failed]
  obtain ⟨alloc, middle, res, nodes, allocated, -, -, iff⟩ :=
    failed_write_reported_iff ran
  refine ⟨failed, alloc.chunkID, res, fun reported => ?_⟩
  obtain ⟨-, place, -⟩ := allocateChunk_ok allocated
  have targets := congrArg Placement.targets (Except.ok.inj place)
  rw [iff.mp reported] at targets
  cases targets

/-- The first node has the chunk and said so. Its row is WRITING like those of the others. -/
theorem underQuorum_unreported :
    underQuorum.1 = .error (.replicas (.durability 1 3 2)) ∧
      underQuorum.2.nodes.files 10 "n1" = some [1, 2] ∧
      ["n1", "n2", "n3"].map (underQuorum.2.db.replicaState 10) =
        [some .writing, some .writing, some .writing] := by
  decide +kernel

end FlexStore.Gateway
