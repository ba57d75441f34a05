import FlexStore.Metadata.Integrity
import FlexStore.Metadata.Owners

/-!
# Reclamation of what a dead owner leaves

When an owner dies, every copy of its chunks is marked DELETING and queued in the
same transaction, and the queue is the only thing that reclaims them. Three calls
write replica rows without looking at the owner: the recording of targets, the commit
of a chunk and the completion of a repair. If they stay away from dead owners, every
copy of a dead owner has a job.
-/

namespace FlexStore.Metadata

open Relational Transition View

/-- Every replica row of a dead owner's chunk has a deletion job. -/
def DeadReplicasQueued (db : Database) : Prop :=
  ∀ r ∈ db.replicas.rows, db.deadChunk r.chunkID → db.queued r.chunkID r.nodeID

instance (db : Database) : Decidable (DeadReplicasQueued db) :=
  inferInstanceAs (Decidable (∀ r ∈ db.replicas.rows, _))

/-- The call writes replica rows of a dead owner's chunk, or finishes a deletion job with
another job's chunk and node. -/
def Op.losesTrack (db : Database) : Op → Bool
  | .recordChunkTargets c _ => db.deadChunk c
  | .commitChunk c .. => db.deadChunk c
  | .completeRepair _ c _ => db.deadChunk c
  | .finishDeletion id c n => (jobPair db id).any (· ≠ (c, n))
  | _ => false

/-- The call finishes a deletion job with another job's chunk and node. -/
def Op.misnamesJob (db : Database) : Op → Bool
  | .finishDeletion id c n => (jobPair db id).any (· ≠ (c, n))
  | _ => false

variable {db db' : Database} {op : Op} {r : Reply} {c : UUID} {n : NodeID}

theorem Op.misnamesJob_of_losesTrack (tracked : op.losesTrack db = false) :
    op.misnamesJob db = false := by
  cases op with
  | finishDeletion => exact tracked
  | _ => rfl

/-- A chunk of a dead owner was one before, or its copies have just been condemned. -/
theorem Change.condemns (change : Change db db' op r) (consistent : db.view.Consistent)
    (dead : db'.deadChunk c) :
    db.deadChunk c ∨ ∀ n, db'.view.slots c n = (db.view.slots c n).condemn := by
  obtain ⟨row, found, gone⟩ := deadChunk_iff.mp dead
  have move := change.chunk_move c
  rw [found] at move
  rcases move.position with ⟨old, before, owner, -⟩ | ⟨⟨_, _, _, rfl⟩, fresh, -, -⟩ |
    ⟨_, _, _, -, -, complete, owner, -, -⟩
  · by_cases wasDead : db.view.status old.owner = .dead
    · exact Or.inl (deadChunk_iff.mpr ⟨old, before, wasDead⟩)
    · rw [owner] at wasDead
      rcases change.deaths consistent with ⟨p, deaths⟩ | nobody
      · right
        intro n
        have dies : p row.owner = true := by
          by_contra spared
          exact wasDead (deaths.spared _ (by simpa using spared) gone)
        rw [deaths.slots c n, if_pos]
        simp [ownedBy, found, dies]
      · exact absurd (nobody _ gone) wasDead
  · right
    intro n
    have empty : (db.view.slots c n).replica = none := by
      by_contra held
      have known := consistent.copy (Option.isSome_iff_ne_none.mpr held)
      simp [referenced, fresh] at known
    have step := change.slot_move consistent c n
    rw [Slot.condemn_of_none empty]
    generalize db'.view.slots c n = s' at step
    cases step with
    | same => rfl
    | condemned => exact Slot.condemn_of_none empty
    | demoted call | trimmed call => cases call
    | staled state => simp [empty] at state
    | _ => rename Op.reserveChunk _ _ _ _ = _ => call; cases call
  · rw [owner, complete] at gone
    cases gone

/-- What keeps every copy of a dead owner's chunk in the queue. A copy that is DELETING
is queued whoever owns the chunk, and a dead owner's copies are all DELETING. -/
structure Condemned (db : Database) : Prop where
  deleting : ∀ {c n}, db.replicaState c n = some .deleting → db.queued c n
  dead : ∀ {c n s}, db.deadChunk c → db.replicaState c n = some s → s = .deleting

theorem SlotMove.deleting {s s' : Slot} (move : SlotMove db db' op c n s s')
    (named : op.misnamesJob db = false) (queued : s.replica = some .deleting → s.queued)
    (after : s'.replica = some .deleting) : s'.queued := by
  cases move with
  | same => exact queued after
  | condemned =>
    cases old : s.replica with
    | none => simp [Slot.condemn, old] at after
    | some x =>
      by_cases already : x = .deleting
      · subst already
        simp [Slot.condemn, queued old]
      · simp [Slot.condemn, old, already]
  | trimmed | corrupted => rfl
  | @finished id c' n' call =>
    subst call
    split at after
    · cases after
    · next other =>
        have mine : jobPair db id ≠ some (c, n) := by
          intro pair
          simp only [Op.misnamesJob, pair, Option.any_some, decide_eq_false_iff_not, not_not,
            Prod.mk.injEq] at named
          exact other ⟨named.1.symm, named.2.symm⟩
        simp [queued after, mine]
  | abandoned => simp [Option.filter_eq_some_iff] at after
  | _ => cases after

/-- A copy of a dead owner's chunk stays DELETING until it is gone. -/
theorem SlotMove.dead {s s' : Slot} {x : ReplicaState} (move : SlotMove db db' op c n s s')
    (tracked : op.losesTrack db = false) (dead : db.deadChunk c)
    (condemned : ∀ x, s.replica = some x → x = .deleting) (after : s'.replica = some x) :
    x = .deleting := by
  cases move with
  | same => exact condemned x after
  | demoted _ state => rcases state with state | state <;> cases condemned _ state
  | staled state | promoted _ state => cases condemned _ state
  | condemned =>
    obtain ⟨-, -, rfl⟩ := Option.map_eq_some_iff.mp after
    rfl
  | trimmed => exact (Option.some.inj after).symm
  | corrupted =>
    obtain ⟨old, before, rfl⟩ := Option.map_eq_some_iff.mp after
    rw [condemned old before, if_pos rfl]
  | finished =>
    split at after
    · cases after
    · exact condemned x after
  | abandoned => exact condemned x (Option.filter_eq_some_iff.mp after).1
  | dropped | orphanQueued => cases after
  | targeted call | acknowledged call | refused call | repaired call =>
    subst call
    simp [Op.losesTrack, dead] at tracked

theorem Change.condemned (change : Change db db' op r) (consistent : db.view.Consistent)
    (tracked : op.losesTrack db = false) (holds : Condemned db) : Condemned db' where
  deleting := (change.slot_move consistent _ _).deleting
    (Op.misnamesJob_of_losesTrack tracked) holds.deleting
  dead := by
    intro c n s dead after
    rcases change.condemns consistent dead with before | now
    · exact (change.slot_move consistent c n).dead tracked before (fun _ => holds.dead before) after
    · change (db'.view.slots c n).replica = some s at after
      rw [now n] at after
      obtain ⟨-, -, rfl⟩ := Option.map_eq_some_iff.mp after
      rfl

theorem Condemned.deadReplicasQueued (holds : Condemned db) : DeadReplicasQueued db := by
  intro row member dead
  have found : db.replicaState row.chunkID row.nodeID = some row.state :=
    replicaState_eq_some.mpr ⟨row, member, rfl, rfl, rfl⟩
  exact holds.deleting (by rw [found, holds.dead dead found])

/-- A condemned copy is garbage if a copy that was DELETING already had its job. -/
theorem Slot.condemn_garbage {s : Slot} {state : ReplicaState}
    (queued : s.replica = some .deleting → s.queued) (held : s.condemn.replica = some state) :
    state = .deleting ∧ s.condemn.queued := by
  cases before : s.replica with
  | none => simp [Slot.condemn, before] at held
  | some old =>
    refine ⟨by simpa [Slot.condemn, before, eq_comm] using held, ?_⟩
    by_cases deleting : old = .deleting
    · subst deleting
      simp [Slot.condemn, queued before]
    · simp [Slot.condemn, before, deleting]

/-- A copy that is DELETING has a deletion job. -/
def DeletingQueued (db : Database) : Prop :=
  ∀ c n, db.replicaState c n = some .deleting → db.queued c n

theorem deletingQueued_run {calls : List Call}
    (named : Guarded step (fun db call => call.op.misnamesJob db = false) Database.empty calls) :
    DeletingQueued (run step Database.empty calls) := by
  refine (always_of_change (P := DeletingQueued) ?_ consistent_empty ?_ named).last
  · intro db db' call r consistent named holds change c n
    exact (change.slot_move consistent c n).deleting named (holds c n)
  · intro c n deleting
    simp [Database.replicaState, Database.empty] at deleting

/-- In a run in which no call writes replica rows of a dead owner's chunk, and deletions
are finished with their own chunk and node, every replica row of a dead owner's chunk
has a deletion job in every state reached. -/
theorem dead_replicas_stay_queued {calls : List Call}
    (permitted : Guarded step (fun db call => call.op.losesTrack db = false) Database.empty calls) :
    Always step DeadReplicasQueued Database.empty calls := by
  have condemned : Always step Condemned Database.empty calls := by
    refine always_of_change ?_ consistent_empty ⟨?_, ?_⟩ permitted
    · intro db db' call r consistent tracked holds change
      exact change.condemned consistent tracked holds
    · intro c n deleting
      simp [Database.replicaState, Database.empty] at deleting
    · intro c n s dead
      simp [Database.deadChunk, Database.empty] at dead
  exact condemned.mono fun _ => Condemned.deadReplicasQueued

/-- An upload with two nodes that is aborted after its chunk was committed on one. -/
def abortedUpload : List Call :=
  [⟨0, .upsertNode "n1" "n1:9000" .healthy {} 0⟩, ⟨0, .upsertNode "n2" "n2:9000" .healthy {} 0⟩,
    ⟨1, .beginUpload 1 "b" "k" "" 8⟩, ⟨2, .reserveChunk 10 ⟨some 1, none⟩ 0 8⟩,
    ⟨3, .recordChunkTargets 10 ["n1", "n2"]⟩, ⟨4, .commitChunk 10 0 8 ["n1"] ["n2"] 1⟩,
    ⟨5, .abortUpload 1 "client went away"⟩]

theorem dead_replicas_stay_queued_abortedUpload :
    (run step Database.empty abortedUpload).deadChunk 10 ∧
      (run step Database.empty abortedUpload).replicaState 10 "n2" = some .deleting ∧
      Always step DeadReplicasQueued Database.empty abortedUpload :=
  ⟨by decide, by decide, dead_replicas_stay_queued (by decide)⟩

/-- An upload that is aborted between the two transactions of a chunk allocation. -/
def targetsAfterAbort : List Call :=
  [⟨0, .upsertNode "n1" "n1:9000" .healthy {} 0⟩, ⟨1, .beginUpload 1 "b" "k" "" 8⟩,
    ⟨2, .reserveChunk 10 ⟨some 1, none⟩ 0 8⟩, ⟨3, .abortUpload 1 "client went away"⟩,
    ⟨4, .recordChunkTargets 10 ["n1"]⟩]

theorem targets_after_abort_unqueued :
    ¬DeadReplicasQueued (run step Database.empty targetsAfterAbort) := by
  decide

end FlexStore.Metadata
