import FlexStore.Metadata.Availability

/-!
# Rows that block a repair

A repair never places a copy on a node that has a replica row for the chunk, whatever the
state of the row. When that leaves no destination the repair is put off, in the belief that
another worker clears the row soon: the collector removes CORRUPT and DELETING copies, a
commit settles WRITING ones, a node that returns has its UNAVAILABLE copies marked STALE
and the reconciler verifies those.

Not every row has such a worker. A commit records a failed write as UNAVAILABLE on a node
that never was away, and forgets the targets of an earlier allocation; a removal that is
given up leaves a CORRUPT row without a job. In a run without these calls every row that is
not AVAILABLE is of a kind that is cleared.
-/

namespace FlexStore.Metadata

open Relational Transition View

def Database.healthyNode (db : Database) (n : NodeID) : Bool :=
  (db.nodes.find? n).any (·.health = .healthy)

def Op.recordsHealth : Op → Option (NodeID × Health)
  | .setNodeHealth id health => some (id, health)
  | op => op.registers

/-- The metadata, and the nodes whose return is being handled: they have been recorded as
HEALTHY and their UNAVAILABLE replicas have not been marked STALE since. -/
structure Site where
  db : Database
  returning : List NodeID

namespace Site

def empty : Site := ⟨Database.empty, []⟩

/-- The returns that are being handled after a call. -/
def returns (s : Site) : Op → List NodeID
  | .markReplicasStaleOnNode id => s.returning.filter (· ≠ id)
  | op =>
    match op.recordsHealth with
    | some (id, .healthy) => if s.db.healthyNode id then s.returning else id :: s.returning
    | _ => s.returning

def step (s : Site) (call : Call) : Site :=
  match exec call s.db with
  | .ok (_, db) => ⟨db, s.returns call.op⟩
  | .error _ => s

end Site

/-- The number of nodes that one sweep of the reconciler looks at. -/
def staleSweepLimit : Nat := 32

/-- The step that clears a row that is not AVAILABLE is on its way. -/
def Database.clearable (db : Database) (r : ReplicaRow) : Bool :=
  match r.state with
  | .available => true
  | .corrupt | .deleting => db.queued r.chunkID r.nodeID
  | .unavailable => !db.healthyNode r.nodeID
  | .writing => false
  | .stale => !db.healthyNode r.nodeID || r.nodeID ∈ nodesWithStaleReplicas staleSweepLimit db

/-- Every replica row of a COMMITTED chunk with a live owner is AVAILABLE or will be
cleared. -/
def Unblocked (db : Database) : Prop :=
  ∀ r ∈ db.replicas.rows, (db.chunks.find? r.chunkID).any (accounted db) → db.clearable r

instance (db : Database) : Decidable (Unblocked db) :=
  inferInstanceAs (Decidable (∀ r ∈ db.replicas.rows, _ → _))

/-- The call leaves a row behind that nothing clears: a commit that refuses the copy of a
HEALTHY node or says nothing about a WRITING one, targets that are recorded for a chunk
that is COMMITTED already, a HEALTHY node that is said to be away, a job that is finished
for another copy than its own, and the removal of a CORRUPT copy that is given up. -/
def Op.strands (db : Database) : Op → Bool
  | .commitChunk c _ _ succeeded failed _ => db.replicas.rows.any fun r =>
    r.chunkID = c && r.nodeID ∉ succeeded &&
      if r.nodeID ∈ failed then db.healthyNode r.nodeID else r.state = .writing
  | .recordChunkTargets c _ => (db.chunks.find? c).any (·.state = .committed)
  | .markReplicasUnavailableOnNode n => db.healthyNode n
  | .finishDeletion id c n => (jobPair db id).any (· ≠ (c, n))
  | .failDeletion id _ _ maxAttempts => db.deletions.table.rows.any fun d =>
    d.id = id && maxAttempts ≤ d.attempts &&
      db.replicaState d.chunkID d.nodeID = some .corrupt
  | _ => false

/-- The call registers no node that is not on the list. -/
def Op.enrols (roster : List NodeID) (op : Op) : Bool := op.recordsHealth.all (·.1 ∈ roster)

section Step

variable {db db' : Database} {op : Op} {r : Reply} {c : UUID} {n : NodeID}

/-- A node row changes only when a call records the node's health. -/
theorem Change.nodes_cases (change : Change db db' op r) (n : NodeID) :
    db'.view.nodes n = db.view.nodes n ∨ ∃ h, op.recordsHealth = some (n, h) ∧
      (db'.healthyNode n → h = .healthy) := by
  have move := change.node_move n
  change _ ∨ ∃ h, _ ∧ ((db'.view.nodes n).any _ = true → _)
  generalize db.view.nodes n = o at *
  generalize db'.view.nodes n = o' at *
  cases move with
  | same => exact Or.inl rfl
  | registered call =>
    refine Or.inr ⟨_, ?_, of_decide_eq_true⟩
    cases op <;> simp_all [Op.registers, Op.recordsHealth]
  | healthSet health now call =>
    subst call
    exact Or.inr ⟨health, rfl, of_decide_eq_true⟩

/-- A node that is declared DEAD is not HEALTHY. -/
theorem Change.not_healthy_of_dead {id : NodeID}
    (change : Change db db' (.setNodeHealth id .dead) r) : db'.healthyNode id = false := by
  obtain ⟨now, view⟩ := change.declared_dead
  change (db'.view.nodes id).any _ = false
  rw [view, View.demoteNode, View.mapReplicas, View.mapNodes]
  cases found : db.view.nodes id with
  | none => simp [found]
  | some row =>
    have named : row.id = id := (Table.mem_of_find? found).2
    simp [found, named]

/-- A COMMITTED chunk was COMMITTED before, or the call commits it. -/
theorem Change.committed_cases (change : Change db db' op r) {row : ChunkRow}
    (found : db'.view.chunks c = some row) (committed : row.state = .committed) :
    (∃ old, db.view.chunks c = some old ∧ old.state = .committed) ∨
      ∃ checksum size succeeded failed minimum,
        op = .commitChunk c checksum size succeeded failed minimum := by
  have move := change.chunk_move c
  rw [found] at move
  generalize before : db.view.chunks c = old at move
  cases move with
  | same => exact Or.inl ⟨row, rfl, committed⟩
  | reserved _ _ _ _ pending => simp [pending] at committed
  | reset | orphaned => cases committed
  | committed _ checksum size succeeded failed minimum call =>
    exact Or.inr ⟨checksum, size, succeeded, failed, minimum, call⟩
  | assembled _ _ _ _ done => exact Or.inl ⟨_, rfl, done⟩

/-- A copy that is WRITING after a commit is not mentioned by it. -/
theorem Change.unmentioned_of_writing {checksum : Checksum} {sizeBytes minReplicas : Int}
    {succeeded failed : List NodeID}
    (change : Change db db' (.commitChunk c checksum sizeBytes succeeded failed minReplicas) r)
    (after : db'.replicaState c n = some .writing) : n ∉ succeeded ∧ n ∉ failed := by
  obtain ⟨-, -, -, -, -, -, slots⟩ := change.commit
  change (db'.view.slots c n).replica = _ at after
  rw [slots] at after
  by_cases good : n ∈ succeeded
  · simp [View.acknowledge, View.setReplicas, good] at after
  · refine ⟨good, fun refused => ?_⟩
    simp [View.acknowledge, View.setReplicas, slot_mapReplicas, good, refused] at after

/-- Once a node's replicas have been marked STALE none is UNAVAILABLE. -/
theorem Change.not_unavailable {id : NodeID}
    (change : Change db db' (.markReplicasStaleOnNode id) r) :
    db'.replicaState c id ≠ some .unavailable := by
  cases change with
  | staled _ view =>
    intro state
    change (db'.view.slots c id).replica = _ at state
    rw [congrArg View.slots view, slot_mapReplicas] at state
    obtain ⟨old, -, same⟩ := Option.map_eq_some_iff.mp state
    cases old <;> simp at same
  | registered _ _ _ call => cases call
  | bookkeeping quiet | failed quiet | sessionsAborted quiet | trimmed quiet | purged quiet
  | sessionsPurged quiet => cases quiet.2

/-- A removal is given up only for a job that has used up its attempts. -/
theorem failDeletion_expired {now : Time} {id : Nat} {cause : String} {backoff : Duration}
    {maxAttempts : Int} (h : failDeletion now id cause backoff maxAttempts db = .ok db')
    (changed : db'.view ≠ db.view) :
    ∃ d ∈ db.deletions.table.rows, d.id = id ∧ maxAttempts ≤ d.attempts := by
  simp only [failDeletion] at h
  split at h
  next job head =>
    obtain ⟨member, expired⟩ := List.mem_filter.mp (List.mem_of_head? head)
    exact ⟨job, member, by simpa using expired⟩
  next =>
    simp only [bind_eq_ok, pure_eq_ok] at h
    obtain ⟨text, -, rfl⟩ := h
    exact absurd view_updateDeletions changed

end Step

/-- The invariant, over all chunks: what is to be removed is queued, what is away is on a
node that is not HEALTHY or about to be handled, and a COMMITTED chunk is written. -/
structure Clearing (roster : List NodeID) (s : Site) : Prop where
  consistent : s.db.view.Consistent
  removed : ∀ c n, s.db.replicaState c n = some .corrupt ∨
    s.db.replicaState c n = some .deleting → s.db.queued c n
  away : ∀ c n, s.db.replicaState c n = some .unavailable → s.db.healthyNode n → n ∈ s.returning
  written : ∀ c n row, s.db.view.chunks c = some row → row.state = .committed →
    s.db.replicaState c n ≠ some .writing
  enrolled : ∀ n, (s.db.view.nodes n).isSome → n ∈ roster

namespace Clearing

variable {roster : List NodeID} {s : Site} {call : Call} {r : Reply} {db' : Database} {c : UUID}
  {n : NodeID}

theorem removed_exec (clearing : Clearing roster s) (h : exec call s.db = .ok (r, db'))
    (calm : call.op.strands s.db = false)
    (state : db'.replicaState c n = some .corrupt ∨ db'.replicaState c n = some .deleting) :
    db'.queued c n := by
  have change := exec_change h
  have move := change.slot_move clearing.consistent c n
  have before := clearing.removed c n
  change (db'.view.slots c n).replica = _ ∨ (db'.view.slots c n).replica = _ at state
  change (s.db.view.slots c n).replica = _ ∨ (s.db.view.slots c n).replica = _ →
    (s.db.view.slots c n).queued at before
  change (db'.view.slots c n).queued
  by_cases same : db'.view.slots c n = s.db.view.slots c n
  · rw [same] at state ⊢
    exact before state
  · have changed : db'.view ≠ s.db.view := fun equal => same (by rw [equal])
    generalize db'.view.slots c n = slot at move state same ⊢
    cases move with
    | same => exact absurd rfl same
    | condemned =>
      cases replica : (s.db.view.slots c n).replica with
      | none => simp [Slot.condemn, replica] at state
      | some old =>
        by_cases deleting : old = .deleting
        · simp [Slot.condemn, before (Or.inr (deleting ▸ replica))]
        · simp [Slot.condemn, replica, deleting]
    | trimmed | corrupted => rfl
    | finished run =>
      rename_i id c' n'
      rw [run] at calm
      split at state
      · simp at state
      · next other =>
          have queued := before state
          have pair : jobPair s.db id ≠ some (c, n) := by
            intro pair
            simp only [Op.strands, pair, Option.any_some, decide_eq_false_iff_not, ne_eq,
              not_not, Prod.mk.injEq] at calm
            exact other ⟨calm.1.symm, calm.2.symm⟩
          simp [queued, pair]
    | abandoned run pair =>
      rename_i id cause backoff maxAttempts
      obtain ⟨now, op⟩ := call
      obtain rfl : op = _ := run
      obtain ⟨d, listed, numbered, expired⟩ :=
        failDeletion_expired (silent_eq_ok.mp h).1 changed
      have mine : d.key = (c, n) :=
        Option.some.inj (((jobPair_eq_some listed).mpr numbered).symm.trans pair)
      have spared : s.db.replicaState c n ≠ some .corrupt := by
        intro corrupt
        obtain ⟨rfl, rfl⟩ := Prod.mk.inj mine
        simp only [Op.strands, List.any_eq_false, Bool.and_eq_true, decide_eq_true_eq] at calm
        exact calm d listed ⟨⟨numbered, expired⟩, corrupt⟩
      rcases state with state | state
      · exact absurd (Option.filter_eq_some_iff.mp state).1 spared
      · simp [Option.filter_eq_some_iff] at state
    | _ => simp at state

/-- A HEALTHY node with an UNAVAILABLE copy was HEALTHY before, or its return begins. -/
theorem returns_of_away (clearing : Clearing roster s) (h : exec call s.db = .ok (r, db'))
    (before : s.db.replicaState c n = some .unavailable)
    (state : db'.replicaState c n = some .unavailable) (healthy : db'.healthyNode n) :
    n ∈ s.returns call.op := by
  have change := exec_change h
  have handled (was : s.db.healthyNode n) : n ∈ s.returns call.op := by
    have returning := clearing.away c n before was
    generalize call.op = op at change
    unfold Site.returns
    split
    · next id =>
        refine List.mem_filter.mpr ⟨returning, decide_eq_true fun same => ?_⟩
        exact change.not_unavailable (same ▸ state)
    · split
      · split
        · exact returning
        · exact List.mem_cons_of_mem _ returning
      · exact returning
  rcases change.nodes_cases n with same | ⟨health, records, now_healthy⟩
  · refine handled ?_
    change (s.db.view.nodes n).any _ = true
    rw [← same]
    exact healthy
  · by_cases was : s.db.healthyNode n = true
    · exact handled was
    · obtain rfl := now_healthy healthy
      generalize call.op = op at records
      unfold Site.returns
      split
      · cases records
      · rw [records]
        simp [was]

theorem away_exec (clearing : Clearing roster s) (h : exec call s.db = .ok (r, db'))
    (calm : call.op.strands s.db = false) (state : db'.replicaState c n = some .unavailable)
    (healthy : db'.healthyNode n) : n ∈ s.returns call.op := by
  have change := exec_change h
  have unrecorded (silent : ∀ health, call.op.recordsHealth ≠ some (n, health)) :
      s.db.healthyNode n := by
    have same := (change.nodes_cases n).resolve_right fun ⟨health, records, _⟩ =>
      silent health records
    change (s.db.view.nodes n).any _ = true
    rw [← same]
    exact healthy
  cases change.copy_origin clearing.consistent state with
  | kept before => exact clearing.returns_of_away h before state healthy
  | demoted fails =>
    generalize call.op = op at fails calm change unrecorded
    cases op with
    | setNodeHealth id health =>
      simp only [Op.fails, Bool.and_eq_true, decide_eq_true_eq] at fails
      obtain ⟨rfl, rfl⟩ := fails
      simp [change.not_healthy_of_dead] at healthy
    | markReplicasUnavailableOnNode id =>
      obtain rfl : id = n := by simpa [Op.fails] using fails
      simp [Op.strands, unrecorded (by simp [Op.recordsHealth, Op.registers])] at calm
    | _ => cases fails
  | refused run member other present =>
    have was := unrecorded (by simp [run, Op.recordsHealth, Op.registers])
    obtain ⟨old, found⟩ := Option.isSome_iff_exists.mp present
    obtain ⟨row, listed, rfl, rfl, -⟩ := replicaState_eq_some.mp found
    simp only [run, Op.strands, List.any_eq_false] at calm
    exact absurd (by simp [member, other, was]) (calm row listed)

theorem written_exec (clearing : Clearing roster s) (h : exec call s.db = .ok (r, db'))
    (calm : call.op.strands s.db = false) {row : ChunkRow}
    (found : db'.view.chunks c = some row) (committed : row.state = .committed) :
    db'.replicaState c n ≠ some .writing := by
  intro state
  have change := exec_change h
  -- A copy that was being written is of a chunk that this very call commits.
  have unwritten (writing : s.db.replicaState c n = some .writing) : False := by
    rcases change.committed_cases found committed with ⟨old, before, done⟩ | commit
    · exact clearing.written c n old before done writing
    · obtain ⟨checksum, size, succeeded, failed, minimum, run⟩ := commit
      rw [run] at change calm
      obtain ⟨other, other'⟩ := change.unmentioned_of_writing state
      obtain ⟨copy, listed, rfl, rfl, held⟩ := replicaState_eq_some.mp writing
      simp only [Op.strands, List.any_eq_false] at calm
      exact calm copy listed (by simp [other, other', held])
  cases change.copy_origin clearing.consistent state with
  | kept before => exact unwritten before
  | targeted run =>
    rcases change.committed_cases found committed with ⟨old, before, done⟩ | commit
    · have lookup : s.db.chunks.find? c = some old := before
      simp [run, Op.strands, lookup, done] at calm
    · obtain ⟨_, _, _, _, _, commit⟩ := commit
      cases run.symm.trans commit

theorem enrolled_exec (clearing : Clearing roster s) (h : exec call s.db = .ok (r, db'))
    (enrols : call.op.enrols roster) (present : (db'.view.nodes n).isSome) : n ∈ roster := by
  rcases (exec_change h).nodes_cases n with same | ⟨health, records, -⟩
  · exact clearing.enrolled n (same ▸ present)
  · simpa [Op.enrols, records] using enrols

/-- Every call that strands nothing keeps the invariant. -/
theorem step (clearing : Clearing roster s) (enrols : call.op.enrols roster)
    (calm : call.op.strands s.db = false) : Clearing roster (s.step call) := by
  unfold Site.step
  split
  next r db' h =>
    constructor
    · exact (exec_change h).consistent clearing.consistent
    · exact fun c n => clearing.removed_exec h calm
    · exact fun c n => clearing.away_exec h calm
    · exact fun c n row => clearing.written_exec h calm
    · exact fun n => clearing.enrolled_exec h enrols
  next => exact clearing

end Clearing

/-- A sweep finds every HEALTHY node with a STALE replica, if there are no more nodes than it
looks at. -/
theorem mem_nodesWithStaleReplicas {db : Database} {roster : List NodeID}
    (enrolled : ∀ n, (db.view.nodes n).isSome → n ∈ roster) {limit : Nat}
    (small : roster.length ≤ limit) {row : ReplicaRow} (listed : row ∈ db.replicas.rows)
    (stale : row.state = .stale) (healthy : db.healthyNode row.nodeID) :
    row.nodeID ∈ nodesWithStaleReplicas limit db := by
  unfold nodesWithStaleReplicas
  generalize found : (db.replicas.select fun r => r.state = .stale &&
    (db.nodes.find? r.nodeID).any (·.health = .healthy)).map (·.nodeID) = ids
  have known : ∀ n ∈ ids, n ∈ roster := by
    intro n member
    rw [← found] at member
    obtain ⟨r, selected, rfl⟩ := List.mem_map.mp member
    have up := (List.mem_filter.mp selected).2
    simp only [Bool.and_eq_true] at up
    exact enrolled _ (Option.isSome_of_any up.2)
  have few : (ids.dedup.insertionSort (· ≤ ·)).length ≤ limit := by
    rw [List.length_insertionSort]
    refine Nat.le_trans (List.Nodup.length_le_of_subset ids.nodup_dedup fun n member => ?_) small
    exact known n (List.mem_dedup.mp member)
  rw [List.take_of_length_le few, List.mem_insertionSort, List.mem_dedup, ← found]
  refine List.mem_map.mpr ⟨row, List.mem_filter.mpr ⟨listed, ?_⟩, rfl⟩
  simpa [stale, Database.healthyNode] using healthy

theorem Clearing.unblocked {roster : List NodeID} {s : Site} (clearing : Clearing roster s)
    (small : roster.length ≤ staleSweepLimit) (idle : s.returning = []) : Unblocked s.db := by
  intro r listed kept
  obtain ⟨chunk, found, accountable⟩ := (Option.any_eq_true _ _).mp kept
  have state : s.db.replicaState r.chunkID r.nodeID = some r.state :=
    replicaState_eq_some.mpr ⟨r, listed, rfl, rfl, rfl⟩
  have committed : chunk.state = .committed := by
    simp only [accounted, Bool.and_eq_true, decide_eq_true_eq] at accountable
    exact accountable.1
  unfold Database.clearable
  split
  next => rfl
  next held => exact clearing.removed _ _ (Or.inl (held ▸ state))
  next held => exact clearing.removed _ _ (Or.inr (held ▸ state))
  next held =>
    by_contra up
    have returning := clearing.away _ _ (held ▸ state) (by simpa using up)
    simp [idle] at returning
  next held => exact absurd (held ▸ state) (clearing.written _ _ chunk found committed)
  next held =>
    by_cases up : s.db.healthyNode r.nodeID = true
    · simpa [up] using mem_nodesWithStaleReplicas clearing.enrolled small listed held up
    · simp [up]

theorem clearing_empty (roster : List NodeID) : Clearing roster Site.empty where
  consistent := consistent_empty
  removed c n state := by simp [Site.empty, Database.replicaState, Database.empty] at state
  away c n state := by simp [Site.empty, Database.replicaState, Database.empty] at state
  written c n row found := by simp [Site.empty, Database.view, Database.empty] at found
  enrolled n present := by simp [Site.empty, Database.view, Database.empty] at present

def threeNodes : List Call :=
  [⟨0, .upsertNode "n1" "n1:9000" .healthy {} 0⟩, ⟨0, .markReplicasStaleOnNode "n1"⟩,
    ⟨0, .upsertNode "n2" "n2:9000" .healthy {} 0⟩, ⟨0, .markReplicasStaleOnNode "n2"⟩,
    ⟨0, .upsertNode "n3" "n3:9000" .healthy {} 0⟩, ⟨0, .markReplicasStaleOnNode "n3"⟩]

/-- One of the nodes is away when the chunk is committed and returns later, and the copy on
another one has rotted. -/
def absentTarget : List Call :=
  threeNodes ++ [⟨1, .beginUpload 1 "b" "k" "" 8⟩, ⟨2, .reserveChunk 10 ⟨some 1, none⟩ 0 8⟩,
    ⟨3, .recordChunkTargets 10 ["n1", "n2", "n3"]⟩, ⟨4, .setNodeHealth "n3" .dead⟩,
    ⟨5, .commitChunk 10 5 8 ["n1", "n2"] ["n3"] 2⟩, ⟨6, .completeUpload 1 8 1 "e"⟩,
    ⟨7, .recordHeartbeat "n3" "n3:9000" {} .healthy 7⟩, ⟨8, .markReplicasStaleOnNode "n3"⟩,
    ⟨9, .markReplicaCorrupt 10 "n2" "checksum mismatch"⟩]

/-- A write fails on a node that is HEALTHY all the time. -/
def partialWrite : List Call :=
  threeNodes ++ [⟨1, .beginUpload 1 "b" "k" "" 8⟩, ⟨2, .reserveChunk 10 ⟨some 1, none⟩ 0 8⟩,
    ⟨3, .recordChunkTargets 10 ["n1", "n2", "n3"]⟩,
    ⟨4, .commitChunk 10 5 8 ["n1", "n2"] ["n3"] 2⟩, ⟨5, .completeUpload 1 8 1 "e"⟩]

/-- An allocation is repeated and its chunk placed on other nodes. -/
def replacedTargets : List Call :=
  threeNodes ++ [⟨1, .beginUpload 1 "b" "k" "" 8⟩, ⟨2, .reserveChunk 10 ⟨some 1, none⟩ 0 8⟩,
    ⟨3, .recordChunkTargets 10 ["n1", "n2"]⟩, ⟨4, .reserveChunk 11 ⟨some 1, none⟩ 0 8⟩,
    ⟨5, .recordChunkTargets 10 ["n1", "n3"]⟩, ⟨6, .commitChunk 10 5 8 ["n1", "n3"] [] 2⟩,
    ⟨7, .completeUpload 1 8 1 "e"⟩]

/-- The removal of a rotten copy fails eight times. -/
def abandonedRemoval : List Call :=
  threeNodes ++ [⟨1, .beginUpload 1 "b" "k" "" 8⟩, ⟨2, .reserveChunk 10 ⟨some 1, none⟩ 0 8⟩,
    ⟨3, .recordChunkTargets 10 ["n1", "n2"]⟩, ⟨4, .commitChunk 10 5 8 ["n1", "n2"] [] 2⟩,
    ⟨5, .completeUpload 1 8 1 "e"⟩, ⟨6, .markReplicaCorrupt 10 "n1" "checksum mismatch"⟩] ++
  (List.range 8).flatMap fun i => [⟨10 + 20 * i, .claimDeletions 16 5⟩,
    ⟨11 + 20 * i, .failDeletion 1 "timeout" 5 8⟩]

end FlexStore.Metadata
