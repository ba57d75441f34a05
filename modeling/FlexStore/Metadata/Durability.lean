import FlexStore.Metadata.Sealed

/-!
# Durability of a completed upload

The policy asks for a minimum number of AVAILABLE copies of every chunk. A commit
enforces it and completion counts on it: it looks at chunk states only. Recording
targets does not look at the chunk at all and takes the copies it lists back to WRITING.
An allocation that arrives late, after the chunk was committed, can therefore undo what
the commit established.
-/

namespace FlexStore.Metadata

open Relational Transition View

/-- The number of AVAILABLE copies of a chunk on nodes that are not listed. -/
def Database.availableOutside (db : Database) (c : UUID) (targets : List NodeID) : Nat :=
  db.replicas.count fun r => r.chunkID = c && r.state = .available && r.nodeID ∉ targets

/-- The call is none of the transactions of a single-shot upload of the object under the
policy of at least `m` copies, and it concerns the upload: a node fails, a copy of one of
its chunks is reported corrupt, dropped, trimmed or reclaimed, a chunk is committed under
another policy, or the object is put together from parts. -/
def Op.disturbs (o : UUID) (m : Int) (db : Database) : Op → Bool
  | .setNodeHealth _ health => health = .dead
  | .markReplicasUnavailableOnNode _ => true
  | .markReplicaCorrupt c _ _ | .dropReplica c _ | .trimChunk _ c | .finishDeletion _ c _ =>
    db.ownedBy c (.object o)
  | .trimOverReplicatedChunks .. => !(chunksOf (.object o) db).isEmpty
  | .commitChunk c _ _ _ _ minReplicas => db.ownedBy c (.object o) && minReplicas ≠ m
  | .completeMultipartUpload id .. => id = o
  | _ => false

/-- The call records targets for a COMMITTED chunk of the object, and fewer than `m` of its
AVAILABLE copies are on other nodes. -/
def Op.retargets (o : UUID) (m : Int) (db : Database) : Op → Bool
  | .recordChunkTargets c targets =>
    (db.chunks.find? c).any (fun row => row.owner = .object o && row.state = .committed) &&
      (db.availableOutside c targets : Int) < m
  | _ => false

/-- While the object is COMPLETE, each of its chunks has at least `m` AVAILABLE copies. -/
def Durable (o : UUID) (m : Int) (db : Database) : Prop :=
  db.complete o → ∀ row ∈ chunksOf (.object o) db, m ≤ db.countAvailable row.id

instance (o : UUID) (m : Int) (db : Database) : Decidable (Durable o m db) :=
  inferInstanceAs (Decidable (_ → _))

variable {db db' : Database} {op : Op} {r : Reply} {c o : UUID} {m : Int}

theorem countAvailable_eq (db : Database) (c : UUID) :
    db.countAvailable c = db.availableOutside c [] := by
  simp [Database.countAvailable, Database.availableIn, Database.availableOutside]

/-- Copies that stay AVAILABLE stay counted. -/
theorem availableOutside_le {targets : List NodeID}
    (kept : ∀ n, n ∉ targets → (db.view.slots c n).replica = some .available →
      (db'.view.slots c n).replica = some .available) :
    db.availableOutside c targets ≤ db'.countAvailable c := by
  refine Table.count_le_count fun k row found counted => ?_
  simp only [Bool.and_eq_true, decide_eq_true_eq] at counted
  obtain ⟨⟨rfl, state⟩, other⟩ := counted
  obtain rfl : row.key = k := (Table.mem_of_find? found).2
  have before : (db.view.slots row.chunkID row.nodeID).replica = some .available := by
    change (db.replicas.find? (row.chunkID, row.nodeID)).map (·.state) = _
    change db.replicas.find? (row.chunkID, row.nodeID) = some row at found
    rw [found, ← state]
    rfl
  have after : (db'.replicas.find? row.key).map (·.state) = some .available :=
    kept row.nodeID other before
  obtain ⟨row', lookup, available⟩ := Option.map_eq_some_iff.mp after
  have mine : row'.key = row.key := (Table.mem_of_find? lookup).2
  have chunk : row'.chunkID = row.chunkID := congrArg Prod.fst mine
  exact ⟨row', lookup, by simp [chunk, available]⟩

/-- The chunks of the object that are COMMITTED have their copies, as long as the object
is not dead. -/
def Backed (o : UUID) (m : Int) (db : Database) : Prop :=
  ∀ c row, db.view.chunks c = some row → row.owner = .object o → row.state = .committed →
    db.view.status (.object o) ≠ .dead → m ≤ db.countAvailable c

section Step

variable {row : ChunkRow}

theorem ownedBy_of_found {owner : Owner} (found : db.view.chunks c = some row)
    (mine : row.owner = owner) : db.ownedBy c owner = true := by
  change db.chunks.find? c = some row at found
  simp [Database.ownedBy, found, mine]

/-- A call that does not disturb the upload, commits no copy and records no target takes
no AVAILABLE copy away. -/
theorem Change.copy_kept (change : Change db db' op r) (consistent : db.view.Consistent)
    (calm : op.disturbs o m db = false) (before : db.view.chunks c = some row)
    (after : db'.view.chunks c = some row) (mine : row.owner = .object o)
    (alive : db'.view.status (.object o) ≠ .dead)
    (uncommitted : ∀ checksum size succeeded failed min,
      op ≠ .commitChunk c checksum size succeeded failed min) {n : NodeID}
    (untargeted : ∀ targets, op = .recordChunkTargets c targets → n ∉ targets)
    (available : (db.view.slots c n).replica = some .available) :
    (db'.view.slots c n).replica = some .available := by
  have owned := ownedBy_of_found before mine
  have move := change.slot_move consistent c n
  generalize db'.view.slots c n = s' at move ⊢
  cases move with
  | same => exact available
  | demoted call => cases op <;> simp_all [Op.fails, Op.disturbs]
  | staled state => simp [state] at available
  | condemned found dead =>
    obtain rfl := Option.some.inj (found.symm.trans after)
    exact absurd (mine ▸ dead) alive
  | targeted call member => exact absurd member (untargeted _ call)
  | acknowledged | repaired | promoted => rfl
  | refused call => exact absurd call (uncommitted _ _ _ _ _)
  | trimmed call =>
    have listed : row ∈ chunksOf (.object o) db :=
      mem_chunksOf.mpr ⟨by rw [chunk_id before]; exact before, mine⟩
    cases op with
    | trimChunk _ k => simp_all [Op.trims, Op.disturbs]
    | trimOverReplicatedChunks =>
      have empty : chunksOf (.object o) db = [] := by simpa [Op.disturbs] using calm
      simp [empty] at listed
    | _ => cases call
  | corrupted call | dropped call => simp [call, Op.disturbs, owned] at calm
  | orphanQueued _ absent => simp [absent] at available
  | @finished _ k _ call =>
    have other : k ≠ c := by
      rintro rfl
      simp [call, Op.disturbs, owned] at calm
    simp [other, available]
  | abandoned => simp [available]

/-- A commit of one of the object's chunks enforces the policy. -/
theorem commit_policy {checksum : Checksum} {sizeBytes minReplicas : Int}
    {succeeded failed : List NodeID}
    (calm : (Op.commitChunk c checksum sizeBytes succeeded failed minReplicas).disturbs o m db =
      false) (before : db.view.chunks c = some row) (mine : row.owner = .object o) :
    minReplicas = m := by
  simpa [Op.disturbs, ownedBy_of_found before mine] using calm

/-- A chunk whose row does not change keeps enough copies. -/
theorem Change.backed_chunk (change : Change db db' op r) (consistent : db.view.Consistent)
    (calm : op.disturbs o m db = false) (timely : op.retargets o m db = false)
    (holds : Backed o m db) (before : db.view.chunks c = some row)
    (after : db'.view.chunks c = some row) (mine : row.owner = .object o)
    (state : row.state = .committed) (alive : db'.view.status (.object o) ≠ .dead) :
    m ≤ db'.countAvailable c := by
  have spared : db.view.status (.object o) ≠ .dead := by
    intro dead
    exact alive (mine ▸ change.stays_dead consistent after (mine ▸ dead))
  have enough := holds c row before mine state spared
  by_cases commits : ∃ checksum size succeeded failed min,
      op = .commitChunk c checksum size succeeded failed min
  · obtain ⟨_, _, _, _, _, rfl⟩ := commits
    obtain ⟨_, _, -, -, durable, -⟩ := change.commit
    rwa [commit_policy calm before mine] at durable
  simp only [not_exists] at commits
  have kept := fun n => change.copy_kept consistent calm before after mine alive commits (n := n)
  by_cases targets : ∃ targets, op = .recordChunkTargets c targets
  · obtain ⟨targets, rfl⟩ := targets
    have outside : m ≤ db.availableOutside c targets := by
      change db.chunks.find? c = some row at before
      simpa [Op.retargets, before, mine, state] using timely
    have fewer : db.availableOutside c targets ≤ db'.countAvailable c := by
      refine availableOutside_le fun n other => kept n ?_
      rintro _ ⟨⟩
      exact other
    omega
  · simp only [not_exists] at targets
    rw [countAvailable_eq] at enough
    have fewer : db.availableOutside c [] ≤ db'.countAvailable c :=
      availableOutside_le fun n _ => kept n fun listed call => absurd call (targets listed)
    omega

theorem Change.backed (change : Change db db' op r) (consistent : db.view.Consistent)
    (calm : op.disturbs o m db = false) (timely : op.retargets o m db = false)
    (holds : Backed o m db) : Backed o m db' := by
  intro c row found mine state alive
  have move := change.chunk_move c
  rw [found] at move
  generalize before : db.view.chunks c = x at move
  cases move with
  | same => exact change.backed_chunk consistent calm timely holds before found mine state alive
  | reserved _ _ _ _ pending => simp [pending] at state
  | reset => simp [ChunkRow.reset] at state
  | committed _ _ _ _ _ _ call _ durable =>
    subst call
    rwa [commit_policy calm before mine] at durable
  | orphaned => cases state
  | assembled _ _ _ call =>
    cases mine
    simp [call, Op.disturbs] at calm

end Step

/-- The transactions of an upload, in any order and repeated in any way, with whatever else
the store does that does not disturb the upload: if no allocation records targets for a
chunk that is already COMMITTED and needs the copies listed, then in every state reached in
which the object is COMPLETE each of its chunks has at least `m` AVAILABLE copies. -/
theorem completed_upload_durable {calls : List Call}
    (guarded : Guarded step (fun db call => call.op.disturbs o m db = false ∧
      call.op.retargets o m db = false) Database.empty calls) :
    Always step (Durable o m) Database.empty calls := by
  have invariant : Always step (fun db => Sealed db ∧ Backed o m db) Database.empty calls := by
    refine always_of_change ?_ consistent_empty ⟨sealed_empty, ?_⟩ guarded
    · rintro db db' call r consistent ⟨calm, timely⟩ ⟨sealed, backed⟩ change
      exact ⟨change.sealed consistent sealed, change.backed consistent calm timely backed⟩
    · intro c row found
      simp [Database.view, Database.empty] at found
  refine invariant.mono ?_
  rintro db ⟨sealed, backed⟩ complete row listed
  obtain ⟨found, mine⟩ := mem_chunksOf.mp listed
  have status := complete_iff.mp complete
  exact backed _ row found mine (sealed.committed _ row found (mine ▸ status)) (by simp [status])

/-- An upload with two copies of its chunk in which the first attempt at the allocation is
repeated before the chunk is committed. -/
def retriedAllocation : List Call :=
  [⟨0, .upsertNode "n1" "n1:9000" .healthy {} 0⟩, ⟨0, .upsertNode "n2" "n2:9000" .healthy {} 0⟩,
    ⟨1, .beginUpload 1 "b" "k" "" 8⟩, ⟨2, .reserveChunk 10 ⟨some 1, none⟩ 0 8⟩,
    ⟨3, .reserveChunk 11 ⟨some 1, none⟩ 0 8⟩, ⟨4, .recordChunkTargets 10 ["n1", "n2"]⟩,
    ⟨5, .recordChunkTargets 10 ["n1", "n2"]⟩, ⟨6, .commitChunk 10 5 8 ["n1", "n2"] [] 2⟩,
    ⟨7, .completeUpload 1 8 1 "e"⟩]

theorem completed_upload_durable_retriedAllocation :
    (run step Database.empty retriedAllocation).complete 1 ∧
      (run step Database.empty retriedAllocation).countAvailable 10 = 2 ∧
      Always step (Durable 1 2) Database.empty retriedAllocation :=
  ⟨by decide, by decide, completed_upload_durable (by decide)⟩

/-- The same upload, but the second transaction of the first attempt is delayed until the
upload has completed. -/
def delayedTargets : List Call :=
  [⟨0, .upsertNode "n1" "n1:9000" .healthy {} 0⟩, ⟨0, .upsertNode "n2" "n2:9000" .healthy {} 0⟩,
    ⟨1, .beginUpload 1 "b" "k" "" 8⟩, ⟨2, .reserveChunk 10 ⟨some 1, none⟩ 0 8⟩,
    ⟨3, .reserveChunk 11 ⟨some 1, none⟩ 0 8⟩, ⟨4, .recordChunkTargets 10 ["n1", "n2"]⟩,
    ⟨5, .commitChunk 10 5 8 ["n1", "n2"] [] 2⟩, ⟨6, .completeUpload 1 8 1 "e"⟩,
    ⟨7, .recordChunkTargets 10 ["n1", "n2"]⟩]

/-- Nothing disturbs the upload, and yet the COMPLETE object has no AVAILABLE copy left. -/
theorem delayed_targets_undo_commit :
    Guarded step (fun db call => call.op.disturbs 1 2 db = false) Database.empty delayedTargets ∧
      (run step Database.empty delayedTargets).complete 1 ∧
      (run step Database.empty delayedTargets).countAvailable 10 = 0 ∧
      ¬Durable 1 2 (run step Database.empty delayedTargets) := by
  decide

end FlexStore.Metadata
