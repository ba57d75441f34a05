import FlexStore.Metadata.Deaths

/-!
# The automaton of one copy

`SlotMove` lists what one transaction can do to the copy of one chunk on one node:
its recorded state and whether its removal is queued. Each move names the call that
makes it, so that a condition on calls rules moves out, and what the call looked at.
Every transaction takes every slot along one of these moves (`Change.slot_move`).
-/

namespace FlexStore.Metadata

open Relational Transition View

/-- The call declares the node failed. -/
def Op.fails (n : NodeID) : Op → Bool
  | .setNodeHealth id health => id = n && health = .dead
  | .markReplicasUnavailableOnNode id => id = n
  | _ => false

inductive SlotMove (db db' : Database) (op : Op) (c : UUID) (n : NodeID) (s : Slot) : Slot → Prop
  | same : SlotMove db db' op c n s s
  | demoted (call : op.fails n)
      (state : s.replica = some .available ∨ s.replica = some .writing) :
      SlotMove db db' op c n s ⟨some .unavailable, s.queued⟩
  | staled (state : s.replica = some .unavailable) :
      SlotMove db db' op c n s ⟨some .stale, s.queued⟩
  | condemned {row : ChunkRow} (found : db'.view.chunks c = some row)
      (dead : db'.view.status row.owner = .dead) : SlotMove db db' op c n s s.condemn
  | targeted {targets : List NodeID} (call : op = .recordChunkTargets c targets)
      (member : n ∈ targets) (present : db.view.referenced c n) :
      SlotMove db db' op c n s ⟨some .writing, s.queued⟩
  | acknowledged {checksum : Checksum} {sizeBytes minReplicas : Int}
      {succeeded failed : List NodeID}
      (call : op = .commitChunk c checksum sizeBytes succeeded failed minReplicas)
      (member : n ∈ succeeded) (present : db.view.referenced c n) :
      SlotMove db db' op c n s ⟨some .available, s.queued⟩
  | refused {checksum : Checksum} {sizeBytes minReplicas : Int} {succeeded failed : List NodeID}
      (call : op = .commitChunk c checksum sizeBytes succeeded failed minReplicas)
      (member : n ∈ failed) (other : n ∉ succeeded) (present : s.replica.isSome) :
      SlotMove db db' op c n s ⟨some .unavailable, s.queued⟩
  | trimmed (call : op.trims c)
      (state : s.replica = some .available ∨ s.replica = some .deleting) :
      SlotMove db db' op c n s ⟨some .deleting, true⟩
  | repaired {jobID : Nat} (call : op = .completeRepair jobID c n)
      (present : db.view.referenced c n) : SlotMove db db' op c n s ⟨some .available, s.queued⟩
  | corrupted {detail : String} (call : op = .markReplicaCorrupt c n detail) :
      SlotMove db db' op c n s
        ⟨s.replica.map fun old => if old = .deleting then old else .corrupt, true⟩
  | dropped (call : op = .dropReplica c n) : SlotMove db db' op c n s ⟨none, s.queued⟩
  | promoted (call : op = .promoteVerifiedReplica c n) (state : s.replica = some .stale) :
      SlotMove db db' op c n s ⟨some .available, s.queued⟩
  | orphanQueued (call : op = .queueOrphanDeletion c n) (absent : s.replica = none) :
      SlotMove db db' op c n s ⟨none, true⟩
  | finished {id : Nat} {c' : UUID} {n' : NodeID} (call : op = .finishDeletion id c' n') :
      SlotMove db db' op c n s ⟨if c' = c ∧ n' = n then none else s.replica,
        s.queued && jobPair db id ≠ some (c, n)⟩
  | abandoned {id : Nat} {cause : String} {backoff : Duration} {maxAttempts : Int}
      (call : op = .failDeletion id cause backoff maxAttempts)
      (pair : jobPair db id = some (c, n)) :
      SlotMove db db' op c n s ⟨s.replica.filter (· ≠ .deleting), false⟩

variable {db db' : Database} {op : Op} {r : Reply} {c : UUID} {n : NodeID}

theorem View.Deaths.slot_move {p : Owner → Bool} (deaths : db.view.Deaths db'.view p) :
    SlotMove db db' op c n (db.view.slots c n) (db'.view.slots c n) := by
  rw [deaths.slots c n]
  split
  · next owned =>
      obtain ⟨row, found, mine⟩ := (Option.any_eq_true _ _).mp owned
      exact .condemned found (deaths.dead _ mine)
  · exact .same

theorem filter_keep {α : Type} (o : Option α) : o.filter (fun _ => true) = o := by
  cases o <;> rfl

theorem slot_mapReplicas {f : UUID → NodeID → ReplicaState → ReplicaState} (v : View) :
    (v.mapReplicas f).slots c n = ⟨(v.slots c n).replica.map (f c n), (v.slots c n).queued⟩ := rfl

/-- A rule for the recorded states moves the copies that it selects. -/
theorem SlotMove.of_map {s s' : Slot} {p : ReplicaState → Bool} {x : ReplicaState}
    (slot : s' = ⟨s.replica.map fun old => if p old then x else old, s.queued⟩)
    (selected : ∀ old, s.replica = some old → p old →
      SlotMove db db' op c n s ⟨some x, s.queued⟩) : SlotMove db db' op c n s s' := by
  rw [slot]
  obtain ⟨_ | old, queued⟩ := s
  · exact .same
  · by_cases chosen : p old = true
    · rw [Option.map_some, if_pos chosen]
      exact selected old rfl chosen
    · rw [Option.map_some, if_neg chosen]
      exact .same

theorem slot_demoteNode {id : NodeID} (call : op.fails id)
    (view : db'.view.slots = (db.view.demoteNode id).slots) :
    SlotMove db db' op c n (db.view.slots c n) (db'.view.slots c n) := by
  refine .of_map (congrFun₂ view c n) ?_
  intro old found chosen
  simp only [Bool.and_eq_true, Bool.or_eq_true, decide_eq_true_eq] at chosen
  obtain ⟨rfl, state⟩ := chosen
  exact .demoted call (by simpa [found] using state)

/-- Every transaction takes every slot along one of the moves. -/
theorem Change.slot_move (change : Change db db' op r) (consistent : db.view.Consistent)
    (c : UUID) (n : NodeID) : SlotMove db db' op c n (db.view.slots c n) (db'.view.slots c n) := by
  cases change with
  | completed id _ _ _ _ row found _ _ _ _ view =>
    exact (Deaths.completed rfl (fun _ same => object_id same) view).slot_move
  | failed _ _ _ _ accepting view => exact (Deaths.failed accepting view).slot_move
  | deleted _ _ _ _ found current view =>
    exact (Deaths.deleted consistent found current view).slot_move
  | partBegun _ _ _ _ _ found progress fresh view =>
    exact (Deaths.restarted found progress fresh view).slot_move
  | assembled _ _ _ _ _ _ _ _ _ _ _ _ fresh new _ _ _ _ promoted view =>
    exact (Deaths.assembled fresh (by rw [new]; rfl) rfl promoted view).slot_move
  | sessionsAborted _ _ _ view => exact (Deaths.aborted view).slot_move
  | healthSet id health now view =>
    split at view
    · next dead =>
        have call : (Op.setNodeHealth id health).fails id := by simp [Op.fails, dead]
        exact slot_demoteNode call (by rw [view]; rfl)
    · rw [view]
      exact .same
  | demoted id view =>
    have call : (Op.markReplicasUnavailableOnNode id).fails id := by simp [Op.fails]
    exact slot_demoteNode call (congrArg View.slots view)
  | staled id view =>
    refine .of_map (congrFun₂ (congrArg View.slots view) c n) ?_
    intro old found chosen
    simp only [Bool.and_eq_true, decide_eq_true_eq] at chosen
    exact .staled (by rw [found, chosen.2])
  | targeted k targets present view =>
    rw [congrArg View.slots view]
    simp only [View.setReplicas]
    split
    · next chosen =>
        obtain ⟨rfl, member⟩ := chosen
        exact .targeted rfl member (present n member)
    · exact .same
  | committed k checksum size succeeded failed minimum now row session found present _ _ view =>
    have slot : db'.view.slots c n = (db.view.acknowledge k succeeded failed).slots c n :=
      congrFun₂ (congrArg View.slots view) c n
    rw [slot]
    simp only [View.acknowledge, View.setReplicas, slot_mapReplicas]
    by_cases chunk : k = c
    · subst chunk
      by_cases good : n ∈ succeeded
      · simpa [good] using .acknowledged rfl good (present n good)
      · by_cases bad : n ∈ failed
        · cases old : db.view.slots k n with
          | mk replica queued =>
            cases replica with
            | none => simpa [good, bad] using .same
            | some s => simpa [good, bad] using .refused rfl bad good rfl
        · simpa [good, bad] using .same
    · have other : c ≠ k := fun same => chunk same.symm
      simpa [chunk, other] using .same
  | trimmed quiet slots trims view =>
    have slot : db'.view.slots c n = slots c n := congrFun₂ (congrArg View.slots view) c n
    rw [slot]
    obtain same | ⟨call, same | ⟨state, same⟩⟩ := trims c n <;> rw [same]
    · exact .same
    · exact .same
    · exact .trimmed call state
  | repaired jobID k m present view =>
    rw [congrArg View.slots view]
    simp only [View.setReplicas, List.mem_singleton]
    split
    · next chosen =>
        obtain ⟨rfl, rfl⟩ := chosen
        exact .repaired rfl present
    · exact .same
  | corrupted k m detail present view =>
    have slot : db'.view.slots c n = ⟨(db.view.slots c n).replica.map fun old =>
        if c = k && n = m && old ≠ .deleting then .corrupt else old,
        (db.view.slots c n).queued || decide (k = c ∧ m = n)⟩ :=
      congrFun₂ (congrArg View.slots view) c n
    rw [slot]
    by_cases mine : c = k ∧ n = m
    · obtain ⟨rfl, rfl⟩ := mine
      simpa using SlotMove.corrupted rfl
    · have skipped : (c = k && n = m) = false := by simpa using mine
      have other : ¬(k = c ∧ m = n) := fun same => mine ⟨same.1.symm, same.2.symm⟩
      simpa [skipped, other] using .same
  | dropped k m view =>
    have slot : db'.view.slots c n = ⟨(db.view.slots c n).replica.filter fun _ =>
        !(c = k && n = m), (db.view.slots c n).queued⟩ :=
      congrFun₂ (congrArg View.slots view) c n
    rw [slot]
    by_cases mine : c = k ∧ n = m
    · obtain ⟨rfl, rfl⟩ := mine
      simpa using .dropped rfl
    · have skipped : (c = k && n = m) = false := by simpa using mine
      simpa [skipped, filter_keep] using .same
  | promoted k m view =>
    refine .of_map (congrFun₂ (congrArg View.slots view) c n) ?_
    intro old found chosen
    simp only [Bool.and_eq_true, decide_eq_true_eq] at chosen
    obtain ⟨⟨rfl, rfl⟩, rfl⟩ := chosen
    exact .promoted rfl found
  | orphanQueued k m absent idle view =>
    have slot : db'.view.slots c n = ⟨(db.view.slots c n).replica,
        (db.view.slots c n).queued || decide (k = c ∧ m = n)⟩ :=
      congrFun₂ (congrArg View.slots view) c n
    rw [slot]
    by_cases mine : k = c ∧ m = n
    · obtain ⟨rfl, rfl⟩ := mine
      simpa [absent] using .orphanQueued rfl absent
    · simpa [mine] using .same
  | finished id k m view =>
    have slot : db'.view.slots c n = ⟨(db.view.slots c n).replica.filter fun _ =>
        !(c = k && n = m), (db.view.slots c n).queued && jobPair db id ≠ some (c, n)⟩ :=
      congrFun₂ (congrArg View.slots view) c n
    have move : SlotMove db db' (.finishDeletion id k m) c n (db.view.slots c n) _ :=
      .finished rfl
    rw [slot]
    by_cases mine : k = c ∧ m = n
    · obtain ⟨rfl, rfl⟩ := mine
      simpa using move
    · have skipped : (c = k && n = m) = false := by
        simpa [eq_comm (a := c), eq_comm (a := n)] using mine
      simpa [skipped, mine, filter_keep] using move
  | abandoned id cause backoff maxAttempts k m pair view =>
    have slot : db'.view.slots c n = ⟨(db.view.slots c n).replica.filter fun s =>
        !(c = k && n = m && s = .deleting),
        (db.view.slots c n).queued && some (k, m) ≠ some (c, n)⟩ :=
      congrFun₂ (congrArg View.slots view) c n
    rw [slot]
    by_cases mine : c = k ∧ n = m
    · obtain ⟨rfl, rfl⟩ := mine
      have move : SlotMove db db' (.failDeletion id cause backoff maxAttempts) c n
          (db.view.slots c n) _ := .abandoned rfl pair
      simpa using move
    · have skipped : (c = k && n = m) = false := by simpa using mine
      have other : ¬(k = c ∧ m = n) := fun same => mine ⟨same.1.symm, same.2.symm⟩
      simpa [skipped, other, filter_keep] using .same
  | _ =>
    rename db'.view = _ => view
    rw [congrArg View.slots view]
    exact .same

/-- The call reports that the node holds the chunk: a commit that lists the node as
succeeded, a finished repair copy, or a verified promotion of a STALE copy. -/
def Op.reports (db : Database) (c : UUID) (n : NodeID) : Op → Bool
  | .commitChunk k _ _ succeeded _ _ => k = c && n ∈ succeeded
  | .completeRepair _ k m => k = c && m = n
  | .promoteVerifiedReplica k m => k = c && m = n && db.replicaState c n = some .stale
  | _ => false

/-- Why a copy is in a state after a call: it was before, or the call has just made it so. -/
inductive CopyOrigin (db : Database) (op : Op) (c : UUID) (n : NodeID) : ReplicaState → Prop
  | kept {x : ReplicaState} (before : db.replicaState c n = some x) : CopyOrigin db op c n x
  | reported (report : op.reports db c n) : CopyOrigin db op c n .available
  | demoted (call : op.fails n)
      (before : db.replicaState c n = some .available ∨ db.replicaState c n = some .writing) :
      CopyOrigin db op c n .unavailable
  | refused {checksum : Checksum} {sizeBytes minReplicas : Int} {succeeded failed : List NodeID}
      (call : op = .commitChunk c checksum sizeBytes succeeded failed minReplicas)
      (member : n ∈ failed) (other : n ∉ succeeded) (present : (db.replicaState c n).isSome) :
      CopyOrigin db op c n .unavailable
  | staled (before : db.replicaState c n = some .unavailable) : CopyOrigin db op c n .stale
  | targeted {targets : List NodeID} (call : op = .recordChunkTargets c targets)
      (member : n ∈ targets) : CopyOrigin db op c n .writing
  | corrupted {detail : String} (call : op = .markReplicaCorrupt c n detail) :
      CopyOrigin db op c n .corrupt
  | condemned : CopyOrigin db op c n .deleting

/-- Every copy that is there after a call has an origin. -/
theorem Change.copy_origin (change : Change db db' op r) (consistent : db.view.Consistent)
    {x : ReplicaState} (after : db'.replicaState c n = some x) : CopyOrigin db op c n x := by
  have move := change.slot_move consistent c n
  change (db'.view.slots c n).replica = _ at after
  generalize db'.view.slots c n = s' at move after
  cases move with
  | same => exact .kept after
  | demoted call state =>
    cases after
    exact .demoted call state
  | staled state =>
    cases after
    exact .staled state
  | condemned =>
    obtain ⟨old, -, rfl⟩ := Option.map_eq_some_iff.mp after
    exact .condemned
  | targeted call member =>
    cases after
    exact .targeted call member
  | acknowledged call member =>
    cases after
    subst call
    exact .reported (by simpa [Op.reports] using member)
  | refused call member other present =>
    cases after
    exact .refused call member other present
  | trimmed =>
    cases after
    exact .condemned
  | repaired call =>
    cases after
    subst call
    exact .reported (by simp [Op.reports])
  | corrupted call =>
    obtain ⟨old, before, same⟩ := Option.map_eq_some_iff.mp after
    split at same
    · exact .kept (same ▸ before)
    · exact same ▸ .corrupted call
  | promoted call state =>
    cases after
    subst call
    have before : db.replicaState c n = some .stale := state
    exact .reported (by simp [Op.reports, before])
  | finished =>
    split at after
    · cases after
    · exact .kept after
  | abandoned => exact .kept (Option.filter_eq_some_iff.mp after).1
  | dropped | orphanQueued => cases after

/-- A copy is AVAILABLE because it was, or because a report has just come in. -/
theorem Change.available (change : Change db db' op r) (consistent : db.view.Consistent)
    (after : db'.replicaState c n = some .available) :
    db.replicaState c n = some .available ∨ op.reports db c n := by
  cases change.copy_origin consistent after with
  | kept before => exact Or.inl before
  | reported report => exact Or.inr report

end FlexStore.Metadata
