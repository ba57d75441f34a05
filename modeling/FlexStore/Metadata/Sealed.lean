import FlexStore.Metadata.Integrity
import FlexStore.Metadata.Owners

/-!
# Sealed owners

A COMPLETE object, or a COMPLETE part of an open session, has all the chunks it
declared, every one of them COMMITTED, and it keeps the rows of its chunks until it
dies. The only call that still writes to one of them is a commit that comes late.

The purges trust the ORPHANED mark and the states of objects without looking further;
since only dead owners have ORPHANED chunks, they spare every chunk of a live owner.
-/

namespace FlexStore.Metadata

open Relational Transition View

variable {db db' : Database} {op : Op} {r : Reply} {c : UUID} {o : Owner}

/-- The owner of a chunk that stays owned stays dead. -/
theorem Change.stays_dead (change : Change db db' op r) (consistent : db.view.Consistent)
    {row : ChunkRow} (held : db'.view.chunks c = some row)
    (dead : db.view.status row.owner = .dead) : db'.view.status row.owner = .dead := by
  have moves := change.status_moves consistent row.owner
  rw [dead] at moves
  exact moves.resolve_right ((change.consistent consistent).chunk_owner held)

def OrphansDead (db : Database) : Prop :=
  ∀ c row, db.view.chunks c = some row → row.state = .orphaned →
    db.view.status row.owner = .dead

theorem Change.orphansDead (change : Change db db' op r) (consistent : db.view.Consistent)
    (holds : OrphansDead db) : OrphansDead db' := by
  intro c row found state
  have move := change.chunk_move c
  have owner := change.stays_dead consistent found
  rw [found] at move
  generalize before : db.view.chunks c = o at move
  cases move with
  | same => exact owner (holds _ _ before state)
  | reserved _ _ _ _ pending => simp [pending] at state
  | reset => simp [ChunkRow.reset] at state
  | committed => simp [ChunkRow.commit] at state
  | orphaned dead => exact dead
  | assembled _ _ _ _ committed => simp [committed] at state

def Op.allocates : Op → Bool
  | .reserveChunk .. => true
  | _ => false

/-- The owner neither appears nor dies in a change, and it takes no new chunk. -/
structure Steady (db db' : Database) (op : Op) (o : Owner) : Prop where
  present : db.view.status o ≠ .absent
  alive : db.view.status o ≠ .dead
  spared : db'.view.status o ≠ .dead
  closed : db.view.writable o = false ∨ op.allocates = false

/-- A steady owner keeps its chunk rows; only a commit may rewrite one. -/
theorem Change.steady_chunk (change : Change db db' op r) (orphans : OrphansDead db)
    (steady : Steady db db' op o) (c : UUID) :
    (∀ row, row.owner = o → (db'.view.chunks c = some row ↔ db.view.chunks c = some row)) ∨
      ∃ now checksum sizeBytes succeeded failed minReplicas old,
        op = .commitChunk c checksum sizeBytes succeeded failed minReplicas ∧
        db.view.chunks c = some old ∧ old.owner = o ∧
        db'.view.chunks c = some (old.commit now checksum sizeBytes.toNat) := by
  obtain ⟨present, alive, spared, closed⟩ := steady
  have move := change.chunk_move c
  generalize before : db.view.chunks c = x at move
  generalize after : db'.view.chunks c = y at move
  cases move with
  | same => exact Or.inl fun row mine => Iff.rfl
  | reserved _ _ _ call _ writable =>
    refine Or.inl fun row mine => ⟨?_, by simp⟩
    rintro ⟨⟩
    simp [← mine, writable, call, Op.allocates] at closed
  | reset _ _ _ _ call writable =>
    refine Or.inl fun row mine => ⟨?_, ?_⟩
    · rintro ⟨⟩
      have writable : db.view.writable o = true := mine ▸ writable
      simp [writable, call, Op.allocates] at closed
    · rintro ⟨⟩
      simp [← mine, writable, call, Op.allocates] at closed
  | @committed old now checksum size succeeded failed min call =>
    by_cases mine : old.owner = o
    · exact Or.inr ⟨now, checksum, size, succeeded, failed, min, old, call, rfl, mine, rfl⟩
    · refine Or.inl fun row owner => ⟨?_, ?_⟩
      · rintro ⟨⟩
        exact absurd owner mine
      · rintro ⟨⟩
        exact absurd owner mine
  | orphaned dead =>
    refine Or.inl fun row mine => ⟨?_, ?_⟩
    · rintro ⟨⟩
      exact absurd dead (mine ▸ spared)
    · rintro ⟨⟩
      exact absurd dead (mine ▸ spared)
  | assembled objectID _ _ _ _ _ _ closed fresh =>
    refine Or.inl fun row mine => ⟨?_, ?_⟩
    · rintro ⟨⟩
      exact absurd (mine ▸ status_absent_of_none fresh) present
    · rintro ⟨⟩
      exact absurd closed (mine ▸ spared)
  | purged gone =>
    refine Or.inl fun row mine => ⟨by simp, ?_⟩
    rintro ⟨⟩
    exact absurd (mine ▸ gone.elim (orphans _ _ before) id) alive

/-- The chunks of a steady owner are the same, whatever is read of them that a commit to
the owner does not change. -/
theorem Change.steady_perm {β : Type*} (change : Change db db' op r) (orphans : OrphansDead db)
    (steady : Steady db db' op o) {g : ChunkRow → β} (keyed : ∀ a b, g a = g b → a.id = b.id)
    (blind : ∀ c now checksum sizeBytes succeeded failed minReplicas old,
      op = .commitChunk c checksum sizeBytes succeeded failed minReplicas →
      db.view.chunks c = some old → old.owner = o →
        g (old.commit now checksum sizeBytes.toNat) = g old) :
    ((chunksOf o db').map g).Perm ((chunksOf o db).map g) := by
  refine Table.map_select_perm keyed fun b => ⟨?_, ?_⟩
  · rintro ⟨row, found, mine, rfl⟩
    rcases change.steady_chunk orphans steady row.id with kept | rewritten
    · exact ⟨row, (kept row (of_decide_eq_true mine)).mp found, mine, rfl⟩
    · obtain ⟨now, _, _, _, _, _, old, call, before, owner, after⟩ := rewritten
      obtain rfl := Option.some.inj (found.symm.trans after)
      exact ⟨old, before, decide_eq_true owner,
        (blind _ now _ _ _ _ _ _ call before owner).symm⟩
  · rintro ⟨row, found, mine, rfl⟩
    rcases change.steady_chunk orphans steady row.id with kept | rewritten
    · exact ⟨row, (kept row (of_decide_eq_true mine)).mpr found, mine, rfl⟩
    · obtain ⟨now, _, _, _, _, _, old, call, before, owner, after⟩ := rewritten
      obtain rfl := Option.some.inj (found.symm.trans before)
      exact ⟨row.commit now _ _, after, decide_eq_true owner,
        blind _ now _ _ _ _ _ _ call before owner⟩

/-- The chunks of a steady owner in index order are the same rows, if none is committed. -/
theorem Change.sorted_chunks_kept (change : Change db db' op r) (consistent : db.view.Consistent)
    (orphans : OrphansDead db) (steady : Steady db db' op o)
    (idle : ∀ c checksum sizeBytes succeeded failed minReplicas old,
      op = .commitChunk c checksum sizeBytes succeeded failed minReplicas →
      db.view.chunks c = some old → old.owner ≠ o) :
    (chunksOf o db').insertionSort (fun a b => a.index ≤ b.index) =
      (chunksOf o db).insertionSort fun a b => a.index ≤ b.index := by
  refine Table.sorted_select_eq ?_ ?_
  · intro row mine
    rcases change.steady_chunk orphans steady row.id with kept | rewritten
    · exact kept row (of_decide_eq_true mine)
    · obtain ⟨_, _, _, _, _, _, old, call, found, owner, -⟩ := rewritten
      exact absurd owner (idle _ _ _ _ _ _ old call found)
  · intro a first b second index
    obtain ⟨inTable, owner⟩ := List.mem_filter.mp first
    obtain ⟨inTable', owner'⟩ := List.mem_filter.mp second
    refine Table.eq_of_key inTable inTable' ?_
    exact (change.consistent consistent).index (Table.find?_of_mem inTable)
      (Table.find?_of_mem inTable')
      ((of_decide_eq_true owner).trans (of_decide_eq_true owner').symm) index

/-- The size and the number of chunks that an owner has recorded. -/
def View.declared (v : View) : Owner → Option (Nat × Nat)
  | .object id => (v.objects id).map fun o => (o.sizeBytes, o.chunkCount)
  | .part id => (v.parts id).map fun p => (p.sizeBytes, p.chunkCount)

/-- The owner that a call completes, with the size and the number of chunks it declares. -/
def Op.completes : Op → Option (Owner × Int × Int)
  | .completeUpload id sizeBytes chunkCount _ => some (.object id, sizeBytes, chunkCount)
  | .completePart id sizeBytes chunkCount _ => some (.part id, sizeBytes, chunkCount)
  | _ => none

/-- How an owner that is sealed after a change came to be so. -/
inductive Sealing (db db' : Database) (op : Op) (o : Owner) : Prop
  | kept (before : db.view.status o = .sealed)
      (same : db'.view.declared o = db.view.declared o)
  | completed (sizeBytes chunkCount : Int) (before : db.view.status o = .accepting)
      (call : op.completes = some (o, sizeBytes, chunkCount))
      (durable : allCommitted o chunkCount db) (size : 0 ≤ sizeBytes) (count : 0 ≤ chunkCount)
      (declared : db'.view.declared o = some (sizeBytes.toNat, chunkCount.toNat))
  | assembled (objectID uploadID : UUID) (expected : List CompletedPartRef)
      (sizeBytes chunkCount : Nat) (named : o = .object objectID)
      (call : op = .completeMultipartUpload objectID uploadID expected)
      (fresh : db.view.objects objectID = none)
      (size : (sizeBytes : Int) = totalSize (completeParts uploadID db))
      (all : (assembledChunks uploadID db).length = chunkCount)
      (progress : db.view.progressing uploadID)
      (declared : db'.view.declared o = some (sizeBytes, chunkCount))

/-- Every owner that is sealed after a change was sealed before, has been completed by the
change, or has been assembled by it. -/
theorem Change.sealing (change : Change db db' op r) (consistent : db.view.Consistent)
    (after : db'.view.status o = .sealed) : Sealing db db' op o := by
  have moves := change.status_moves consistent o
  cases o with
  | object id =>
    have move := change.object_move id
    generalize before : db.view.objects id = x at move
    generalize found : db'.view.objects id = y at move
    cases move with
    | same =>
      refine .kept ?_ (by simp [View.declared, before, found])
      rw [← after]
      simp [View.status, before, found]
    | begun state | touched _ state =>
      simp [status_object found, state, ObjectState.status] at after
    | completed now size count etag call state durable nonneg positive =>
      refine .completed size count ?_ (by rw [call]; rfl) durable nonneg positive
        (by simp [View.declared, found])
      rw [status_object before, state]
      rfl
    | failed | retired => simp [status_object found, ObjectState.status] at after
    | @assembled row uploadID expected call state size count all _ _ progress =>
      exact .assembled id uploadID expected row.sizeBytes row.chunkCount rfl call before size
        (by exact_mod_cast all) progress (by simp [View.declared, found])
    | purged => simp [View.status, found] at after
  | part id =>
    have move := change.part_move id
    generalize before : db.view.parts id = x at move
    generalize found : db'.view.parts id = y at move
    -- A session that is over does not reopen, so the part was not dead before.
    have alive : db.view.status (.part id) ≠ .dead := by
      intro dead
      simp [dead, after, OwnerStatus.Moves] at moves
    cases move with
    | same =>
      cases x with
      | none => simp [View.status, found] at after
      | some row =>
        refine .kept ?_ (by simp [View.declared, before, found])
        rw [status_part before, partStatus] at alive ⊢
        rw [status_part found, partStatus] at after
        split at after <;> split at alive <;> simp_all
    | begun state =>
      rw [status_part found, partStatus, state] at after
      split at after <;> cases after
    | completed now size count etag call state durable nonneg positive =>
      refine .completed size count ?_ (by rw [call]; rfl) durable nonneg positive
        (by simp [View.declared, found])
      rw [status_part before, partStatus, state] at alive ⊢
      split at alive
      · simp_all [PartState.status]
      · exact absurd rfl alive
    | failed =>
      rw [status_part found, partStatus] at after
      split at after <;> cases after
    | purged => simp [View.status, found] at after

theorem nodup_assembledChunks {uploadID : UUID} :
    ((assembledChunks uploadID db).map (·.id)).Nodup :=
  ((List.perm_insertionSort _ _).map _).nodup_iff.mpr (Table.nodup_select _ _)

theorem find?_of_assembled {uploadID : UUID} {x : ChunkRow}
    (listed : x ∈ assembledChunks uploadID db) : db.view.chunks x.id = some x :=
  Table.find?_of_mem (List.mem_filter.mp ((List.mem_insertionSort _).mp listed)).1

theorem mem_chunksOf {row : ChunkRow} :
    row ∈ chunksOf o db ↔ db.view.chunks row.id = some row ∧ row.owner = o := by
  simp only [chunksOf, Table.select, List.mem_filter, Table.mem_rows_iff, decide_eq_true_eq]
  rfl

theorem nodup_chunksOf : (chunksOf o db).Nodup := (Table.nodup_select _ _).of_map

/-- The chunks of an assembled object are those that the assembly took over. -/
theorem Change.assembled_chunks {objectID uploadID : UUID} {expected : List CompletedPartRef}
    (change : Change db db' (.completeMultipartUpload objectID uploadID expected) r)
    (consistent : db.view.Consistent) (fresh : db.view.objects objectID = none)
    (after : db'.view.status (.object objectID) = .sealed) :
    (chunksOf (.object objectID) db').Perm ((assembledChunks uploadID db).map
      (ChunkRow.reparent objectID ((assembledChunks uploadID db).map (·.id)))) := by
  refine (List.perm_ext_iff_of_nodup nodup_chunksOf ?_).mpr fun row => ?_
  · refine List.Nodup.of_map (·.id) ?_
    rw [List.map_map]
    exact nodup_assembledChunks
  rw [mem_chunksOf, List.mem_map]
  constructor
  · rintro ⟨found, mine⟩
    have move := change.chunk_move row.id
    rw [found] at move
    generalize before : db.view.chunks row.id = x at move
    cases move with
    | same =>
      exact absurd mine (consistent.unowned fresh before)
    | orphaned dead =>
      rw [mine, after] at dead
      cases dead
    | assembled _ _ _ call _ _ _ _ _ _ member =>
      cases call
      obtain ⟨x, listed, same⟩ := List.mem_map.mp member
      have lookup := find?_of_assembled listed
      rw [same, before] at lookup
      exact ⟨x, listed, by rw [Option.some.inj lookup]⟩
    | reserved _ _ _ call | reset _ _ _ _ call | committed _ _ _ _ _ _ call => cases call
  · rintro ⟨x, listed, rfl⟩
    have taken := List.mem_map_of_mem (f := (·.id)) listed
    exact ⟨change.assembly (find?_of_assembled listed) taken, rfl⟩

/-- What holds of the chunks of sealed owners, whatever calls have been made. -/
structure Sealed (db : Database) : Prop where
  orphans : OrphansDead db
  committed : ∀ c row, db.view.chunks c = some row → db.view.status row.owner = .sealed →
    row.state = .committed
  count : ∀ o, db.view.status o = .sealed →
    (db.view.declared o).map (·.2) = some (chunksOf o db).length

theorem Sealing.steady (sealing : Sealing db db' op o) (present : db.view.status o ≠ .absent)
    (after : db'.view.status o = .sealed) : Steady db db' op o := by
  cases sealing with
  | kept before => 
    refine ⟨present, by simp [before], by simp [after], Or.inl ?_⟩
    exact Bool.eq_false_iff.mpr fun writable => writable_ne_sealed writable before
  | completed _ _ before call =>
    refine ⟨present, by simp [before], by simp [after], Or.inr ?_⟩
    cases op <;> simp_all [Op.completes, Op.allocates]
  | assembled _ _ _ _ _ named _ fresh =>
    exact absurd (named ▸ status_absent_of_none fresh) present

theorem allCommitted.state {n : Int} {row : ChunkRow} (all : allCommitted o n db)
    (listed : row ∈ chunksOf o db) : row.state = .committed := by
  have full : ((chunksOf o db).filter (·.state = .committed)).length = (chunksOf o db).length := by
    exact_mod_cast all.2.trans all.1.symm
  simpa using List.length_filter_eq_length_iff.mp full row listed

/-- A steady owner keeps the number of its chunks. -/
theorem Change.steady_length (change : Change db db' op r) (orphans : OrphansDead db)
    (steady : Steady db db' op o) : (chunksOf o db').length = (chunksOf o db).length := by
  have perm := change.steady_perm orphans steady (g := (·.id)) (fun _ _ => id)
    fun _ _ _ _ _ _ _ _ _ _ _ => rfl
  simpa using perm.length_eq

theorem Change.sealed (change : Change db db' op r) (consistent : db.view.Consistent)
    (holds : Sealed db) : Sealed db' where
  orphans := change.orphansDead consistent holds.orphans
  committed := by
    intro c row found after
    have listed : row ∈ chunksOf row.owner db' :=
      mem_chunksOf.mpr ⟨by rw [chunk_id found]; exact found, rfl⟩
    have sealing := change.sealing consistent after
    by_cases present : db.view.status row.owner = .absent
    · cases sealing with
      | kept before | completed _ _ before => simp [before] at present
      | assembled objectID _ _ _ _ named call fresh =>
        subst call
        rw [named] at listed after
        obtain ⟨x, member, rfl⟩ := List.mem_map.mp
          ((change.assembled_chunks consistent fresh after).mem_iff.mp listed)
        exact (mem_assembledChunks (find?_of_assembled member) (List.mem_map_of_mem member)).1
    · rcases change.steady_chunk holds.orphans (sealing.steady present after) c with
        kept | ⟨_, _, _, _, _, _, _, _, _, _, rewritten⟩
      · have old := (kept row rfl).mp found
        cases sealing with
        | kept before => exact holds.committed c row old before
        | completed _ _ _ _ durable =>
          exact durable.state (mem_chunksOf.mpr ⟨by rw [chunk_id old]; exact old, rfl⟩)
        | assembled _ _ _ _ _ named _ fresh =>
          exact absurd (named ▸ status_absent_of_none fresh) present
      · obtain rfl := Option.some.inj (found.symm.trans rewritten)
        rfl
  count := by
    intro o after
    have sealing := change.sealing consistent after
    have same := fun present =>
      change.steady_length holds.orphans (sealing.steady present after)
    cases sealing with
    | kept before declared => rw [declared, holds.count o before, same (by simp [before])]
    | completed _ _ before _ durable _ _ declared =>
      rw [declared, same (by simp [before]), ← durable.1]
      simp
    | assembled objectID _ _ _ _ named call fresh _ all _ declared =>
      subst call named
      rw [declared, (change.assembled_chunks consistent fresh after).length_eq]
      simp [all]

theorem sealed_empty : Sealed Database.empty where
  orphans c row found := by simp [Database.view, Database.empty] at found
  committed c row found := by simp [Database.view, Database.empty] at found
  count o sealed := by cases o <;> simp [View.status, Database.view, Database.empty] at sealed

theorem sealed_run (calls : List Call) : Sealed (run step Database.empty calls) := by
  have both : (run step Database.empty calls).view.Consistent ∧
      Sealed (run step Database.empty calls) := by
    refine run_preserved (P := fun db : Database => db.view.Consistent ∧ Sealed db) ?_
      ⟨consistent_empty, sealed_empty⟩ calls
    rintro db call ⟨consistent, sealed⟩
    refine ⟨consistent_step consistent, ?_⟩
    exact step_cases sealed fun _ _ h => (exec_change h).sealed consistent sealed
  exact both.2

/-- A chunk row that disappears belonged to a dead owner, and no replica row and no queued
deletion mentioned it. -/
theorem Change.removed (change : Change db db' op r) (orphans : OrphansDead db) {row : ChunkRow}
    (before : db.view.chunks c = some row) (after : db'.view.chunks c = none) :
    db.view.status row.owner = .dead ∧ ∀ n, db.view.slots c n = ⟨none, false⟩ := by
  have move := change.chunk_move c
  rw [before, after] at move
  cases move with
  | purged gone bare => exact ⟨gone.elim (orphans c row before) id, bare⟩

/-- After every sequence of calls, no chunk of a live owner is ORPHANED; and a call that
removes a chunk row removes one whose owner is not live and of which neither a replica row
nor a queued deletion is left. -/
theorem live_chunks_spared (calls : List Call) :
    (∀ row ∈ (run step Database.empty calls).chunks.rows,
      (run step Database.empty calls).liveOwner row.owner → row.state ≠ .orphaned) ∧
    ∀ call, ∀ row ∈ (run step Database.empty calls).chunks.rows,
      (step (run step Database.empty calls) call).chunks.find? row.id = none →
        (run step Database.empty calls).liveOwner row.owner = false ∧
        (∀ x ∈ (run step Database.empty calls).replicas.rows, x.chunkID ≠ row.id) ∧
        ∀ d ∈ (run step Database.empty calls).deletions.table.rows, d.chunkID ≠ row.id := by
  have orphans := (sealed_run calls).orphans
  generalize run step Database.empty calls = db at orphans
  have spared {o : Owner} (dead : db.view.status o = .dead) : db.liveOwner o = false := by
    rw [← Bool.not_eq_true, liveOwner_iff]
    simp [dead]
  refine ⟨fun row member live state => ?_, fun call row member => ?_⟩
  · simp [spared (orphans _ row (Table.find?_of_mem member) state)] at live
  · have before : db.view.chunks row.id = some row := Table.find?_of_mem member
    refine step_cases (R := fun db' => db'.chunks.find? row.id = none → _) ?_ ?_
    · intro missing
      exact absurd (before.symm.trans missing) (by simp)
    · intro reply db' h after
      obtain ⟨dead, bare⟩ := (exec_change h).removed orphans before after
      refine ⟨spared dead, fun x listed same => ?_, fun d listed same => ?_⟩
      · have found : db.replicas.find? (row.id, x.nodeID) = some x :=
          same ▸ Table.find?_of_mem listed
        have copy := congrArg Slot.replica (bare x.nodeID)
        simp [Database.view, Database.replicaState, found] at copy
      · have found : db.deletions.table.find? (row.id, d.nodeID) = some d :=
          same ▸ Table.find?_of_mem listed
        have job := congrArg Slot.queued (bare d.nodeID)
        simp [Database.view, Database.queued, DeletionQueue.holds, found] at job

end FlexStore.Metadata
