import FlexStore.Metadata.Sealed

/-!
# Late commits

Allocation refuses an owner that no longer accepts writes, so that a late gateway
cannot resurrect an aborted upload. A commit does not ask: it succeeds whatever has
become of the owner. If commits stay with owners that accept writes, a chunk that was
orphaned is never COMMITTED again and the layout of a COMPLETE object is immutable.
-/

namespace FlexStore.Metadata

open Relational Transition View

/-- The call commits a chunk whose owner does not accept writes. -/
def Op.commitsLate (db : Database) : Op → Bool
  | .commitChunk c .. => (db.chunks.find? c).any fun row => !db.accepting row.owner
  | _ => false

/-- The chunks of an object in index order: ids, indices, sizes and checksums. -/
def layout (objectID : UUID) (db : Database) : List (UUID × Nat × Nat × Option Checksum) :=
  ((chunksOf (.object objectID) db).insertionSort fun a b => a.index ≤ b.index).map fun c =>
    (c.id, c.index, c.sizeBytes, c.checksum)

variable {db db' : Database} {op : Op} {r : Reply} {c : UUID}

variable {checksum : Checksum} {sizeBytes minReplicas : Int} {succeeded failed : List NodeID}

/-- No refusal of a commit is a conflict. -/
theorem commitChunk_ne_conflict {now : Time} :
    commitChunk now c checksum sizeBytes succeeded failed minReplicas db ≠ .error .conflict := by
  intro refused
  simp only [commitChunk, bind_eq_error, lookup_eq_error, require_eq_error, reduceCtorEq,
    and_false, false_or, or_false, exists_false, pure_ne_error] at refused
  obtain ⟨row, -, refused⟩ := refused
  obtain ⟨s, n, insertion⟩ := foldlM_eq_error refused
  simp only [markSucceeded, Database.upsertReplica, bind_eq_error, require_eq_error, reduceCtorEq,
    and_false, false_or, exists_false, pure_ne_error] at insertion

/-- The chunk is gone or will be: whatever row it has belongs to a dead owner and is not
COMMITTED. -/
def Doomed (c : UUID) (db : Database) : Prop :=
  ∀ row, db.view.chunks c = some row →
    db.view.status row.owner = .dead ∧ row.state ≠ .committed

theorem Change.doomed (change : Change db db' op r) (consistent : db.view.Consistent)
    (timely : op.commitsLate db = false)
    (other : ∀ own index sizeBytes, op ≠ .reserveChunk c own index sizeBytes)
    (doomed : Doomed c db) : Doomed c db' := by
  intro row found
  have move := change.chunk_move c
  have owner := change.stays_dead consistent found
  rw [found] at move
  generalize before : db.view.chunks c = o at move
  cases move with
  | same => exact ⟨owner (doomed _ before).1, (doomed _ before).2⟩
  | reserved own index size call => exact absurd call (other own index size)
  | reset => exact ⟨owner (doomed _ before).1, by simp [ChunkRow.reset]⟩
  | @committed old _ _ _ _ _ _ call =>
    subst call
    have dead := (doomed _ before).1
    have accepts : db.accepting old.owner = true := by
      change db.chunks.find? c = some old at before
      simpa [Op.commitsLate, before] using timely
    rw [accepting_iff.mp accepts] at dead
    cases dead
  | orphaned dead => exact ⟨dead, by simp⟩
  | assembled _ _ _ _ _ _ sealed =>
    rw [(doomed _ before).1] at sealed
    cases sealed

section Layout

variable {o : UUID}

/-- A commit to a sealed owner is late. -/
theorem commitsLate_of_sealed {old : ChunkRow} (found : db.view.chunks c = some old)
    (sealed : db.view.status old.owner = .sealed) :
    (Op.commitChunk c checksum sizeBytes succeeded failed minReplicas).commitsLate db = true := by
  change db.chunks.find? c = some old at found
  rw [Op.commitsLate, found, Option.any_some, Bool.not_eq_true', Bool.eq_false_iff]
  intro accepts
  rw [accepting_iff.mp accepts] at sealed
  cases sealed

theorem Change.layout_kept (change : Change db db' op r) (consistent : db.view.Consistent)
    (orphans : OrphansDead db) (timely : op.commitsLate db = false)
    (before : db.view.status (.object o) = .sealed)
    (after : db'.view.status (.object o) = .sealed) : layout o db' = layout o db := by
  have steady : Steady db db' op (.object o) :=
    (change.sealing consistent after).steady (by simp [before]) after
  refine congrArg (List.map _) (change.sorted_chunks_kept consistent orphans steady ?_)
  rintro c checksum size succeeded failed min old rfl found owner
  rw [commitsLate_of_sealed found (owner ▸ before)] at timely
  cases timely

end Layout

/-- The id that an allocation brings along for a new chunk. -/
def Op.mints : Op → Option UUID
  | .reserveChunk newID .. => some newID
  | _ => none

def minted (calls : List Call) : List UUID := calls.filterMap (·.op.mints)

theorem Change.present_or_minted (change : Change db db' op r)
    (present : db'.view.chunks c ≠ none) : db.view.chunks c ≠ none ∨ op.mints = some c := by
  have move := change.chunk_move c
  generalize db.view.chunks c = o at move
  generalize db'.view.chunks c = o' at move present
  cases move with
  | same => exact Or.inl present
  | reserved own index size call => exact Or.inr (by rw [call]; rfl)
  | purged => exact absurd rfl present
  | _ => exact Or.inl (by simp)

/-- A chunk that exists was there before or has been minted. -/
theorem present_or_minted (calls : List Call)
    (present : (run step db calls).view.chunks c ≠ none) :
    db.view.chunks c ≠ none ∨ c ∈ minted calls := by
  induction calls generalizing db with
  | nil => exact Or.inl present
  | cons call rest ih =>
    have first : (step db call).view.chunks c ≠ none →
        db.view.chunks c ≠ none ∨ call.op.mints = some c :=
      step_cases (R := fun db' => db'.view.chunks c ≠ none → _) Or.inl
        fun _ _ h => (exec_change h).present_or_minted
    rcases ih present with before | later
    · rcases first before with before | now
      · exact Or.inl before
      · exact Or.inr (List.mem_filterMap.mpr ⟨call, List.mem_cons_self, now⟩)
    · obtain ⟨other, member, mints⟩ := List.mem_filterMap.mp later
      exact Or.inr (List.mem_filterMap.mpr ⟨other, List.mem_cons_of_mem _ member, mints⟩)

/-- A chunk that is ORPHANED at some point of a run without late commits is not COMMITTED
later. -/
theorem orphan_never_committed {first second : List Call} {row row' : ChunkRow}
    (timely : Guarded step (fun db call => call.op.commitsLate db = false) Database.empty
      (first ++ second)) (unique : (minted (first ++ second)).Nodup)
    (found : (run step Database.empty first).chunks.find? c = some row)
    (state : row.state = .orphaned)
    (later : (run step Database.empty (first ++ second)).chunks.find? c = some row') :
    row'.state ≠ .committed := by
  have spent : c ∈ minted first := by
    have present : (run step Database.empty first).view.chunks c ≠ none := by
      change (run step Database.empty first).chunks.find? c ≠ none
      simp [found]
    refine (present_or_minted first present).resolve_left ?_
    simp [Database.view, Database.empty]
  have fresh : ∀ call ∈ second, call.op.mints ≠ some c := by
    intro call member mints
    rw [minted, List.filterMap_append] at unique
    exact (List.disjoint_of_nodup_append unique) spent
      (List.mem_filterMap.mpr ⟨call, member, mints⟩)
  have doomed : Doomed c (run step Database.empty first) := by
    intro x lookup
    obtain rfl := Option.some.inj (found.symm.trans lookup)
    exact ⟨(sealed_run first).orphans _ _ lookup state, by simp [state]⟩
  rw [run_append] at later
  have guarded := (guarded_append.mp timely).2.and_forall fresh
  have both := run_invariant
    (P := fun db : Database => db.view.Consistent ∧ Doomed c db) ?_
    ⟨consistent_run consistent_empty first, doomed⟩ guarded
  · exact (both.2 _ later).2
  · rintro db call ⟨consistent, doomed⟩ ⟨timely, other⟩
    refine ⟨consistent_step consistent, step_cases doomed fun _ _ h => ?_⟩
    refine (exec_change h).doomed consistent timely ?_ doomed
    intro own index size same
    simp [same, Op.mints] at other

/-- What the commit of a chunk should do: succeed only if the owner accepts writes, and
otherwise be refused with a conflict and change nothing. -/
def CommitRespectsOwner (db : Database) (call : Call) (owner : Owner) : Prop :=
  (∀ r db', exec call db = .ok (r, db') → db.accepting owner) ∧
    (db.accepting owner = false → exec call db = .error .conflict ∧ step db call = db)

/-- A commit respects the owner of an existing chunk exactly when the owner accepts
writes. -/
theorem commitRespectsOwner_iff {now : Time} {row : ChunkRow} :
    CommitRespectsOwner db ⟨now, .commitChunk c checksum sizeBytes succeeded failed minReplicas⟩
      row.owner ↔ db.accepting row.owner := by
  constructor
  · intro respects
    by_contra late
    exact commitChunk_ne_conflict
      (answer_eq_error.mp (respects.2 (by simpa using late)).1)
  · intro accepts
    exact ⟨fun _ _ _ => accepts, by simp [accepts]⟩

/-- The layout of an object does not change from one state to the next, as long as the
object is COMPLETE in both and no commit is late. -/
theorem layout_step {o : UUID} {calls : List Call} {call : Call}
    (timely : call.op.commitsLate (run step Database.empty calls) = false)
    (before : (run step Database.empty calls).complete o)
    (after : (step (run step Database.empty calls) call).complete o) :
    layout o (step (run step Database.empty calls) call) =
      layout o (run step Database.empty calls) := by
  revert after
  refine step_cases (R := fun db' => db'.complete o → layout o db' = _) (fun _ => rfl) ?_
  intro r db' h after
  exact (exec_change h).layout_kept (consistent_run consistent_empty calls)
    (sealed_run calls).orphans timely (complete_iff.mp before) (complete_iff.mp after)

/-- Commits to owners that accept writes. For an existing chunk a commit does what it
should exactly when the owner accepts writes. In a run in which every commit meets that
condition and every allocation mints a new id, an ORPHANED chunk is never COMMITTED
later and the layout of an object is the same from state to state while it is
COMPLETE. -/
theorem commit_to_accepting_owner (first second : List Call) :
    (∀ (db : Database) (now : Time) (c : UUID) (checksum : Checksum) (sizeBytes : Int)
        (succeeded failed : List NodeID) (minReplicas : Int) (row : ChunkRow),
      db.chunks.find? c = some row →
        (CommitRespectsOwner db
          ⟨now, .commitChunk c checksum sizeBytes succeeded failed minReplicas⟩ row.owner ↔
            db.accepting row.owner)) ∧
    (Guarded step (fun db call => call.op.commitsLate db = false) Database.empty
        (first ++ second) →
      (minted (first ++ second)).Nodup →
        (∀ c row row', (run step Database.empty first).chunks.find? c = some row →
          row.state = .orphaned →
          (run step Database.empty (first ++ second)).chunks.find? c = some row' →
          row'.state ≠ .committed) ∧
        ∀ call rest o, second = call :: rest → (run step Database.empty first).complete o →
          (run step Database.empty (first ++ [call])).complete o →
            layout o (run step Database.empty (first ++ [call])) =
              layout o (run step Database.empty first)) := by
  refine ⟨fun _ _ _ _ _ _ _ _ _ _ => commitRespectsOwner_iff, ?_⟩
  refine fun timely unique => ⟨?_, ?_⟩
  · intro c row row' found state later
    exact orphan_never_committed timely unique found state later
  · rintro call rest o rfl before after
    rw [run_append] at after ⊢
    exact layout_step (guarded_append.mp timely).2.1 before after

def completedUpload : List Call :=
  [⟨0, .upsertNode "n1" "n1:9000" .healthy {} 0⟩, ⟨1, .beginUpload 1 "b" "k" "" 8⟩,
    ⟨2, .reserveChunk 10 ⟨some 1, none⟩ 0 8⟩, ⟨3, .recordChunkTargets 10 ["n1"]⟩,
    ⟨4, .commitChunk 10 5 8 ["n1"] [] 1⟩, ⟨5, .completeUpload 1 8 1 "e"⟩]

theorem commit_to_accepting_owner_upload :
    (run step Database.empty completedUpload).complete 1 ∧
      layout 1 (run step Database.empty (completedUpload ++ [⟨6, .touchUpload 1⟩])) =
        layout 1 (run step Database.empty completedUpload) :=
  ⟨by decide, ((commit_to_accepting_owner completedUpload [⟨6, .touchUpload 1⟩]).2 (by decide)
    (by decide)).2 _ [] 1 rfl (by decide) (by decide)⟩

/-- An upload that is aborted while the gateway still writes its chunk. -/
def abortedWhileWriting : List Call :=
  [⟨0, .upsertNode "n1" "n1:9000" .healthy {} 0⟩, ⟨1, .beginUpload 1 "b" "k" "" 8⟩,
    ⟨2, .reserveChunk 10 ⟨some 1, none⟩ 0 8⟩, ⟨3, .recordChunkTargets 10 ["n1"]⟩,
    ⟨4, .abortUpload 1 "client went away"⟩]

/-- The commit that arrives afterwards succeeds and the ORPHANED chunk is COMMITTED. -/
theorem late_commit_resurrects_chunk :
    ((run step Database.empty abortedWhileWriting).chunks.find? 10).map (·.state) =
      some .orphaned ∧
    ((run step Database.empty (abortedWhileWriting ++
      [⟨5, .commitChunk 10 5 8 ["n1"] [] 1⟩])).chunks.find? 10).map (·.state) =
      some .committed := by
  decide

end FlexStore.Metadata
