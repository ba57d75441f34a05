import FlexStore.Metadata.Sealed

/-!
# What COMPLETE objects declare

A completion records the size and the number of chunks that the caller declares. The
number is checked against the chunk rows; the size and the indices are not, and a late
commit may still change a recorded size. If every completion declares what the chunk rows
say, every COMPLETE object has its chunks at the indices from zero without holes and
their sizes add up to its own, whether it was uploaded in one piece or assembled.
-/

namespace FlexStore.Metadata

open Relational Transition View

def totalBytes (chunks : List ChunkRow) : Nat := (chunks.map (·.sizeBytes)).sum

/-- The owner is complete and not dead: its chunks are what it declared. -/
def Database.sealedOwner (db : Database) (o : Owner) : Bool := db.liveOwner o && !db.accepting o

/-- The call records something else than the chunk rows say: the completion of an upload
with another size or with a chunk at an index beyond the declared number of chunks, the
completion of a part with another size, a commit that changes the size of a chunk whose
owner is already complete, or an assembly of parts whose total size is not a 64-bit
integer. -/
def Op.misdeclares (db : Database) : Op → Bool
  | .completeUpload id sizeBytes chunkCount _ =>
    sizeBytes ≠ totalBytes (chunksOf (.object id) db) ||
      (chunksOf (.object id) db).any fun row => chunkCount ≤ row.index
  | .completePart id sizeBytes _ _ => sizeBytes ≠ totalBytes (chunksOf (.part id) db)
  | .commitChunk c _ sizeBytes .. =>
    (db.chunks.find? c).any fun row => db.sealedOwner row.owner && sizeBytes ≠ row.sizeBytes
  | .completeMultipartUpload _ uploadID _ =>
    2 ^ 63 ≤ ((completeParts uploadID db).map (·.sizeBytes)).sum
  | _ => false

/-- An object row says what there is: as many chunks as declared, all COMMITTED, at the
indices 0, 1, ... without holes, and as many bytes as declared. -/
def describes (row : ObjectRow) (chunks : List ChunkRow) : Prop :=
  chunks.length = row.chunkCount ∧ (∀ c ∈ chunks, c.state = .committed) ∧
    (chunks.map (·.index)).Perm (List.range row.chunkCount) ∧ totalBytes chunks = row.sizeBytes

instance (row : ObjectRow) (chunks : List ChunkRow) : Decidable (describes row chunks) :=
  inferInstanceAs (Decidable (_ ∧ _ ∧ _ ∧ _))

/-- Every COMPLETE object row says what there is. -/
def CompleteDescribed (db : Database) : Prop :=
  ∀ row ∈ db.objects.rows, row.state = .complete →
    describes row (chunksOf (.object row.id) db)

instance (db : Database) : Decidable (CompleteDescribed db) :=
  inferInstanceAs (Decidable (∀ row ∈ db.objects.rows, _ → _))

variable {db db' : Database} {op : Op} {r : Reply} {o : Owner}

theorem sealedOwner_iff : db.sealedOwner o ↔ db.view.status o = .sealed := by
  rw [Database.sealedOwner, Bool.and_eq_true, liveOwner_iff, Bool.not_eq_true',
    Bool.eq_false_iff, ne_eq, accepting_iff]
  cases db.view.status o <;> simp

/-- What a row says about the position and the size of a chunk. -/
def ChunkRow.figures (c : ChunkRow) : UUID × Nat × Nat := (c.id, c.index, c.sizeBytes)

theorem totalBytes_of_figures {a b : List ChunkRow}
    (perm : (a.map ChunkRow.figures).Perm (b.map ChunkRow.figures)) :
    totalBytes a = totalBytes b := by
  have sizes := (perm.map (·.2.2)).sum_nat
  simpa [totalBytes, ChunkRow.figures, Function.comp_def] using sizes

theorem index_of_figures {a b : List ChunkRow} {row : ChunkRow}
    (perm : (a.map ChunkRow.figures).Perm (b.map ChunkRow.figures)) (listed : row ∈ a) :
    ∃ old ∈ b, old.index = row.index := by
  obtain ⟨old, member, same⟩ := List.mem_map.mp
    (perm.mem_iff.mp (List.mem_map_of_mem (f := ChunkRow.figures) listed))
  exact ⟨old, member, congrArg (·.2.1) same⟩

section Wrapping

/-- A sum of nonnegative numbers in fixed-width arithmetic does not wrap while it stays below
the bound. -/
theorem foldl_wrap_eq (f : PartRow → Nat) (w : Nat) (parts : List PartRow) (total : Nat)
    (small : total + (parts.map f).sum < 2 ^ w) :
    parts.foldl (fun (total : Int) p => (total + f p).bmod (2 ^ (w + 1))) total =
      total + (parts.map f).sum := by
  induction parts generalizing total with
  | nil => simp
  | cons p rest ih =>
    rw [List.map_cons, List.sum_cons] at small ⊢
    have unwrapped : ((total : Int) + f p).bmod (2 ^ (w + 1)) = ((total + f p : Nat) : Int) := by
      rw [← Nat.cast_add]
      rw [pow_succ']
      generalize 2 ^ w = bound at small ⊢
      exact Int.bmod_eq_of_le (by omega) (by omega)
    rw [List.foldl_cons, unwrapped, ih _ (by omega)]
    push_cast
    omega

theorem totalSize_eq {parts : List PartRow} (small : (parts.map (·.sizeBytes)).sum < 2 ^ 63) :
    totalSize parts = (parts.map (·.sizeBytes)).sum := by
  have sum := foldl_wrap_eq (·.sizeBytes) 63 parts 0 (by simpa using small)
  simpa [totalSize] using sum

theorem totalChunks_eq {parts : List PartRow} (few : (parts.map (·.chunkCount)).sum < 2 ^ 31) :
    totalChunks parts = (parts.map (·.chunkCount)).sum := by
  have sum := foldl_wrap_eq (·.chunkCount) 31 parts 0 (by simpa using few)
  simpa [totalChunks] using sum

end Wrapping

/-- The sizes and indices that the chunks of sealed owners have. -/
structure Measured (db : Database) : Prop where
  size : ∀ o, db.view.status o = .sealed →
    (db.view.declared o).map (·.1) = some (totalBytes (chunksOf o db))
  index : ∀ id, db.view.status (.object id) = .sealed → ∀ row ∈ chunksOf (.object id) db,
    row.index < (chunksOf (.object id) db).length

section Assembly

variable {uploadID : UUID}

theorem mem_completeParts {p : PartRow} : p ∈ completeParts uploadID db ↔
    db.view.parts p.id = some p ∧ p.uploadID = uploadID ∧ p.state = .complete := by
  simp only [completeParts, List.mem_insertionSort, Table.select, List.mem_filter,
    Table.mem_rows_iff, Bool.and_eq_true, decide_eq_true_eq]
  rfl

/-- A COMPLETE part of an open session is sealed. -/
theorem status_of_mem_completeParts {p : PartRow} (progress : db.view.progressing uploadID)
    (listed : p ∈ completeParts uploadID db) : db.view.status (.part p.id) = .sealed := by
  obtain ⟨found, rfl, state⟩ := mem_completeParts.mp listed
  simp [status_part found, partStatus, progress, state, PartState.status]

/-- An assembly takes over the COMMITTED chunks of the COMPLETE parts and no others. -/
theorem assembledChunks_perm_committed : (assembledChunks uploadID db).Perm
    ((completeParts uploadID db).flatMap fun p =>
      (chunksOf (.part p.id) db).filter (·.state = .committed)) := by
  have ids : ((completeParts uploadID db).map (·.id)).Nodup :=
    ((List.perm_insertionSort _ _).map _).nodup_iff.mpr (Table.nodup_select _ _)
  have disjoint : ((completeParts uploadID db).flatMap fun p =>
      (chunksOf (.part p.id) db).filter (·.state = .committed)).Nodup := by
    refine List.nodup_flatMap.mpr ⟨fun _ _ => nodup_chunksOf.filter _, ?_⟩
    refine (List.pairwise_map.mp ids).imp fun differ row first second => differ ?_
    have owner := (mem_chunksOf.mp (List.mem_filter.mp first).1).2.symm.trans
      (mem_chunksOf.mp (List.mem_filter.mp second).1).2
    exact Owner.part.inj owner
  refine (List.perm_ext_iff_of_nodup nodup_assembledChunks.of_map disjoint).mpr fun row => ?_
  rw [List.mem_flatMap]
  constructor
  · intro listed
    have found := find?_of_assembled listed
    obtain ⟨state, id, part, owner, lookup, session, complete⟩ :=
      mem_assembledChunks found (List.mem_map_of_mem listed)
    obtain rfl : part.id = id := (Table.mem_of_find? lookup).2
    refine ⟨part, mem_completeParts.mpr ⟨lookup, session, complete⟩, ?_⟩
    exact List.mem_filter.mpr ⟨mem_chunksOf.mpr ⟨found, owner⟩, by simp [state]⟩
  · rintro ⟨part, listed, member⟩
    obtain ⟨owned, state⟩ := List.mem_filter.mp member
    obtain ⟨found, owner⟩ := mem_chunksOf.mp owned
    obtain ⟨lookup, session, complete⟩ := mem_completeParts.mp listed
    change db.parts.find? part.id = some part at lookup
    refine (List.mem_insertionSort _).mpr (List.mem_filter.mpr ⟨Table.mem_rows_iff.mpr found, ?_⟩)
    simpa [partOf, owner, lookup, session, complete] using state

/-- In an open session these are all chunks of the COMPLETE parts. -/
theorem assembledChunks_perm (sealed : Sealed db) (progress : db.view.progressing uploadID) :
    (assembledChunks uploadID db).Perm
      ((completeParts uploadID db).flatMap fun p => chunksOf (.part p.id) db) := by
  refine assembledChunks_perm_committed.trans (List.Perm.flatMap_left _ fun p listed => ?_)
  refine .of_eq (List.filter_eq_self.mpr fun row member => ?_)
  obtain ⟨found, owner⟩ := mem_chunksOf.mp member
  have state := sealed.committed _ row found
    (by rw [owner, status_of_mem_completeParts progress listed])
  simp [state]

/-- So it takes over as many bytes as the parts declared. -/
theorem totalBytes_assembledChunks (sealed : Sealed db) (measured : Measured db)
    (progress : db.view.progressing uploadID) : totalBytes (assembledChunks uploadID db) =
      ((completeParts uploadID db).map (·.sizeBytes)).sum := by
  rw [totalBytes, ((assembledChunks_perm sealed progress).map _).sum_nat, List.map_flatMap,
    List.flatMap_def, List.sum_flatten, List.map_map]
  refine congrArg List.sum (List.map_congr_left fun p listed => ?_)
  have declared := measured.size _ (status_of_mem_completeParts progress listed)
  rw [View.declared, (mem_completeParts.mp listed).1] at declared
  exact (Option.some.inj declared).symm

end Assembly

/-- A commit that does not misdeclare leaves the size of a sealed owner's chunk alone. -/
theorem size_of_commit {c : UUID} {checksum : Checksum} {sizeBytes minReplicas : Int}
    {succeeded failed : List NodeID} {old : ChunkRow}
    (truthful : (Op.commitChunk c checksum sizeBytes succeeded failed minReplicas).misdeclares db =
      false) (found : db.view.chunks c = some old) (sealed : db.view.status old.owner = .sealed) :
    sizeBytes.toNat = old.sizeBytes := by
  change db.chunks.find? c = some old at found
  have equal : sizeBytes = old.sizeBytes := by
    simpa [Op.misdeclares, found, sealedOwner_iff.mpr sealed] using truthful
  simp [equal]

/-- An owner that is there before a change and sealed after it keeps the positions and the
sizes of its chunks. -/
theorem Change.figures_perm (change : Change db db' op r) (consistent : db.view.Consistent)
    (sealed : Sealed db) (truthful : op.misdeclares db = false)
    (present : db.view.status o ≠ .absent) (after : db'.view.status o = .sealed) :
    ((chunksOf o db').map ChunkRow.figures).Perm ((chunksOf o db).map ChunkRow.figures) := by
  have sealing := change.sealing consistent after
  refine change.steady_perm sealed.orphans (sealing.steady present after)
    (fun _ _ equal => congrArg Prod.fst equal) ?_
  rintro c now checksum size succeeded failed min old rfl found rfl
  cases sealing with
  | kept before => simp [ChunkRow.figures, ChunkRow.commit, size_of_commit truthful found before]
  | completed _ _ _ call | assembled _ _ _ _ _ _ call => cases call

/-- A completion that does not misdeclare records the sum of the sizes. -/
theorem size_of_completes {sizeBytes chunkCount : Int}
    (call : op.completes = some (o, sizeBytes, chunkCount))
    (truthful : op.misdeclares db = false) : sizeBytes = totalBytes (chunksOf o db) := by
  cases op with
  | completeUpload | completePart =>
    cases call
    simp_all [Op.misdeclares]
  | _ => cases call

/-- If it completes an upload, every index is below the declared number of chunks. -/
theorem index_of_completes {id : UUID} {sizeBytes chunkCount : Int}
    (call : op.completes = some (.object id, sizeBytes, chunkCount))
    (truthful : op.misdeclares db = false) {row : ChunkRow}
    (listed : row ∈ chunksOf (.object id) db) : row.index < chunkCount := by
  cases op with
  | completeUpload =>
    cases call
    simp only [Op.misdeclares, Bool.or_eq_false_iff, List.any_eq_false,
      decide_eq_true_eq] at truthful
    exact not_le.mp (truthful.2 row listed)
  | _ => cases call

theorem Change.measured_size (change : Change db db' op r) (consistent : db.view.Consistent)
    (sealed : Sealed db) (truthful : op.misdeclares db = false) (holds : Measured db)
    (after : db'.view.status o = .sealed) :
    (db'.view.declared o).map (·.1) = some (totalBytes (chunksOf o db')) := by
  have kept := fun present =>
    totalBytes_of_figures (change.figures_perm consistent sealed truthful present after)
  cases change.sealing consistent after with
  | kept before same => rw [same, holds.size o before, kept (by simp [before])]
  | completed size _ before call _ _ _ declared =>
    rw [declared, kept (by simp [before]), size_of_completes call truthful]
    simp
  | assembled objectID uploadID _ size _ named call fresh sum _ progress declared =>
    subst call named
    have small : ((completeParts uploadID db).map (·.sizeBytes)).sum < 2 ^ 63 := by
      simpa [Op.misdeclares] using truthful
    rw [totalSize_eq small, ← totalBytes_assembledChunks sealed holds progress] at sum
    have taken := ((change.assembled_chunks consistent fresh after).map (·.sizeBytes)).sum_nat
    rw [List.map_map] at taken
    rw [declared, totalBytes, taken]
    exact congrArg some (Int.ofNat.inj sum)

theorem Change.measured_index (change : Change db db' op r) (consistent : db.view.Consistent)
    (sealed : Sealed db) (truthful : op.misdeclares db = false) (holds : Measured db) {id : UUID}
    (after : db'.view.status (.object id) = .sealed) {row : ChunkRow}
    (listed : row ∈ chunksOf (.object id) db') :
    row.index < (chunksOf (.object id) db').length := by
  have sealing := change.sealing consistent after
  have kept := fun present => change.figures_perm consistent sealed truthful present after
  have same := fun present =>
    change.steady_length sealed.orphans (sealing.steady present after)
  cases sealing with
  | kept before =>
    obtain ⟨old, member, equal⟩ := index_of_figures (kept (by simp [before])) listed
    rw [same (by simp [before]), ← equal]
    exact holds.index id before old member
  | completed _ count before call durable =>
    obtain ⟨old, member, equal⟩ := index_of_figures (kept (by simp [before])) listed
    have below := index_of_completes call truthful member
    rw [← durable.1, equal] at below
    rw [same (by simp [before])]
    exact_mod_cast below
  | assembled objectID uploadID _ _ _ named call fresh =>
    cases named
    subst call
    have taken := change.assembled_chunks consistent fresh after
    obtain ⟨x, member, rfl⟩ := List.mem_map.mp (taken.mem_iff.mp listed)
    rw [taken.length_eq, List.length_map, ← List.length_map (f := (·.id))]
    exact List.idxOf_lt_length_of_mem (List.mem_map_of_mem member)

theorem Change.measured (change : Change db db' op r) (consistent : db.view.Consistent)
    (sealed : Sealed db) (truthful : op.misdeclares db = false) (holds : Measured db) :
    Measured db' where
  size _ after := change.measured_size consistent sealed truthful holds after
  index _ after _ listed := change.measured_index consistent sealed truthful holds after listed

theorem measured_empty : Measured Database.empty where
  size o sealed := by cases o <;> simp [View.status, Database.view, Database.empty] at sealed
  index id sealed := by simp [View.status, Database.view, Database.empty] at sealed

/-- Distinct indices below their number are all the indices below it. -/
theorem indices_perm {chunks : List ChunkRow} (distinct : (chunks.map (·.index)).Nodup)
    (below : ∀ row ∈ chunks, row.index < chunks.length) :
    (chunks.map (·.index)).Perm (List.range chunks.length) := by
  refine (List.subperm_of_subset distinct fun i listed => ?_).perm_of_length_le (by simp)
  obtain ⟨row, member, rfl⟩ := List.mem_map.mp listed
  exact List.mem_range.mpr (below row member)

theorem nodup_indices (consistent : db.view.Consistent) :
    ((chunksOf o db).map (·.index)).Nodup := by
  refine (List.nodup_map_iff_inj_on nodup_chunksOf).mpr fun a first b second equal => ?_
  obtain ⟨found, owner⟩ := mem_chunksOf.mp first
  obtain ⟨found', owner'⟩ := mem_chunksOf.mp second
  have ids := consistent.index found found' (owner.trans owner'.symm) equal
  rw [ids] at found
  exact Option.some.inj (found.symm.trans found')

theorem Measured.completeDescribed (consistent : db.view.Consistent) (sealed : Sealed db)
    (measured : Measured db) : CompleteDescribed db := by
  intro row member state
  have found : db.view.objects row.id = some row := Table.find?_of_mem member
  have status : db.view.status (.object row.id) = .sealed := by
    rw [status_object found, state]
    rfl
  have count : (chunksOf (.object row.id) db).length = row.chunkCount := by
    simpa [View.declared, found, eq_comm] using sealed.count _ status
  have size : totalBytes (chunksOf (.object row.id) db) = row.sizeBytes := by
    simpa [View.declared, found, eq_comm] using measured.size _ status
  refine ⟨count, fun c listed => ?_, ?_, size⟩
  · obtain ⟨lookup, owner⟩ := mem_chunksOf.mp listed
    exact sealed.committed _ c lookup (owner ▸ status)
  · rw [← count]
    exact indices_perm (nodup_indices consistent) (measured.index row.id status)

/-- In a run in which no call misdeclares, every COMPLETE object has in every state reached
exactly the declared number of chunks, all COMMITTED, at the indices from zero without
holes, and its size is the sum of theirs. -/
theorem complete_objects_described {calls : List Call}
    (truthful : Guarded step (fun db call => call.op.misdeclares db = false) Database.empty calls) :
    Always step CompleteDescribed Database.empty calls := by
  have invariant : Always step (fun db => db.view.Consistent ∧ Sealed db ∧ Measured db)
      Database.empty calls := by
    refine always_of_change ?_ consistent_empty
      ⟨consistent_empty, sealed_empty, measured_empty⟩ truthful
    rintro db db' call r consistent truthful ⟨-, sealed, measured⟩ change
    exact ⟨change.consistent consistent, change.sealed consistent sealed,
      change.measured consistent sealed truthful measured⟩
  exact invariant.mono fun _ h => h.2.2.completeDescribed h.1 h.2.1

/-- An object assembled from two parts of which the first starts at index one. -/
def assembledUpload : List Call :=
  [⟨0, .upsertNode "n1" "n1:9000" .healthy {} 0⟩, ⟨1, .createMultipartUpload 1 "b" "k" "" 8⟩,
    ⟨2, .beginPart 2 1 1⟩, ⟨2, .beginPart 3 1 2⟩,
    ⟨3, .reserveChunk 10 ⟨none, some 2⟩ 1 8⟩, ⟨3, .reserveChunk 11 ⟨none, some 3⟩ 0 5⟩,
    ⟨4, .recordChunkTargets 10 ["n1"]⟩, ⟨4, .recordChunkTargets 11 ["n1"]⟩,
    ⟨5, .commitChunk 10 7 8 ["n1"] [] 1⟩, ⟨5, .commitChunk 11 9 5 ["n1"] [] 1⟩,
    ⟨6, .completePart 2 8 1 "x"⟩, ⟨6, .completePart 3 5 1 "y"⟩,
    ⟨7, .completeMultipartUpload 4 1 [⟨1, "x"⟩, ⟨2, "y"⟩]⟩]

theorem complete_objects_described_assembledUpload :
    (run step Database.empty assembledUpload).complete 4 ∧
      Always step CompleteDescribed Database.empty assembledUpload :=
  ⟨by decide +kernel, complete_objects_described (by decide +kernel)⟩

/-- An upload whose only chunk is allocated at index one and that is completed with one
chunk and one byte more than the chunk has. -/
def sparseUpload : List Call :=
  [⟨0, .upsertNode "n1" "n1:9000" .healthy {} 0⟩, ⟨1, .beginUpload 1 "b" "k" "" 8⟩,
    ⟨2, .reserveChunk 10 ⟨some 1, none⟩ 1 8⟩, ⟨3, .recordChunkTargets 10 ["n1"]⟩,
    ⟨4, .commitChunk 10 5 8 ["n1"] [] 1⟩, ⟨5, .completeUpload 1 9 1 "e"⟩]

theorem sparse_upload_misdescribed :
    (run step Database.empty sparseUpload).complete 1 ∧
      ¬CompleteDescribed (run step Database.empty sparseUpload) := by
  decide

end FlexStore.Metadata
