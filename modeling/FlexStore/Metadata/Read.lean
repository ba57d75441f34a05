import FlexStore.Metadata.Publication
import FlexStore.Metadata.Sealed

/-!
# Reads across overwrites

A read runs two queries: the first finds the current version of the key, the second
loads its chunks with the copies that may be served. Each sees one state, but they do not
see the same one. A completion on the key in between retires the version that was found
and takes its copies out of service, and the read fails although the key never was
without a readable version.
-/

namespace FlexStore.Metadata

open Relational Transition View

variable {db db' : Database} {op : Op} {r : Reply}

section Grouping

/-- The copies of one chunk are collected by the entry that is open for it. -/
theorem foldl_groupRows_open (out : List ChunkWithReplicas) (chunk : Chunk)
    (first rest : List Replica) :
    (rest.map fun r => LayoutRow.mk chunk (some r)).foldl groupRows (out ++ [⟨chunk, first⟩]) =
      out ++ [⟨chunk, first ++ rest⟩] := by
  induction rest generalizing first with
  | nil => simp
  | cons r rest ih =>
    have step : groupRows (out ++ [⟨chunk, first⟩]) ⟨chunk, some r⟩ =
        out ++ [⟨chunk, first ++ [r]⟩] := by
      simp [groupRows]
    rw [List.map_cons, List.foldl_cons, step, ih]
    simp

/-- The rows of a chunk that is not open make one entry, if there are any. -/
theorem foldl_groupRows_chunk {out : List ChunkWithReplicas} {chunk : Chunk}
    (closed : ∀ last, out.getLast? = some last → last.chunk.id ≠ chunk.id)
    (copies : List Replica) :
    (copies.map fun r => LayoutRow.mk chunk (some r)).foldl groupRows out =
      out ++ (if copies = [] then [] else [⟨chunk, copies⟩]) := by
  cases copies with
  | nil => simp
  | cons r rest =>
    have new : out.getLast?.any (·.chunk.id = chunk.id) = false := by
      cases last : out.getLast? with
      | none => rfl
      | some entry => simpa using closed entry last
    have step : groupRows out ⟨chunk, some r⟩ = out ++ [⟨chunk, [r]⟩] := by
      simp [groupRows, new]
    rw [List.map_cons, List.foldl_cons, step, foldl_groupRows_open]
    simp

end Grouping

/-- A chunk with its copies that are AVAILABLE on nodes that are not DEAD. -/
def servedEntry (db : Database) (row : ChunkRow) : ChunkWithReplicas :=
  ⟨scanChunk row, (joinedReplicas db true row.id).map (scanReplica db)⟩

/-- The entry of a chunk in the layout that is served. Without any copy, there is none. -/
def layoutEntry (db : Database) (row : ChunkRow) : Option ChunkWithReplicas :=
  if joinedReplicas db true row.id = [] then none else some (servedEntry db row)

theorem layoutRows_available (db : Database) (row : ChunkRow) :
    layoutRows db true row = ((joinedReplicas db true row.id).map (scanReplica db)).map
      fun r => LayoutRow.mk (scanChunk row) (some r) := by
  simp [layoutRows]

/-- The scan loop finds the entries of the chunks, in the order of the rows. -/
theorem foldl_groupRows {rows : List ChunkRow} {out : List ChunkWithReplicas}
    (distinct : (rows.map (·.id)).Nodup)
    (closed : ∀ last, out.getLast? = some last → last.chunk.id ∉ rows.map (·.id)) :
    (rows.flatMap (layoutRows db true)).foldl groupRows out =
      out ++ rows.filterMap (layoutEntry db) := by
  induction rows generalizing out with
  | nil => simp
  | cons row rest ih =>
    rw [List.map_cons, List.nodup_cons] at distinct
    rw [List.flatMap_cons, List.foldl_append, layoutRows_available, foldl_groupRows_chunk ?_]
    · by_cases empty : joinedReplicas db true row.id = []
      · rw [List.filterMap_cons]
        simp only [empty, List.map_nil, if_true, List.append_nil, layoutEntry]
        refine ih distinct.2 fun last listed member => ?_
        exact closed last listed (List.mem_cons_of_mem _ member)
      · rw [List.filterMap_cons]
        simp only [empty, List.map_eq_nil_iff, if_false, layoutEntry, servedEntry]
        rw [ih distinct.2 ?_, List.append_assoc, List.singleton_append]
        intro last listed
        obtain rfl := Option.some.inj (List.getLast?_concat.symm.trans listed)
        exact distinct.1
    · intro last listed same
      exact closed last listed (by simp [same, scanChunk])

/-- The chunks that a layout query selects, in index order. -/
def selectedChunks (where_ : ChunkRow → Bool) (db : Database) : List ChunkRow :=
  (db.chunks.select where_).insertionSort fun a b => a.index ≤ b.index

theorem chunksWhere_available (where_ : ChunkRow → Bool) (db : Database) :
    chunksWhere where_ true db = (selectedChunks where_ db).filterMap (layoutEntry db) := by
  have distinct : ((selectedChunks where_ db).map (·.id)).Nodup :=
    ((List.perm_insertionSort _ _).map _).nodup_iff.mpr (Table.nodup_select _ _)
  exact (foldl_groupRows distinct (by simp)).trans (List.nil_append _)

def Op.completesObject : Op → Bool
  | .completeUpload .. => true
  | .completeMultipartUpload .. => true
  | _ => false

/-- A read with the listed calls between its two queries. -/
def getObjectAcross (bucket key : String) (between : List Call) (db : Database) :
    Result (Object × List ChunkWithReplicas) := do
  let obj ← headObject bucket key db
  getLayout obj (run step db between)

/-- The key has a COMPLETE version and each of its chunks has an AVAILABLE copy on a node
that is not DEAD. -/
def Readable (bucket key : String) (db : Database) : Prop :=
  ∃ row ∈ db.objects.rows, currentVersion bucket key row ∧
    ∀ c ∈ chunksOf (.object row.id) db, ∃ copy ∈ db.replicas.rows, copy.chunkID = c.id ∧
      copy.state = .available ∧ (db.nodes.find? copy.nodeID).any (·.health ≠ .dead)

instance (bucket key : String) (db : Database) : Decidable (Readable bucket key db) :=
  inferInstanceAs (Decidable (∃ row ∈ db.objects.rows, _ ∧ ∀ c ∈ chunksOf _ _, _))

def objectChunks (id : UUID) (db : Database) : List ChunkRow :=
  (chunksOf (.object id) db).insertionSort fun a b => a.index ≤ b.index

/-- The read succeeds and returns all the chunks, with at least one copy each, of a version
that was current at some moment of the call. -/
def ReadsVersion (bucket key : String) (between : List Call) (db : Database) : Prop :=
  ∃ obj chunks first second, getObjectAcross bucket key between db = .ok (obj, chunks) ∧
    between = first ++ second ∧ headObject bucket key (run step db first) = .ok obj ∧
    chunks.map (·.chunk) = (objectChunks obj.id (run step db first)).map scanChunk ∧
    ∀ entry ∈ chunks, entry.replicas ≠ []

/-- The version is in force: COMPLETE, with the rows that it had. -/
structure InForce (id : UUID) (start db : Database) : Prop where
  status : db.view.status (.object id) = .sealed
  object : db.view.objects id = start.view.objects id
  chunks : objectChunks id db = objectChunks id start

/-- The version has been retired and none of its copies is served. -/
structure Withdrawn (id : UUID) (db : Database) : Prop where
  status : db.view.status (.object id) = .dead
  copies : ∀ c row n, db.view.chunks c = some row → row.owner = .object id →
    (db.view.slots c n).replica ≠ some .available

section Step

variable {id : UUID} {start : Database}

theorem Change.inForce (change : Change db db' op r) (consistent : db.view.Consistent)
    (sealed : Sealed db) (completes : op.completesObject) (holds : InForce id start db) :
    InForce id start db' ∨ Withdrawn id db' := by
  have moves := change.status_moves consistent (.object id)
  rw [holds.status] at moves
  rcases moves with after | dead
  · left
    have steady := (change.sealing consistent after).steady (by simp [holds.status]) after
    refine ⟨after, ?_, ?_⟩
    · rw [← holds.object]
      have move := change.object_move id
      have status := holds.status
      rw [View.status] at status after
      generalize db.view.objects id = x at move status
      generalize db'.view.objects id = y at move after
      cases move with
      | same => rfl
      | begun | assembled => cases status
      | touched _ state | completed _ _ _ _ _ state | failed _ _ state =>
        simp [state, ObjectState.status] at status
      | retired | purged => cases after
    · rw [← holds.chunks]
      refine change.sorted_chunks_kept consistent sealed.orphans steady ?_
      rintro _ _ _ _ _ _ _ rfl
      cases completes
  · right
    refine ⟨dead, fun c row n found mine => ?_⟩
    rcases change.deaths consistent with ⟨p, deaths⟩ | spared
    · have given : p (.object id) = true := by
        by_contra kept
        have before := deaths.spared _ (Bool.not_eq_true _ ▸ kept) dead
        rw [holds.status] at before
        cases before
      rw [deaths.slots, if_pos (by simp [View.ownedBy, found, mine, given])]
      exact Slot.condemn_available _
    · have before := spared _ dead
      rw [holds.status] at before
      cases before

theorem Change.withdrawn (change : Change db db' op r) (consistent : db.view.Consistent)
    (completes : op.completesObject) (holds : Withdrawn id db) : Withdrawn id db' := by
  have moves := change.status_moves consistent (.object id)
  rw [holds.status] at moves
  have dead : db'.view.status (.object id) = .dead := by
    refine moves.resolve_right fun absent => ?_
    have gone : (db'.view.objects id).isSome = false := by
      by_contra present
      rw [Bool.not_eq_false] at present
      exact status_object_ne_absent.mpr present absent
    have there : (db.view.objects id).isSome :=
      status_object_ne_absent.mp (by simp [holds.status])
    have move := change.object_move id
    generalize db.view.objects id = x at move there
    generalize db'.view.objects id = y at move gone
    cases move with
    | same => rw [there] at gone; cases gone
    | purged _ _ idle => cases op <;> simp_all [Op.completesObject, Op.acts]
    | _ => cases gone
  refine ⟨dead, fun c row n found mine available => ?_⟩
  rcases change.available consistent available with before | reported
  · have move := change.chunk_move c
    rw [found] at move
    generalize known : db.view.chunks c = x at move
    cases move with
    | same => exact holds.copies c row n known mine before
    | @orphaned old => exact holds.copies c old n known mine before
    | assembled objectID _ _ _ _ _ _ _ fresh =>
      cases mine
      have status := status_absent_of_none fresh
      rw [holds.status] at status
      cases status
    | reserved _ _ _ call | reset _ _ _ _ call | committed _ _ _ _ _ _ call =>
      simp [call, Op.completesObject] at completes
  · cases op <;> simp_all [Op.reports, Op.completesObject]

/-- Whatever completes between the queries, the version that the first query found is in
force or withdrawn when the second one runs. -/
theorem inForce_or_withdrawn {between : List Call} (consistent : start.view.Consistent)
    (sealed : Sealed start) (completions : ∀ call ∈ between, call.op.completesObject)
    (current : start.view.status (.object id) = .sealed) :
    InForce id start (run step start between) ∨ Withdrawn id (run step start between) := by
  have guarded : Guarded step (fun _ call => call.op.completesObject) start between :=
    guarded_of_forall completions start
  have phases := run_invariant
    (P := fun db => db.view.Consistent ∧ Sealed db ∧ (InForce id start db ∨ Withdrawn id db)) ?_
    ⟨consistent, sealed, Or.inl ⟨current, rfl, rfl⟩⟩ guarded
  · exact phases.2.2
  · rintro db call ⟨consistent, sealed, phase⟩ completes
    refine ⟨consistent_step consistent, ?_⟩
    refine step_cases (R := fun db' => Sealed db' ∧ (InForce id start db' ∨ Withdrawn id db'))
      ⟨sealed, phase⟩ fun _ _ h => ⟨(exec_change h).sealed consistent sealed, ?_⟩
    rcases phase with inForce | withdrawn
    · exact (exec_change h).inForce consistent sealed completes inForce
    · exact Or.inr ((exec_change h).withdrawn consistent completes withdrawn)

end Step

section Layout

variable {id : UUID} {bucket key : String}

theorem joinedReplicas_eq_nil_iff {c : UUID} : joinedReplicas db true c = [] ↔
    ∀ copy ∈ db.replicas.rows, copy.chunkID = c → copy.state = .available →
      ¬(db.nodes.find? copy.nodeID).any (·.health ≠ .dead) := by
  rw [joinedReplicas, ← List.length_eq_zero_iff, List.length_insertionSort,
    List.length_eq_zero_iff]
  simp [Table.select, List.filter_eq_nil_iff]

/-- The layout of a sealed object whose chunks all have a copy to serve is full. -/
theorem chunksForObject_of_served (sealed : Sealed db)
    (status : db.view.status (.object id) = .sealed)
    (served : ∀ c ∈ chunksOf (.object id) db, joinedReplicas db true c.id ≠ []) :
    chunksForObject id true db = (objectChunks id db).map (servedEntry db) := by
  have selected : selectedChunks (fun c => c.owner = .object id && c.state = .committed) db =
      objectChunks id db := by
    refine congrArg (List.insertionSort _) (List.filter_congr fun row member => ?_)
    by_cases mine : row.owner = .object id
    · have state := sealed.committed _ row (Table.find?_of_mem member) (mine ▸ status)
      simp [mine, state]
    · simp [mine]
  rw [chunksForObject, chunksWhere_available, selected, ← List.filterMap_eq_map]
  refine List.filterMap_congr fun row listed => ?_
  exact if_neg (served row ((List.mem_insertionSort _).mp listed))

theorem joinedReplicas_of_withdrawn (withdrawn : Withdrawn id db) {row : ChunkRow}
    (listed : row ∈ chunksOf (.object id) db) : joinedReplicas db true row.id = [] := by
  obtain ⟨found, mine⟩ := mem_chunksOf.mp listed
  refine joinedReplicas_eq_nil_iff.mpr fun copy member same available => ?_
  refine absurd ?_ (withdrawn.copies row.id row copy.nodeID found mine)
  exact replicaState_eq_some.mpr ⟨copy, member, same, rfl, available⟩

/-- The layout of a withdrawn object is empty. -/
theorem chunksForObject_of_withdrawn (withdrawn : Withdrawn id db) :
    chunksForObject id true db = [] := by
  rw [chunksForObject, chunksWhere_available]
  refine List.filterMap_eq_nil_iff.mpr fun row listed => ?_
  obtain ⟨member, selected⟩ := List.mem_filter.mp ((List.mem_insertionSort _).mp listed)
  simp only [Bool.and_eq_true, decide_eq_true_eq] at selected
  exact if_pos (joinedReplicas_of_withdrawn withdrawn
    (mem_chunksOf.mpr ⟨Table.find?_of_mem member, selected.1⟩))

/-- A readable key has a version that the first query finds. -/
theorem headObject_of_readable (readable : Readable bucket key db) :
    ∃ row, db.view.objects row.id = some row ∧ currentVersion bucket key row ∧
      headObject bucket key db = .ok (scanObject row) := by
  obtain ⟨row, member, current, -⟩ := readable
  cases head : (db.objects.select (currentVersion bucket key)).head? with
  | none =>
    have empty := List.filter_eq_nil_iff.mp (List.head?_eq_none_iff.mp head)
    exact absurd current (empty row member)
  | some row =>
    obtain ⟨member, current⟩ := List.mem_filter.mp (List.mem_of_head? head)
    exact ⟨row, Table.find?_of_mem member, current, by rw [headObject, head]; rfl⟩

/-- If the version in force is the one that makes the key readable, its chunks have copies
to serve. -/
theorem served_of_readable (consistent : db.view.Consistent) (readable : Readable bucket key db)
    {row : ObjectRow} (found : db.view.objects row.id = some row)
    (current : currentVersion bucket key row) :
    ∀ c ∈ chunksOf (.object row.id) db, joinedReplicas db true c.id ≠ [] := by
  obtain ⟨other, member, alsoCurrent, copies⟩ := readable
  obtain ⟨b, k, state⟩ := currentVersion_iff.mp current
  obtain ⟨b', k', state'⟩ := currentVersion_iff.mp alsoCurrent
  have same : other.id = row.id := consistent.current (Table.find?_of_mem member) found state' state
    (b'.trans b.symm) (k'.trans k.symm)
  intro c listed empty
  obtain ⟨copy, inTable, chunk, available, alive⟩ := copies c (same ▸ listed)
  exact joinedReplicas_eq_nil_iff.mp empty copy inTable chunk available alive

/-- The number of chunks that a current version declares is the number that it has. -/
theorem length_objectChunks (sealed : Sealed db) {row : ObjectRow}
    (found : db.view.objects row.id = some row)
    (status : db.view.status (.object row.id) = .sealed) :
    (objectChunks row.id db).length = row.chunkCount := by
  have count := sealed.count _ status
  rw [View.declared, found] at count
  rw [objectChunks, List.length_insertionSort]
  exact (Option.some.inj count).symm

theorem getLayout_eq_ok {obj obj' : Object} {chunks : List ChunkWithReplicas} :
    getLayout obj db = .ok (obj', chunks) ↔
      (chunksForObject obj.id true db).length = obj.chunkCount ∧ obj = obj' ∧
        chunksForObject obj.id true db = chunks := by
  simp only [getLayout, bind_eq_ok, require_eq_ok, pure_eq_ok, Prod.mk.injEq, exists_const]

end Layout

/-- A read with completions between its two queries, while the key is readable all along:
it returns all the chunks of a version that was current during the call exactly when the
version that the first query found is still COMPLETE at the second, or has no chunks. -/
theorem read_across_completions (past between : List Call) (bucket key : String)
    (completions : ∀ call ∈ between, call.op.completesObject)
    (readable : Always step (Readable bucket key) (run step Database.empty past) between) :
    ∃ obj, headObject bucket key (run step Database.empty past) = .ok obj ∧
      (ReadsVersion bucket key between (run step Database.empty past) ↔
        (run step (run step Database.empty past) between).complete obj.id ∨
          obj.chunkCount = 0) := by
  have sealed : Sealed (run step Database.empty past) := sealed_run past
  have sealed' : Sealed (run step (run step Database.empty past) between) := by
    rw [← run_append]
    exact sealed_run _
  have consistent := consistent_run consistent_empty past
  have consistent' := consistent_run consistent between
  generalize run step Database.empty past = start at *
  obtain ⟨row, found, current, head⟩ := headObject_of_readable readable.first
  have status : start.view.status (.object row.id) = .sealed := by
    rw [status_object found, (currentVersion_iff.mp current).2.2]
    rfl
  have count := length_objectChunks sealed found status
  have phase := inForce_or_withdrawn consistent sealed completions status
  have query : getObjectAcross bucket key between start =
      getLayout (scanObject row) (run step start between) := by
    rw [getObjectAcross, head]
    rfl
  have named : (scanObject row).id = row.id := rfl
  refine ⟨scanObject row, head, ⟨?_, fun condition => ?_⟩⟩
  · rintro ⟨obj, chunks, first, second, result, -⟩
    obtain ⟨length, -⟩ := getLayout_eq_ok.mp (query.symm.trans result)
    rcases phase with inForce | withdrawn
    · exact Or.inl (complete_iff.mpr inForce.status)
    · rw [named, chunksForObject_of_withdrawn withdrawn] at length
      exact Or.inr length.symm
  rcases phase with inForce | withdrawn
  · have served := served_of_readable consistent' readable.last (inForce.object.trans found) current
    have full := chunksForObject_of_served sealed' inForce.status served
    refine ⟨scanObject row, _, [], between,
      query.trans (getLayout_eq_ok.mpr ⟨?_, rfl, full⟩), rfl, head, ?_, ?_⟩
    · rw [named, full, List.length_map, inForce.chunks, count]
      rfl
    · rw [List.map_map, inForce.chunks]
      rfl
    · intro entry listed
      obtain ⟨c, member, rfl⟩ := List.mem_map.mp listed
      simpa [servedEntry] using served c ((List.mem_insertionSort _).mp member)
  · have chunkless : row.chunkCount = 0 := by
      refine condition.resolve_left fun complete => ?_
      have alive := complete_iff.mp complete
      rw [named, withdrawn.status] at alive
      cases alive
    have empty := chunksForObject_of_withdrawn withdrawn
    rw [chunkless, List.length_eq_zero_iff] at count
    refine ⟨scanObject row, [], [], between,
      query.trans (getLayout_eq_ok.mpr ⟨?_, rfl, empty⟩), rfl, head, ?_, by simp⟩
    · rw [named, empty]
      exact chunkless.symm
    · rw [run_nil, named, count]
      rfl

/-- A key with a COMPLETE version and an upload of the next one that is ready to complete. -/
def readyToOverwrite : List Call :=
  [⟨0, .upsertNode "n1" "n1:9000" .healthy {} 0⟩, ⟨1, .beginUpload 1 "b" "k" "" 8⟩,
    ⟨2, .reserveChunk 10 ⟨some 1, none⟩ 0 8⟩, ⟨3, .recordChunkTargets 10 ["n1"]⟩,
    ⟨4, .commitChunk 10 5 8 ["n1"] [] 1⟩, ⟨5, .completeUpload 1 8 1 "e"⟩,
    ⟨6, .beginUpload 2 "b" "k" "" 8⟩, ⟨7, .reserveChunk 11 ⟨some 2, none⟩ 0 8⟩,
    ⟨8, .recordChunkTargets 11 ["n1"]⟩, ⟨9, .commitChunk 11 6 8 ["n1"] [] 1⟩]

/-- The overwrite declares a chunk too many and is refused: the read succeeds. -/
theorem read_across_completions_refused :
    ReadsVersion "b" "k" [⟨10, .completeUpload 2 8 2 "f"⟩]
      (run step Database.empty readyToOverwrite) := by
  obtain ⟨obj, head, iff⟩ := read_across_completions readyToOverwrite
    [⟨10, .completeUpload 2 8 2 "f"⟩] "b" "k" (by decide) (by decide)
  have first : (headObject "b" "k" (run step Database.empty readyToOverwrite)).map (·.id) =
      .ok 1 := by
    decide
  rw [head] at first
  have named : obj.id = 1 := Except.ok.inj first
  rw [named] at iff
  exact iff.mpr (Or.inl (by decide))

/-- The overwrite completes between the two queries: the key is readable in every state of
the call and the read fails with a conflict. -/
theorem overwrite_breaks_read :
    Always step (Readable "b" "k") (run step Database.empty readyToOverwrite)
        [⟨10, .completeUpload 2 8 1 "f"⟩] ∧
      getObjectAcross "b" "k" [⟨10, .completeUpload 2 8 1 "f"⟩]
        (run step Database.empty readyToOverwrite) = .error .conflict := by
  decide

end FlexStore.Metadata
