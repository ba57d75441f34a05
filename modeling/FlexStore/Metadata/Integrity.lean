import FlexStore.Metadata.Slots

/-!
# Chunk rows and the integrity of the tables

`ChunkMove` lists what can happen to one chunk row: it is allocated, allocated again,
committed, orphaned with its owner, handed over to an assembled object, or purged.
Together with the moves of the owners it gives the foreign keys and unique indexes
of the schema as an invariant of every run (`Consistent`).
-/

namespace FlexStore.Metadata

open Relational Transition View

inductive ChunkMove (db db' : Database) (op : Op) (c : UUID) :
    Option ChunkRow → Option ChunkRow → Prop
  | same (o : Option ChunkRow) : ChunkMove db db' op c o o
  | reserved {row : ChunkRow} (own : ChunkOwner) (index sizeBytes : Int)
      (call : op = .reserveChunk c own index sizeBytes) (state : row.state = .pending)
      (writable : db.view.writable row.owner)
      (free : ∀ {k other}, db.view.chunks k = some other → other.owner = row.owner →
        other.index ≠ row.index) : ChunkMove db db' op c none (some row)
  | reset {row : ChunkRow} (newID : UUID) (own : ChunkOwner) (index sizeBytes : Int)
      (call : op = .reserveChunk newID own index sizeBytes)
      (writable : db.view.writable row.owner) :
      ChunkMove db db' op c (some row) (some (row.reset sizeBytes.toNat))
  | committed {row : ChunkRow} (now : Time) (checksum : Checksum) (sizeBytes : Int)
      (succeeded failed : List NodeID) (minReplicas : Int)
      (call : op = .commitChunk c checksum sizeBytes succeeded failed minReplicas)
      (size : 0 ≤ sizeBytes) (durable : minReplicas ≤ db'.countAvailable c) :
      ChunkMove db db' op c (some row) (some (row.commit now checksum sizeBytes.toNat))
  | orphaned {row : ChunkRow} (dead : db'.view.status row.owner = .dead) :
      ChunkMove db db' op c (some row) (some row.orphan)
  | assembled {row : ChunkRow} (objectID uploadID : UUID) (expected : List CompletedPartRef)
      (call : op = .completeMultipartUpload objectID uploadID expected)
      (state : row.state = .committed) {part : UUID} (owned : row.owner = .part part)
      (sealed : db.view.status row.owner = .sealed)
      (closed : db'.view.status row.owner = .dead) (fresh : db.view.objects objectID = none)
      (complete : db'.view.status (.object objectID) = .sealed)
      (member : c ∈ (assembledChunks uploadID db).map (·.id)) (named : row.id = c) :
      ChunkMove db db' op c (some row)
        (some (row.reparent objectID ((assembledChunks uploadID db).map (·.id))))
  | purged {row : ChunkRow} (gone : row.state = .orphaned ∨ db.view.status row.owner = .dead)
      (bare : ∀ n, db.view.slots c n = ⟨none, false⟩)
      (kept : db'.view.slots c = db.view.slots c) : ChunkMove db db' op c (some row) none

theorem objectWith_iff {v : View} {p : ObjectRow → Bool} {o : Owner} :
    v.objectWith p o ↔ ∃ id row, o = .object id ∧ v.objects id = some row ∧ p row := by
  cases o <;> simp [objectWith, Option.any_eq_true]

variable {db db' : Database} {op : Op} {r : Reply}

variable {c : UUID} {row : ChunkRow} {n : NodeID}

theorem ChunkMove.reclaim {o o' : Option ChunkRow} {p : Owner → Bool}
    (after : o' = o.map fun row => if p row.owner then row.orphan else row)
    (dead : ∀ owner, p owner → db'.view.status owner = .dead) : ChunkMove db db' op c o o' :=
  move_of_map after (fun row _ selected => .orphaned (dead row.owner selected)) .same

theorem chunk_id (found : db.view.chunks c = some row) : row.id = c :=
  (Table.mem_of_find? found).2

/-- A chunk that an assembly takes over is COMMITTED and belongs to a COMPLETE part. -/
theorem mem_assembledChunks {uploadID : UUID} (found : db.view.chunks c = some row)
    (member : c ∈ (assembledChunks uploadID db).map (·.id)) :
    row.state = .committed ∧ ∃ id part, row.owner = .part id ∧ db.view.parts id = some part ∧
      part.uploadID = uploadID ∧ part.state = .complete := by
  obtain ⟨x, listed, same⟩ := List.mem_map.mp member
  obtain ⟨inTable, selected⟩ := List.mem_filter.mp ((List.mem_insertionSort _).mp listed)
  have this : x = row := by
    have lookup : db.view.chunks x.id = some x := Table.find?_of_mem inTable
    rw [same, found] at lookup
    exact (Option.some.inj lookup).symm
  subst this
  simp only [Bool.and_eq_true, decide_eq_true_eq, Option.any_eq_true] at selected
  obtain ⟨state, part, lookup, session, complete⟩ := selected
  refine ⟨state, ?_⟩
  cases owner : x.owner with
  | object => simp [partOf, owner] at lookup
  | part id =>
    simp only [partOf, owner] at lookup
    exact ⟨id, part, rfl, lookup, session, complete⟩

/-- A chunk that an assembly takes over belongs to the object afterwards. -/
theorem chunk_of_assemble {v w middle : View} {now : Time} {objectID uploadID : UUID}
    {session : MultipartUploadRow} {row finished : ObjectRow} {ids : List UUID}
    {bucket key : String} {x : ChunkRow}
    (promoted : middle = ((v.assemble row ids).supersede now bucket key objectID).promote objectID
      finished) (view : w = { middle.reclaim (middle.partWith (·.uploadID = uploadID)) with
      uploads := Function.update v.uploads uploadID (some (session.close now objectID)) })
    (before : v.chunks c = some x) (mine : x.id = c) (named : row.id = objectID) (taken : c ∈ ids) :
    w.chunks c = some (x.reparent objectID ids) := by
  have rows : w.chunks c = ((v.assemble row ids).chunks c).map fun x =>
      if v.partWith (·.uploadID = uploadID) x.owner then x.orphan else x := by
    rw [view, promoted]
    rfl
  rw [rows]
  simp only [View.assemble, View.mapChunks, before, Option.map_some, mine, taken, decide_true,
    if_true, named, partWith, Bool.false_eq_true, if_false]

/-- Every transaction moves every chunk row along its lifecycle. -/
theorem Change.chunk_move (change : Change db db' op r) (c : UUID) :
    ChunkMove db db' op c (db.view.chunks c) (db'.view.chunks c) := by
  cases change with
  | failed _ ids now text accepting view =>
    exact .reclaim (congrFun (congrArg View.chunks view) c) (Deaths.failed accepting view).dead
  | reset newID own index sizeBytes id old found writable view =>
    exact move_of_update (congrArg View.chunks view) found
      (.reset newID own index sizeBytes rfl writable) .same
  | reserved id own index sizeBytes new fresh writable _ state free view =>
    exact move_of_update (congrArg View.chunks view) fresh
      (.reserved own index sizeBytes rfl state writable (free _ _)) .same
  | committed id checksum size succeeded failed minimum now old _ found _ durable positive view =>
    exact move_of_update (congrArg View.chunks view) found
      (.committed now checksum size succeeded failed minimum rfl positive durable) .same
  | partBegun _ _ _ _ _ found progress fresh view =>
    exact .reclaim (congrFun (congrArg View.chunks view) c)
      (Deaths.restarted found progress fresh view).dead
  | assembled objectID uploadID expected now session row size count etag middle found progress
      fresh new _ _ _ _ promoted view =>
    have named : row.id = objectID := by rw [new]; rfl
    have deaths := Deaths.assembled fresh named rfl promoted view
    have rows : db'.view.chunks c = ((db.view.assemble row
        ((assembledChunks uploadID db).map (·.id))).chunks c).map fun x =>
        if db.view.partWith (·.uploadID = uploadID) x.owner then x.orphan else x := by
      rw [view, promoted]
      rfl
    cases before : db.view.chunks c with
    | none =>
      rw [rows]
      simpa [View.assemble, View.mapChunks, before] using .same none
    | some x =>
      by_cases taken : c ∈ (assembledChunks uploadID db).map (·.id)
      · have after := chunk_of_assemble promoted view before (chunk_id before) named taken
        obtain ⟨state, id, part, owner, lookup, rfl, complete⟩ :=
          mem_assembledChunks before taken
        rw [after]
        refine .assembled _ _ expected rfl state owner ?_ ?_ fresh ?_ taken (chunk_id before)
        · rw [owner, status_part lookup, partStatus, progressing, found, complete]
          simp [progress, PartState.status]
        · rw [owner]
          exact deaths.dead _ (by simp [partWith, lookup])
        · have object : db'.view.objects objectID =
              some (row.finish now size.toNat count.toNat etag) := by
            rw [view, promoted]
            exact Function.update_self _ _ _
          rw [status_object object]
          rfl
      · have after : db'.view.chunks c = (some x).map fun x =>
            if db.view.partWith (·.uploadID = uploadID) x.owner then x.orphan else x := by
          rw [rows]
          simp only [View.assemble, View.mapChunks, before, Option.map_some, chunk_id before,
            taken, decide_false, Bool.false_eq_true, if_false]
        exact .reclaim after fun owner mine => deaths.dead owner (by simp [mine])
  | sessionsAborted _ now selected view =>
    exact .reclaim (congrFun (congrArg View.chunks view) c) (Deaths.aborted view).dead
  | purged _ chunk object orphans dead bare view =>
    have rows : db'.view.chunks c = (db.view.chunks c).filter fun row =>
        !(chunk row || db.view.objectWith object row.owner) := by
      simp only [view, Bool.not_or]
    refine move_of_filter rows ?_ .same
    intro row found chosen
    have gone := (Bool.or_eq_true _ _).mp chosen
    refine .purged ?_ (bare c row found gone) (congrFun (congrArg View.slots view) c)
    obtain gone | gone := gone
    · exact Or.inl (orphans c row found gone)
    · obtain ⟨id, o, owner, lookup, chosen⟩ := objectWith_iff.mp gone
      right
      rw [owner, status_object lookup]
      obtain state | state := dead id o lookup chosen <;> rw [state] <;> rfl
  | _ =>
    rename db'.view = _ => view
    have rows : db'.view.chunks c = db.view.chunks c := by
      first
      | exact congrFun (congrArg View.chunks view) c
      | rw [view]; split <;> rfl
    rw [rows]
    exact .same _

/-- What a commit did, seen from its own chunk. -/
theorem Change.commit {checksum : Checksum} {sizeBytes minReplicas : Int}
    {succeeded failed : List NodeID}
    (change : Change db db' (.commitChunk c checksum sizeBytes succeeded failed minReplicas) r) :
    ∃ now row, db.view.chunks c = some row ∧ 0 ≤ sizeBytes ∧
      minReplicas ≤ db'.countAvailable c ∧
      db'.view.chunks = Function.update db.view.chunks c
        (some (row.commit now checksum sizeBytes.toNat)) ∧
      db'.view.slots = (db.view.acknowledge c succeeded failed).slots := by
  cases change with
  | committed _ _ _ _ _ _ now row _ found _ durable size view =>
    have slots := congrArg View.slots view
    exact ⟨now, row, found, size, durable, congrArg View.chunks view, slots⟩
  | registered _ _ _ call => cases call
  | bookkeeping quiet | failed quiet | sessionsAborted quiet | trimmed quiet | purged quiet
  | sessionsPurged quiet => cases quiet.2

/-- What an assembly did with the chunks it took over. -/
theorem Change.assembly {objectID uploadID : UUID} {expected : List CompletedPartRef}
    (change : Change db db' (.completeMultipartUpload objectID uploadID expected) r)
    (found : db.view.chunks c = some row) (taken : c ∈ (assembledChunks uploadID db).map (·.id)) :
    db'.view.chunks c =
      some (row.reparent objectID ((assembledChunks uploadID db).map (·.id))) := by
  cases change with
  | assembled _ _ _ _ _ _ _ _ _ _ _ _ _ new _ _ _ _ promoted view =>
    exact chunk_of_assemble promoted view found (chunk_id found) (by rw [new]; rfl) taken
  | registered _ _ _ call => cases call
  | bookkeeping quiet | failed quiet | sessionsAborted quiet | trimmed quiet | purged quiet
  | sessionsPurged quiet => cases quiet.2

section Kept

variable {w v : View} {id : UUID}

/-- A session that a part refers to stays. -/
theorem SessionMove.kept {u u' : Option MultipartUploadRow} (move : SessionMove w id u u')
    {k : UUID} {part : PartRow} (held : w.parts k = some part) (mine : part.uploadID = id)
    (present : u.isSome) : u'.isSome := by
  cases move with
  | same => exact present
  | created => rfl
  | touched => rfl
  | closed => rfl
  | purged _ unused => exact absurd mine (unused held)

/-- An object that a chunk refers to stays. -/
theorem ObjectMove.kept {o o' : Option ObjectRow} (move : ObjectMove db db' op r id o o')
    (held : db'.view.chunks c = some row) (mine : row.owner = .object id) (present : o.isSome) :
    o'.isSome := by
  cases move with
  | same => exact present
  | purged _ unused => exact absurd mine (unused held)
  | _ => rfl

/-- A part that a chunk refers to stays. -/
theorem PartMove.kept {p p' : Option PartRow} (move : PartMove db db' op id p p')
    (held : db'.view.chunks c = some row) (mine : row.owner = .part id) (present : p.isSome) :
    p'.isSome := by
  cases move with
  | same => exact present
  | purged _ unused => exact absurd mine (unused held)
  | _ => rfl

theorem View.status_object_ne_absent : v.status (.object id) ≠ .absent ↔ (v.objects id).isSome := by
  cases found : v.objects id with
  | none => simp [status, found]
  | some row =>
    rw [status_object found]
    cases row.state <;> simp [ObjectState.status]

theorem View.status_part_ne_absent : v.status (.part id) ≠ .absent ↔ (v.parts id).isSome := by
  cases found : v.parts id with
  | none => simp [status, found]
  | some row => simpa [status_part found] using v.partStatus_ne_absent row

end Kept

/-- An owner that a chunk refers to stays. -/
theorem Change.owner_kept (change : Change db db' op r) (held : db'.view.chunks c = some row)
    (present : db.view.status row.owner ≠ .absent) : db'.view.status row.owner ≠ .absent := by
  cases owner : row.owner with
  | object id =>
    rw [owner] at present
    exact status_object_ne_absent.mpr
      ((change.object_move id).kept held owner (status_object_ne_absent.mp present))
  | part id =>
    rw [owner] at present
    exact status_part_ne_absent.mpr
      ((change.part_move id).kept held owner (status_part_ne_absent.mp present))

theorem View.writable_ne_absent {v : View} {o : Owner} (writable : v.writable o) :
    v.status o ≠ .absent := by
  cases o with
  | object id => exact status_object_ne_absent.mpr (Option.isSome_of_any writable)
  | part id => exact status_part_ne_absent.mpr (Option.isSome_of_any writable)

/-- How the row of a node moves. Node rows are never deleted. -/
inductive NodeMove (op : Op) (n : NodeID) : Option NodeRow → Option NodeRow → Prop
  | same (o : Option NodeRow) : NodeMove op n o o
  | registered {o : Option NodeRow} {row : NodeRow} (call : op.registers = some (n, row.health)) :
      NodeMove op n o (some row)
  | healthSet {row : NodeRow} (health : Health) (now : Time) (call : op = .setNodeHealth n health) :
      NodeMove op n (some row) (some (row.setHealth now health))

theorem Change.node_move (change : Change db db' op r) (n : NodeID) :
    NodeMove op n (db.view.nodes n) (db'.view.nodes n) := by
  cases change with
  | registered id _ row call recorded view =>
    exact move_of_update (congrArg View.nodes view) rfl (.registered (recorded ▸ call)) .same
  | healthSet id health now view =>
    have rows : db'.view.nodes n = (db.view.nodes n).map fun row =>
        if decide (row.id = id) then row.setHealth now health else row := by
      rw [view]
      split <;> rfl
    refine move_of_map rows (fun row found chosen => ?_) .same
    exact .healthSet health now (by rw [← (Table.mem_of_find? found).2, of_decide_eq_true chosen])
  | assembled _ _ _ _ _ _ _ _ _ _ _ _ _ _ _ _ _ _ promoted view =>
    rw [view, promoted]
    exact .same _
  | _ =>
    rename db'.view = _ => view
    rw [view]
    exact .same _

theorem Change.node_kept (change : Change db db' op r) (present : (db.view.nodes n).isSome) :
    (db'.view.nodes n).isSome := by
  have move := change.node_move n
  generalize db.view.nodes n = o at *
  generalize db'.view.nodes n = o' at *
  cases move with
  | same => exact present
  | registered | healthSet => rfl

/-- A recorded copy was recorded before, or its keys were checked just now. -/
theorem SlotMove.copy {s s' : Slot} (move : SlotMove db db' op c n s s')
    (present : s'.replica.isSome) : s.replica.isSome ∨ db.view.referenced c n := by
  cases move with
  | same => exact Or.inl present
  | demoted _ state | trimmed _ state => rcases state with state | state <;> simp [state]
  | staled state | promoted _ state => simp [state]
  | condemned => simpa [Slot.condemn] using Or.inl present
  | targeted _ _ known | acknowledged _ _ known | repaired _ known => exact Or.inr known
  | refused _ _ _ known => exact Or.inl known
  | corrupted => simpa using Or.inl present
  | dropped | orphanQueued => simp at present
  | finished =>
    split at present
    · simp at present
    · exact Or.inl present
  | abandoned => exact Or.inl (Option.isSome_of_isSome_filter _ _ present)

/-- A copy that is there after a change is of a chunk that was there before. -/
theorem Change.copy_present (change : Change db db' op r) (consistent : db.view.Consistent)
    (held : (db'.view.slots c n).replica.isSome) : (db.view.chunks c).isSome := by
  have known : db.view.referenced c n :=
    ((change.slot_move consistent c n).copy held).elim consistent.copy id
  exact ((Bool.and_eq_true _ _).mp known).1

/-- A chunk row stays as long as a copy refers to it. -/
theorem ChunkMove.kept {o o' : Option ChunkRow} (move : ChunkMove db db' op c o o')
    (held : (db'.view.slots c n).replica.isSome) (present : o.isSome) : o'.isSome := by
  cases move with
  | same => exact present
  | purged _ bare kept => simp [kept, bare n] at held
  | _ => rfl

/-- A row that is COMPLETE was so before, or it is the only one of its key. -/
theorem ObjectMove.current {id : UUID} {o : Option ObjectRow} {row : ObjectRow}
    (move : ObjectMove db db' op r id o (some row)) (state : row.state = .complete) :
    o = some row ∨ db'.view.OnlyVersion id row := by
  cases move with
  | same => exact Or.inl rfl
  | completed _ _ _ _ _ _ _ _ _ only | assembled _ _ _ _ _ _ _ only => exact Or.inr only
  | begun open_ | touched _ open_ => simp [open_] at state
  | failed | retired => simp at state

/-- Two chunks at one position of one owner: what the other one was before. -/
theorem ChunkMove.position {o : Option ChunkRow} (move : ChunkMove db db' op c o (some row)) :
    (∃ old, o = some old ∧ old.owner = row.owner ∧ old.index = row.index) ∨
      ((∃ own index sizeBytes, op = .reserveChunk c own index sizeBytes) ∧ o = none ∧
        db.view.writable row.owner ∧ ∀ {k other}, db.view.chunks k = some other →
          other.owner = row.owner → other.index ≠ row.index) ∨
      ∃ objectID uploadID expected, op = .completeMultipartUpload objectID uploadID expected ∧
        db.view.objects objectID = none ∧ db'.view.status (.object objectID) = .sealed ∧
        row.owner = .object objectID ∧
        c ∈ (assembledChunks uploadID db).map (·.id) ∧
        row.index = ((assembledChunks uploadID db).map (·.id)).idxOf c := by
  cases move with
  | same => exact Or.inl ⟨row, rfl, rfl, rfl⟩
  | reserved own index size call _ writable free =>
    exact Or.inr (Or.inl ⟨⟨own, index, size, call⟩, rfl, writable, free⟩)
  | @reset old | @committed old | @orphaned old => exact Or.inl ⟨old, rfl, rfl, rfl⟩
  | assembled objectID uploadID expected call _ _ _ _ fresh complete member named =>
    exact Or.inr (Or.inr ⟨objectID, uploadID, expected, call, fresh, complete, rfl, member,
      by rw [← named]⟩)

theorem View.status_absent_of_none {v : View} {id : UUID} (fresh : v.objects id = none) :
    v.status (.object id) = .absent := by
  simp [status, fresh]

/-- An object that does not exist has no chunk. -/
theorem View.Consistent.unowned {v : View} (consistent : v.Consistent) {id : UUID}
    (fresh : v.objects id = none) (found : v.chunks c = some row) : row.owner ≠ .object id := by
  intro owner
  refine consistent.chunk_owner found ?_
  rw [owner]
  exact status_absent_of_none fresh

theorem Change.index_unique (change : Change db db' op r) (consistent : db.view.Consistent)
    {a b : UUID} {x y : ChunkRow} (foundA : db'.view.chunks a = some x)
    (foundB : db'.view.chunks b = some y) (owner : x.owner = y.owner) (index : x.index = y.index) :
    a = b := by
  have first := change.chunk_move a
  have second := change.chunk_move b
  rw [foundA] at first
  rw [foundB] at second
  rcases first.position with ⟨p, before, sameOwner, sameIndex⟩ |
    ⟨⟨_, _, _, call⟩, -, writable, free⟩ |
    ⟨objectID, uploadID, expected, call, fresh, -, mine, member, place⟩ <;>
  rcases second.position with ⟨q, before', sameOwner', sameIndex'⟩ |
    ⟨⟨_, _, _, call'⟩, -, writable', free'⟩ |
    ⟨objectID', uploadID', expected', call', fresh', -, mine', member', place'⟩
  · exact consistent.index before before' (sameOwner.trans (owner.trans sameOwner'.symm))
      (sameIndex.trans (index.trans sameIndex'.symm))
  · exact absurd (sameIndex.trans index) (free' before (sameOwner.trans owner))
  · have held := consistent.chunk_owner before
    rw [sameOwner, owner, mine', status_absent_of_none fresh'] at held
    exact absurd rfl held
  · exact absurd (sameIndex'.trans index.symm) (free before' (sameOwner'.trans owner.symm))
  · cases call.symm.trans call'
    rfl
  · cases call.symm.trans call'
  · have held := consistent.chunk_owner before'
    rw [sameOwner', ← owner, mine, status_absent_of_none fresh] at held
    exact absurd rfl held
  · cases call.symm.trans call'
  · cases call.symm.trans call'
    rw [place, place'] at index
    exact (List.idxOf_inj member).mp index

/-- The constraints of the schema are kept by every transaction. -/
theorem Change.consistent (change : Change db db' op r) (consistent : db.view.Consistent) :
    db'.view.Consistent where
  part_session := by
    intro id row found
    have move := change.part_move id
    rw [found] at move
    have before : (∃ old, db.view.parts id = some old ∧ old.uploadID = row.uploadID) ∨
        db'.view.progressing row.uploadID := by
      generalize db.view.parts id = p at move
      cases move with
      | same => exact Or.inl ⟨row, rfl, rfl⟩
      | begun _ session => exact Or.inr session
      | @completed old | @failed old => exact Or.inl ⟨old, rfl, rfl⟩
    rcases before with ⟨old, lookup, same⟩ | progress
    · refine (change.session_move row.uploadID).kept found rfl ?_
      rw [← same]
      exact consistent.part_session lookup
    · exact Option.isSome_of_any progress
  chunk_owner := by
    intro c row found
    have move := change.chunk_move c
    rw [found] at move
    rcases move.position with ⟨old, before, owner, -⟩ | ⟨-, -, writable, -⟩ |
      ⟨_, _, _, -, -, complete, owner, -, -⟩
    · refine change.owner_kept found ?_
      rw [← owner]
      exact consistent.chunk_owner before
    · exact change.owner_kept found (writable_ne_absent writable)
    · rw [owner, complete]
      simp
  copy := by
    intro c n held
    have known : db.view.referenced c n :=
      ((change.slot_move consistent c n).copy held).elim consistent.copy id
    simp only [referenced, Bool.and_eq_true] at known ⊢
    exact ⟨(change.chunk_move c).kept held known.1, change.node_kept known.2⟩
  current := by
    intro a b x y foundA foundB stateA stateB bucket key
    have first := change.object_move a
    have second := change.object_move b
    rw [foundA] at first
    rw [foundB] at second
    rcases first.current stateA with before | only
    · rcases second.current stateB with before' | only'
      · exact consistent.current before before' stateA stateB bucket key
      · exact only' foundA stateA bucket key
    · exact (only foundB stateB bucket.symm key.symm).symm
  index := change.index_unique consistent

theorem consistent_empty : Database.empty.view.Consistent where
  part_session found := by simp [Database.view, Database.empty] at found
  chunk_owner found := by simp [Database.view, Database.empty] at found
  copy held := by simp [Database.view, Database.empty, Database.replicaState] at held
  current found := by simp [Database.view, Database.empty] at found
  index found := by simp [Database.view, Database.empty] at found

theorem consistent_step {call : Call} (consistent : db.view.Consistent) :
    (step db call).view.Consistent :=
  step_cases (R := fun db => db.view.Consistent) consistent
    fun _ _ h => (exec_change h).consistent consistent

theorem consistent_run (consistent : db.view.Consistent) (calls : List Call) :
    (run step db calls).view.Consistent :=
  run_preserved (P := fun db : Database => db.view.Consistent) (fun _ _ => consistent_step)
    consistent calls

/-- The rule behind the invariants: what every permitted change of a consistent database
keeps holds in every state of a permitted run. -/
theorem always_of_change {P : Database → Prop} {guard : Database → Call → Prop}
    (kept : ∀ {db db' call r}, db.view.Consistent → guard db call → P db →
      Change db db' call.op r → P db') {calls : List Call} (consistent : db.view.Consistent)
    (start : P db) (guarded : Guarded step guard db calls) : Always step P db calls := by
  have both : Always step (fun db => db.view.Consistent ∧ P db) db calls := by
    refine always_of_preserved ?_ ⟨consistent, start⟩ guarded
    rintro db call ⟨consistent, holds⟩ allowed
    refine ⟨consistent_step consistent, ?_⟩
    exact step_cases holds fun _ _ h => kept consistent allowed holds (exec_change h)
  exact both.mono fun _ h => h.2

end FlexStore.Metadata
