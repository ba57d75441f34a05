import FlexStore.Metadata.Change
import FlexStore.Relational.Moves

/-!
# Lifecycles of owners

Objects, parts and sessions move forward only. Seen from a chunk, its owner accepts
writes, is sealed, or is dead, and death is final: a dead owner is purged or stays
dead, whatever is done to the database. Purging is the only way a row disappears,
and it takes along everything that refers to the row.
-/

namespace FlexStore.Metadata

open Relational Transition

/-- What a chunk can expect of its owner. -/
inductive OwnerStatus where
  | absent
  | accepting
  | sealed
  | dead
  deriving DecidableEq, Repr

def ObjectState.status : ObjectState → OwnerStatus
  | .uploading => .accepting
  | .complete => .sealed
  | .deleting => .dead
  | .failed => .dead

def PartState.status : PartState → OwnerStatus
  | .uploading => .accepting
  | .complete => .sealed
  | .failed => .dead

def View.progressing (v : View) (uploadID : UUID) : Bool :=
  (v.uploads uploadID).any (·.state = .inProgress)

/-- The status of a part also depends on its session. -/
def View.partStatus (v : View) (p : PartRow) : OwnerStatus :=
  if v.progressing p.uploadID then p.state.status else .dead

def View.status (v : View) : Owner → OwnerStatus
  | .object id => (v.objects id).elim .absent (·.state.status)
  | .part id => (v.parts id).elim .absent v.partStatus

/-- The object is the only COMPLETE version of its key. -/
def View.OnlyVersion (v : View) (id : UUID) (row : ObjectRow) : Prop :=
  ∀ {k y}, v.objects k = some y → y.state = .complete → y.bucket = row.bucket →
    y.key = row.key → k = id

def View.Unused (v : View) (o : Owner) : Prop := ∀ {c row}, v.chunks c = some row → row.owner ≠ o

/-- How the row of an object moves, and what the reply says about its key. -/
inductive ObjectMove (db db' : Database) (op : Op) (r : Reply) (id : UUID) :
    Option ObjectRow → Option ObjectRow → Prop
  | same (o : Option ObjectRow) : ObjectMove db db' op r id o o
  | begun {row : ObjectRow} (state : row.state = .uploading) :
      ObjectMove db db' op r id none (some row)
  | touched {row : ObjectRow} (now : Time) (state : row.state = .uploading) :
      ObjectMove db db' op r id (some row) (some { row with updatedAt := now })
  | completed {row : ObjectRow} (now : Time) (sizeBytes chunkCount : Int) (etag : String)
      (call : op = .completeUpload id sizeBytes chunkCount etag) (state : row.state = .uploading)
      (durable : allCommitted (.object id) chunkCount db) (size : 0 ≤ sizeBytes)
      (count : 0 ≤ chunkCount) (only : db'.view.OnlyVersion id row)
      (published : publishes op r = some ((row.bucket, row.key),
        some (scanObject (row.finish now sizeBytes.toNat chunkCount.toNat etag)))) :
      ObjectMove db db' op r id (some row)
        (some (row.finish now sizeBytes.toNat chunkCount.toNat etag))
  | failed {row : ObjectRow} (now : Time) (text : String) (state : row.state = .uploading) :
      ObjectMove db db' op r id (some row) (some (row.fail now text))
  | retired {row : ObjectRow} {value : Option Object} (now : Time) (state : row.state = .complete)
      (replaced : publishes op r = some ((row.bucket, row.key), value)) :
      ObjectMove db db' op r id (some row) (some (row.retire now))
  | assembled {row : ObjectRow} (uploadID : UUID) (expected : List CompletedPartRef)
      (call : op = .completeMultipartUpload id uploadID expected) (state : row.state = .complete)
      (size : (row.sizeBytes : Int) = totalSize (completeParts uploadID db))
      (count : (row.chunkCount : Int) = totalChunks (completeParts uploadID db))
      (all : ((assembledChunks uploadID db).length : Int) = row.chunkCount)
      (only : db'.view.OnlyVersion id row)
      (published : publishes op r = some ((row.bucket, row.key), some (scanObject row)))
      (progress : db.view.progressing uploadID) : ObjectMove db db' op r id none (some row)
  | purged {row : ObjectRow} (state : row.state = .deleting ∨ row.state = .failed)
      (unused : db'.view.Unused (.object id)) (idle : op.acts = false) :
      ObjectMove db db' op r id (some row) none

variable {db db' : Database} {op : Op} {r : Reply}

variable {id : UUID} {bucket key : String}

/-- The rows of one table are looked up by their own id. -/
theorem object_id {row : ObjectRow} (found : db.view.objects id = some row) : row.id = id :=
  (Table.mem_of_find? found).2

theorem currentVersion_iff {o : ObjectRow} :
    currentVersion bucket key o ↔ o.bucket = bucket ∧ o.key = key ∧ o.state = .complete := by
  simp [currentVersion, and_assoc]

theorem supersededBy_iff {o : ObjectRow} :
    supersededBy bucket key id o ↔ currentVersion bucket key o ∧ o.id ≠ id := by
  simp [supersededBy, currentVersion]

/-- A promotion that supersedes leaves no other COMPLETE version of the key. -/
theorem onlyVersion_of_supersede {v w : View} {now : Time} {row : ObjectRow}
    (objects : ∀ k, k ≠ id → w.objects k = (v.objects k).map fun o =>
      if supersededBy row.bucket row.key id o then o.retire now else o)
    (named : ∀ k y, v.objects k = some y → y.id = k) : w.OnlyVersion id row := by
  intro k y found state bucket key
  by_contra other
  rw [objects k other] at found
  obtain ⟨old, before, rfl⟩ := Option.map_eq_some_iff.mp found
  cases chosen : supersededBy row.bucket row.key id old with
  | true => simp [chosen] at state
  | false =>
    simp only [chosen, Bool.false_eq_true, if_false] at state bucket key
    simp [supersededBy, state, bucket, key, named k old before, other] at chosen

/-- The version before the one that is published. -/
theorem ObjectMove.superseded {k : UUID} {o o' : Option ObjectRow} {value : Option Object}
    {now : Time}
    (after : o' = o.map fun row => if supersededBy bucket key k row then row.retire now else row)
    (published : publishes op r = some ((bucket, key), value)) :
    ObjectMove db db' op r id o o' := by
  refine move_of_map after ?_ .same
  intro old _ selected
  obtain ⟨rfl, rfl, state⟩ := currentVersion_iff.mp (supersededBy_iff.mp selected).1
  exact .retired now state published

/-- Every transaction moves every object row along its lifecycle. -/
theorem Change.object_move (change : Change db db' op r) (id : UUID) :
    ObjectMove db db' op r id (db.view.objects id) (db'.view.objects id) := by
  cases change with
  | begun k _ _ _ _ row _ state fresh view =>
    exact move_of_update (congrArg View.objects view) fresh (.begun state) .same
  | touched k now view | committed c _ _ _ _ _ now row session found _ _ _ view =>
    refine move_of_map (congrFun (congrArg View.objects view) id) ?_ .same
    intro row _ selected
    exact .touched now (of_decide_eq_true (Bool.and_elim_right selected))
  | completed k _ _ _ now row found state durable size count view =>
    have others : ∀ j, j ≠ k → db'.view.objects j = (db.view.objects j).map fun o =>
        if supersededBy row.bucket row.key k o then o.retire now else o := by
      intro j other
      rw [view]
      exact Function.update_of_ne other _ _
    by_cases same : id = k
    · subst same
      have rows := congrFun (congrArg View.objects view) id
      rw [rows, found]
      simpa [View.promote] using .completed now _ _ _ rfl state durable size count
        (onlyVersion_of_supersede others fun _ _ => object_id) rfl
    · exact .superseded (others id same) rfl
  | failed _ ids now text accepting view =>
    refine move_of_map (congrFun (congrArg View.objects view) id) ?_ .same
    intro row found selected
    refine .failed now text ?_
    have open_ := accepting _ (of_decide_eq_true selected)
    rw [object_id found, found] at open_
    simpa using open_
  | deleted _ _ now row found current view =>
    refine move_of_map (congrFun (congrArg View.objects view) id) ?_ .same
    intro old _ selected
    obtain ⟨bucket, key, state⟩ := currentVersion_iff.mp selected
    exact .retired now state (by rw [bucket, key]; rfl)
  | assembled k uploadID expected now session row size count etag middle open_ progress fresh new
      sized counted nonneg all promoted view =>
    have others : ∀ j, j ≠ k → db'.view.objects j = (db.view.objects j).map fun o =>
        if supersededBy row.bucket row.key k o then o.retire now else o := by
      intro j other
      have before : (db.view.assemble row ((assembledChunks uploadID db).map (·.id))).objects j =
          db.view.objects j := Function.update_of_ne (by rw [new]; exact other) _ _
      rw [← before, view, promoted, new]
      exact Function.update_of_ne other _ _
    by_cases same : id = k
    · subst same
      have rows : db'.view.objects id = some (row.finish now size.toNat count.toNat etag) := by
        rw [view, promoted]
        exact Function.update_self _ _ _
      rw [rows, fresh]
      have size_ := Int.toNat_of_nonneg nonneg.1
      have count_ := Int.toNat_of_nonneg nonneg.2
      exact .assembled uploadID expected rfl rfl (size_.trans sized) (count_.trans counted)
        (all.trans count_.symm) (onlyVersion_of_supersede others fun _ _ => object_id) rfl
        (by simp [View.progressing, open_, progress])
    · exact .superseded (others id same) rfl
  | purged quiet chunk object _ dead _ view =>
    refine move_of_filter (congrFun (congrArg View.objects view) id) ?_ .same
    intro row found gone
    refine .purged (dead id row found gone) ?_ quiet.2
    intro c x kept owner
    rw [congrArg View.chunks view] at kept
    have stays := (Option.filter_eq_some_iff.mp kept).2
    simp [owner, View.objectWith, found, gone] at stays
  | _ =>
    rename db'.view = _ => view
    have rows : db'.view.objects id = db.view.objects id := by
      first
      | exact congrFun (congrArg View.objects view) id
      | rw [view]; split <;> rfl
    rw [rows]
    exact .same _

/-- The ways in which the status of an owner may change from one state of the database to
the next. Death is final, and only the dead disappear. -/
def OwnerStatus.Moves : OwnerStatus → OwnerStatus → Prop
  | .absent, s => s ≠ .dead
  | .accepting, s => s ≠ .absent
  | .sealed, s => s = .sealed ∨ s = .dead
  | .dead, s => s = .dead ∨ s = .absent

theorem OwnerStatus.Moves.refl (s : OwnerStatus) : s.Moves s := by
  cases s <;> simp [Moves]

theorem OwnerStatus.moves_dead {s : OwnerStatus} (present : s ≠ .absent) : s.Moves .dead := by
  cases s <;> simp_all [Moves]

theorem ObjectMove.status {o o' : Option ObjectRow} (move : ObjectMove db db' op r id o o') :
    (o.elim .absent (·.state.status)).Moves (o'.elim .absent (·.state.status)) := by
  cases move with
  | same => exact OwnerStatus.Moves.refl _
  | begun state | assembled _ _ _ state => simp [state, ObjectState.status, OwnerStatus.Moves]
  | touched _ state | completed _ _ _ _ _ state | failed _ _ state | retired _ state _ =>
    simp [state, ObjectState.status, OwnerStatus.Moves]
  | purged state _ _ => rcases state with state | state <;>
      simp [state, ObjectState.status, OwnerStatus.Moves]

/-- How the row of a session moves. A session that is over stays over. -/
inductive SessionMove (w : View) (id : UUID) :
    Option MultipartUploadRow → Option MultipartUploadRow → Prop
  | same (u : Option MultipartUploadRow) : SessionMove w id u u
  | created {row : MultipartUploadRow} (state : row.state = .inProgress) :
      SessionMove w id none (some row)
  | touched {row row' : MultipartUploadRow} (state : row'.state = row.state) :
      SessionMove w id (some row) (some row')
  | closed {row row' : MultipartUploadRow} (stopped : row'.state ≠ .inProgress) :
      SessionMove w id (some row) (some row')
  | purged {row : MultipartUploadRow} (stopped : row.state ≠ .inProgress)
      (unused : ∀ {k part}, w.parts k = some part → part.uploadID ≠ id) :
      SessionMove w id (some row) none

/-- Every transaction moves every session row along its lifecycle. -/
theorem Change.session_move (change : Change db db' op r) (id : UUID) :
    SessionMove db'.view id (db.view.uploads id) (db'.view.uploads id) := by
  cases change with
  | committed _ _ _ _ _ _ _ _ _ _ _ _ _ view | partBegun _ _ _ _ _ _ _ _ view
  | purged _ _ _ _ _ _ view =>
    exact move_of_map (congrFun (congrArg View.uploads view) id) (fun _ _ _ => .touched rfl) .same
  | sessionCreated k _ _ _ _ row state fresh view =>
    exact move_of_update (congrArg View.uploads view) fresh (.created state) .same
  | assembled _ k _ _ session _ _ _ _ _ found _ _ _ _ _ _ _ _ view =>
    exact move_of_update (congrArg View.uploads view) found (.closed (by simp)) .same
  | sessionsAborted _ now selected view =>
    exact move_of_map (congrFun (congrArg View.uploads view) id)
      (fun _ _ _ => .closed (by simp)) .same
  | sessionsPurged _ upload closed _ view =>
    refine move_of_filter (congrFun (congrArg View.uploads view) id) ?_ .same
    intro row found gone
    refine .purged (closed id row found gone) ?_
    rintro k part kept rfl
    rw [congrArg View.parts view] at kept
    have stays := (Option.filter_eq_some_iff.mp kept).2
    simp [found, gone] at stays
  | _ =>
    rename db'.view = _ => view
    have rows : db'.view.uploads id = db.view.uploads id := by
      first
      | exact congrFun (congrArg View.uploads view) id
      | rw [view]; split <;> rfl
    rw [rows]
    exact .same _

/-- How the row of a part moves. A part begins in an open session and disappears with a
session that is over. -/
inductive PartMove (db db' : Database) (op : Op) (id : UUID) :
    Option PartRow → Option PartRow → Prop
  | same (p : Option PartRow) : PartMove db db' op id p p
  | begun {row : PartRow} (state : row.state = .uploading)
      (session : db'.view.progressing row.uploadID) : PartMove db db' op id none (some row)
  | completed {row : PartRow} (now : Time) (sizeBytes chunkCount : Int) (etag : String)
      (call : op = .completePart id sizeBytes chunkCount etag) (state : row.state = .uploading)
      (durable : allCommitted (.part id) chunkCount db) (size : 0 ≤ sizeBytes)
      (count : 0 ≤ chunkCount) :
      PartMove db db' op id (some row)
        (some (row.finish now sizeBytes.toNat chunkCount.toNat etag))
  | failed {row : PartRow} (now : Time) (state : row.state ≠ .failed) :
      PartMove db db' op id (some row) (some (row.fail now))
  | purged {row : PartRow} (stopped : db.view.progressing row.uploadID = false)
      (unused : db'.view.Unused (.part id)) : PartMove db db' op id (some row) none

theorem priorAttempt_ne_failed {uploadID : UUID} {partNumber : Int} {p : PartRow}
    (h : priorAttempt uploadID partNumber p) : p.state ≠ .failed := by
  simp only [priorAttempt, Bool.and_eq_true, decide_eq_true_eq] at h
  exact h.2

/-- Every transaction moves every part row along its lifecycle. -/
theorem Change.part_move (change : Change db db' op r) (id : UUID) :
    PartMove db db' op id (db.view.parts id) (db'.view.parts id) := by
  cases change with
  | partBegun k uploadID number now session found progress fresh view =>
    by_cases same : id = k
    · subst same
      have opened : db'.view.parts id = some (newPart now id uploadID number) := by
        rw [view]
        exact Function.update_self _ _ _
      rw [fresh, opened]
      refine .begun rfl ?_
      rw [view]
      simp only [View.progressing, View.mapUploads, View.restartPart, View.reclaim,
        View.condemnOwned, View.condemn, View.mapParts, newPart, found, Option.map_some,
        Option.any_some, decide_eq_true_eq]
      split <;> exact progress
    · have others : db'.view.parts id = (db.view.parts id).map fun p =>
          if priorAttempt uploadID number p then p.fail now else p := by
        rw [view]
        exact Function.update_of_ne same _ _
      exact move_of_map others (fun _ _ prior => .failed now (priorAttempt_ne_failed prior)) .same
  | partCompleted k size count etag now row found state durable positive nonneg view =>
    exact move_of_update (congrArg View.parts view) found
      (.completed now _ _ _ rfl state durable positive nonneg) .same
  | assembled _ _ _ _ _ _ _ _ _ _ _ _ _ _ _ _ _ _ promoted view =>
    have others : db'.view.parts id = db.view.parts id := by rw [view, promoted]; rfl
    rw [others]
    exact .same _
  | sessionsAborted _ now selected view =>
    have after := congrFun (congrArg View.parts view) id
    rw [View.abortSessions_parts] at after
    exact move_of_map after (fun _ _ closing => .failed now closing.2) .same
  | sessionsPurged _ upload closed unused view =>
    refine move_of_filter (congrFun (congrArg View.parts view) id) ?_ .same
    intro row found chosen
    obtain ⟨u, session, gone⟩ := (Option.any_eq_true _ _).mp chosen
    refine .purged ?_ ?_
    · simpa [View.progressing, session] using closed _ u session gone
    · intro c x kept owner
      rw [congrArg View.chunks view] at kept
      have idle := unused c x kept
      simp [owner, View.partWith, found, session, gone] at idle
  | _ =>
    rename db'.view = _ => view
    have others : db'.view.parts id = db.view.parts id := by
      first
      | exact congrFun (congrArg View.parts view) id
      | rw [view]; split <;> rfl
    rw [others]
    exact .same _

/-- A session that exists never opens again. -/
theorem SessionMove.progressing {w : View} {u u' : Option MultipartUploadRow}
    (move : SessionMove w id u u') (present : u.isSome) (after : u'.any (·.state = .inProgress)) :
    u.any (·.state = .inProgress) := by
  cases move with
  | same => exact after
  | created => simp at present
  | touched state => simpa [state] using after
  | closed stopped => simp [stopped] at after
  | purged => simp at after

theorem PartState.status_ne_absent (s : PartState) : s.status ≠ .absent := by
  cases s <;> simp [status]

theorem View.partStatus_ne_absent (v : View) (p : PartRow) : v.partStatus p ≠ .absent := by
  rw [partStatus]
  split
  · exact p.state.status_ne_absent
  · simp

theorem PartMove.status {p p' : Option PartRow} (move : PartMove db db' op id p p')
    (stopped : ∀ row, p = some row → db'.view.progressing row.uploadID →
      db.view.progressing row.uploadID) :
    (p.elim .absent db.view.partStatus).Moves (p'.elim .absent db'.view.partStatus) := by
  cases move with
  | same =>
    cases p with
    | none => exact OwnerStatus.Moves.refl _
    | some row =>
      by_cases after : db'.view.progressing row.uploadID = true
      · simpa [View.partStatus, after, stopped row rfl after] using OwnerStatus.Moves.refl _
      · simpa [View.partStatus, after] using
          OwnerStatus.moves_dead (db.view.partStatus_ne_absent row)
  | begun state session => simp [View.partStatus, session, state, PartState.status,
      OwnerStatus.Moves]
  | @completed row now size count etag _ state =>
    by_cases after : db'.view.progressing row.uploadID = true
    · simp [View.partStatus, after, stopped _ rfl after, state, PartState.status,
        OwnerStatus.Moves]
    · simpa [View.partStatus, after] using
        OwnerStatus.moves_dead (db.view.partStatus_ne_absent row)
  | @failed row now state =>
    simpa [View.partStatus, PartState.status] using
      OwnerStatus.moves_dead (db.view.partStatus_ne_absent row)
  | purged closed _ => simp [View.partStatus, closed, OwnerStatus.Moves]

/-- The foreign keys and unique indexes of the schema, as facts about lookups. -/
structure View.Consistent (v : View) : Prop where
  part_session : ∀ {id row}, v.parts id = some row → (v.uploads row.uploadID).isSome
  chunk_owner : ∀ {c row}, v.chunks c = some row → v.status row.owner ≠ .absent
  copy : ∀ {c n}, (v.slots c n).replica.isSome → v.referenced c n
  current : ∀ {a b x y}, v.objects a = some x → v.objects b = some y → x.state = .complete →
    y.state = .complete → x.bucket = y.bucket → x.key = y.key → a = b
  index : ∀ {a b x y}, v.chunks a = some x → v.chunks b = some y → x.owner = y.owner →
    x.index = y.index → a = b

/-- Every transaction moves every owner along its lifecycle. -/
theorem Change.status_moves (change : Change db db' op r) (consistent : db.view.Consistent)
    (o : Owner) : (db.view.status o).Moves (db'.view.status o) := by
  cases o with
  | object id => exact (change.object_move id).status
  | part id =>
    refine (change.part_move id).status fun row found after => ?_
    exact (change.session_move row.uploadID).progressing (consistent.part_session found) after

end FlexStore.Metadata
