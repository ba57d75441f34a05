import FlexStore.Metadata.Integrity

/-!
# The store as a map from keys to objects

What a client sees of the metadata is a map from bucket and key to an object. The
abstract model is that map and nothing else: a successful completion sets a key, a
successful deletion clears it, and every other reply leaves it alone. `headObject`
on the database answers what the map answers, after every sequence of calls.
-/

namespace FlexStore.Metadata

open Relational Transition View

/-- The abstract store. -/
abbrev Catalog := String × String → Option Object

namespace Catalog

def empty : Catalog := fun _ => none

def apply (m : Catalog) (event : Op × Reply) : Catalog :=
  match publishes event.1 event.2 with
  | some (key, value) => Function.update m key value
  | none => m

def ofTrace (events : List (Op × Reply)) : Catalog := events.foldl apply empty

/-- The answer of the abstract store to a lookup. -/
def head (m : Catalog) (bucket key : String) : Result Object := lookup (m (bucket, key)) .notFound

end Catalog

/-- The replies of the calls that succeed. -/
def trace : Database → List Call → List (Op × Reply)
  | _, [] => []
  | db, call :: rest =>
    match exec call db with
    | .ok (r, db') => (call.op, r) :: trace db' rest
    | .error _ => trace db rest

/-- The key has a COMPLETE version, and this is what the store says about it. -/
def View.Visible (v : View) (bucket key : String) (obj : Object) : Prop :=
  ∃ id row, v.objects id = some row ∧ currentVersion bucket key row ∧ scanObject row = obj

variable {db db' : Database} {op : Op} {r : Reply} {bucket key : String} {obj : Object}

variable {id : UUID} {row : ObjectRow} {now : Time}

/-- A row that becomes visible has just been published. -/
theorem ObjectMove.appears {o : Option ObjectRow} (move : ObjectMove db db' op r id o (some row))
    (current : currentVersion bucket key row) :
    o = some row ∨ publishes op r = some ((bucket, key), some (scanObject row)) := by
  obtain ⟨rfl, rfl, state⟩ := currentVersion_iff.mp current
  cases move with
  | same => exact Or.inl rfl
  | completed _ _ _ _ _ _ _ _ _ _ published | assembled _ _ _ _ _ _ _ _ published _ =>
    exact Or.inr published
  | begun open_ | touched _ open_ => simp [open_] at state
  | failed | retired => simp at state

/-- A row stays visible until the key is published again. -/
theorem ObjectMove.stays {o' : Option ObjectRow} (move : ObjectMove db db' op r id (some row) o')
    (current : currentVersion bucket key row) :
    o' = some row ∨ ∃ value, publishes op r = some ((bucket, key), value) := by
  obtain ⟨rfl, rfl, state⟩ := currentVersion_iff.mp current
  cases move with
  | same => exact Or.inl rfl
  | retired _ _ replaced => exact Or.inr ⟨_, replaced⟩
  | purged gone => rcases gone with gone | gone <;> simp [gone] at state
  | touched _ open_ | completed _ _ _ _ _ open_ | failed _ _ open_ => simp [open_] at state

/-- A change that does not publish the key leaves what is visible under it. -/
theorem Change.visible_of_quiet (change : Change db db' op r)
    (quiet : ∀ value, publishes op r ≠ some ((bucket, key), value)) :
    db'.view.Visible bucket key obj ↔ db.view.Visible bucket key obj := by
  constructor
  · rintro ⟨id, row, found, current, rfl⟩
    have move := change.object_move id
    rw [found] at move
    rcases move.appears current with before | published
    · exact ⟨id, row, before, current, rfl⟩
    · exact absurd published (quiet _)
  · rintro ⟨id, row, found, current, rfl⟩
    have move := change.object_move id
    rw [found] at move
    rcases move.stays current with after | ⟨value, published⟩
    · exact ⟨id, row, after, current, rfl⟩
    · exact absurd published (quiet _)

/-- The COMPLETE version of a key is what is visible under it. -/
theorem View.Consistent.visible {v : View} (consistent : v.Consistent)
    (found : v.objects id = some row) (current : currentVersion bucket key row) :
    v.Visible bucket key obj ↔ scanObject row = obj := by
  constructor
  · rintro ⟨k, other, lookup, alsoCurrent, rfl⟩
    obtain ⟨b, k', state⟩ := currentVersion_iff.mp current
    obtain ⟨b', k'', state'⟩ := currentVersion_iff.mp alsoCurrent
    obtain rfl := consistent.current found lookup state state' (b.trans b'.symm) (k'.trans k''.symm)
    rw [Option.some.inj (found.symm.trans lookup)]
  · rintro rfl
    exact ⟨id, row, found, current, rfl⟩

/-- A finished version is the visible one. -/
theorem View.Consistent.visible_finish {v : View} (consistent : v.Consistent) {size count : Nat}
    {etag : String} (found : v.objects id = some (row.finish now size count etag)) :
    v.Visible row.bucket row.key obj ↔
      some (scanObject (row.finish now size count etag)) = some obj := by
  rw [Option.some.injEq]
  exact consistent.visible found (currentVersion_iff.mpr ⟨rfl, rfl, rfl⟩)

/-- What a reply publishes is what is visible afterwards. -/
theorem Change.visible_of_published (change : Change db db' op r) {value : Option Object}
    (consistent : db.view.Consistent)
    (published : publishes op r = some ((bucket, key), value)) :
    db'.view.Visible bucket key obj ↔ value = some obj := by
  have after := change.consistent consistent
  cases change with
  | completed id size count etag now row found _ _ _ _ view =>
    obtain ⟨⟨rfl, rfl⟩, rfl⟩ := by simpa [publishes] using published
    exact after.visible_finish (by rw [view]; exact Function.update_self _ _ _)
  | assembled id _ _ now _ row size count etag _ _ _ _ _ _ _ _ _ promoted view =>
    obtain ⟨⟨rfl, rfl⟩, rfl⟩ := by simpa [publishes] using published
    exact after.visible_finish (by rw [view, promoted]; exact Function.update_self _ _ _)
  | deleted b k now row found current view =>
    obtain ⟨⟨rfl, rfl⟩, rfl⟩ := by simpa [publishes] using published
    constructor
    · rintro ⟨id, o, lookup, visible, -⟩
      have rows : db'.view.objects id = (db.view.objects id).map fun o =>
          if currentVersion b k o then o.retire now else o :=
        congrFun (congrArg View.objects view) id
      rw [rows] at lookup
      obtain ⟨old, -, rfl⟩ := Option.map_eq_some_iff.mp lookup
      cases chosen : currentVersion b k old with
      | true => simp [chosen, currentVersion_iff] at visible
      | false => simp [chosen] at visible
    · rintro ⟨⟩
  | bookkeeping quiet | failed quiet | sessionsAborted quiet | purged quiet | sessionsPurged quiet
  | trimmed quiet => simp [quiet.1] at published
  | registered _ _ _ call =>
    cases op <;> simp [Op.registers] at call <;> simp [publishes] at published
  | _ => simp [publishes] at published

/-- The database and the map agree on what is visible. -/
def Represents (db : Database) (m : Catalog) : Prop :=
  ∀ bucket key obj, db.view.Visible bucket key obj ↔ m (bucket, key) = some obj

theorem Change.represents (change : Change db db' op r) (consistent : db.view.Consistent)
    {m : Catalog} (agree : Represents db m) : Represents db' (m.apply (op, r)) := by
  intro bucket key obj
  cases published : publishes op r with
  | none =>
    rw [change.visible_of_quiet (by simp [published]), agree, Catalog.apply]
    simp [published]
  | some event =>
    rcases event with ⟨⟨b, k⟩, value⟩
    by_cases mine : (bucket, key) = (b, k)
    · obtain ⟨rfl, rfl⟩ := Prod.mk.inj mine
      rw [change.visible_of_published consistent published, Catalog.apply]
      simp [published]
    · rw [change.visible_of_quiet, agree, Catalog.apply]
      · simp [published, mine]
      · intro value' same
        rw [published] at same
        exact mine (by cases same; rfl)

/-- The database after a run represents the map that the replies describe. -/
theorem represents_run {m : Catalog} (consistent : db.view.Consistent)
    (agree : Represents db m) (calls : List Call) :
    Represents (run step db calls) ((trace db calls).foldl Catalog.apply m) := by
  induction calls generalizing db m with
  | nil => exact agree
  | cons call rest ih =>
    have next : (step db call).view.Consistent := consistent_step consistent
    rw [run_cons, trace]
    cases outcome : exec call db with
    | error e =>
      have same : step db call = db := by rw [step, outcome]
      rw [same]
      exact ih consistent agree
    | ok answer =>
      rcases answer with ⟨r, db'⟩
      rw [step_of_ok outcome] at next ⊢
      exact ih next ((exec_change outcome).represents consistent agree)

/-- A lookup finds the visible object, if there is one. -/
theorem headObject_eq {m : Catalog} (agree : Represents db m) (bucket key : String) :
    headObject bucket key db = m.head bucket key := by
  rw [headObject, Catalog.head]
  cases first : (db.objects.select (currentVersion bucket key)).head? with
  | none =>
    have nothing : m (bucket, key) = none := by
      cases value : m (bucket, key) with
      | none => rfl
      | some obj =>
        obtain ⟨id, row, found, current, -⟩ := (agree bucket key obj).mpr value
        have member : row ∈ db.objects.select (currentVersion bucket key) :=
          List.mem_filter.mpr ⟨(Table.mem_of_find? found).1, current⟩
        rw [List.head?_eq_none_iff.mp first] at member
        cases member
    rw [nothing]
    rfl
  | some row =>
    obtain ⟨member, current⟩ := List.mem_filter.mp (List.mem_of_head? first)
    have visible : m (bucket, key) = some (scanObject row) :=
      (agree bucket key _).mp ⟨row.id, row, Table.find?_of_mem member, current, rfl⟩
    rw [visible]
    rfl

theorem represents_empty : Represents Database.empty Catalog.empty := by
  intro bucket key obj
  constructor
  · rintro ⟨id, row, found, -⟩
    simp [Database.view, Database.empty] at found
  · rintro ⟨⟩

section Index

/-- Superseding leaves no COMPLETE version of the key but the given one. -/
theorem supersede_clears :
    ¬(supersedeCurrentVersion now bucket key id db).objects.rows.any
      (supersededBy bucket key id) := by
  intro some_
  obtain ⟨row, member, superseded⟩ := List.any_eq_true.mp some_
  have found : (supersedeCurrentVersion now bucket key id db).view.objects row.id = some row :=
    Table.find?_of_mem member
  rw [view_supersedeCurrentVersion] at found
  obtain ⟨old, -, same⟩ := Option.map_eq_some_iff.mp found
  cases chosen : supersededBy bucket key id old with
  | true =>
    simp only [chosen, if_true] at same
    subst same
    simp [supersededBy] at superseded
  | false =>
    simp only [chosen, Bool.false_eq_true, if_false] at same
    subst same
    simp [chosen] at superseded

/-- The unique index on the COMPLETE version of a key does not refuse the promotion of a
row of that key. -/
theorem promoteObject_accepted {sizeBytes chunkCount : Int} {etag : String}
    (refused : promoteObject now id sizeBytes chunkCount etag
      (supersedeCurrentVersion now bucket key id db) = .error (.constraint .objectsCurrentVersion))
    (found : db.view.objects id = some row) (atBucket : row.bucket = bucket) (atKey : row.key = key)
    : False := by
  simp only [promoteObject, bind_eq_error, lookup_eq_error, require_eq_error, lookup_eq_ok,
    pure_ne_error, and_false, or_false, exists_false, StoreError.constraint.injEq,
    reduceCtorEq, false_or] at refused
  obtain ⟨promoted, lookup, -, -, taken, -⟩ := refused
  change (supersedeCurrentVersion now bucket key id db).view.objects id = some promoted at lookup
  rw [view_supersedeCurrentVersion, supersede_self found, Option.some.injEq] at lookup
  subst lookup atBucket atKey
  exact taken supersede_clears

/-- A version of the key that is not COMPLETE yet is promoted once the others are superseded. -/
theorem promoteObject_superseded (now : Time) (etag : String) {objectID : UUID} {size count : Int}
    (found : db.view.objects objectID = some row) (atBucket : row.bucket = bucket)
    (atKey : row.key = key) (sized : 0 ≤ size) (counted : 0 ≤ count) :
    ∃ obj db', promoteObject now objectID size count etag
      (supersedeCurrentVersion now bucket key objectID db) = .ok (obj, db') := by
  have kept : (supersedeCurrentVersion now bucket key objectID db).objects.find? objectID =
      some row := by
    change (supersedeCurrentVersion now bucket key objectID db).view.objects objectID = some row
    rw [view_supersedeCurrentVersion, supersede_self found]
  subst atBucket atKey
  simp only [promoteObject, bind_eq_ok, lookup_eq_ok, require_eq_ok, pure_eq_ok, Prod.mk.injEq,
    exists_const]
  exact ⟨_, _, row, kept, ⟨sized, counted⟩, supersede_clears, rfl, rfl⟩

theorem completeUpload_accepted {sizeBytes chunkCount : Int} {etag : String} :
    completeUpload now id sizeBytes chunkCount etag db ≠
      .error (.constraint .objectsCurrentVersion) := by
  intro refused
  simp only [completeUpload, bind_eq_error, lookup_eq_error, require_eq_error, lookup_eq_ok,
    require_eq_ok, reduceCtorEq, and_false, false_or] at refused
  obtain ⟨row, found, -, -, -, -, refused⟩ := refused
  exact promoteObject_accepted refused found rfl rfl

theorem acceptParts_error {uploadID : UUID} {expected : List CompletedPartRef} {e : StoreError}
    (refused : acceptParts uploadID expected db = .error e) : e = .conflict := by
  simp only [acceptParts, bind_eq_error, require_eq_error, pure_ne_error, and_false, or_false,
    exists_false] at refused
  rcases refused with ⟨-, rfl⟩ | ⟨-, -, ⟨-, rfl⟩ | ⟨-, -, -, rfl⟩⟩ <;> rfl

theorem completeMultipartUpload_accepted {objectID uploadID : UUID}
    {expected : List CompletedPartRef} : completeMultipartUpload now objectID uploadID expected db ≠
      .error (.constraint .objectsCurrentVersion) := by
  intro refused
  simp only [completeMultipartUpload, bind_eq_error, lookup_eq_error, require_eq_error,
    lookup_eq_ok, require_eq_ok, reduceCtorEq, and_false, false_or, or_false, pure_ne_error,
    exists_false, StoreError.constraint.injEq] at refused
  obtain ⟨session, -, -, -, parts | ⟨parts, -, objects, inserted, -, -, -, -, promotion⟩⟩ := refused
  · cases acceptParts_error parts
  · obtain ⟨fresh, rfl⟩ := Table.insert?_eq_some.mp inserted
    have new := (congrFun (Table.find?_append_eq _ _ fresh) objectID).trans
      (Function.update_self _ _ _)
    exact promoteObject_accepted promotion new rfl rfl

end Index

/-- The calls that may change what a key shows. -/
def Op.mayPublish : Op → Bool
  | .completeUpload .. => true
  | .completeMultipartUpload .. => true
  | .deleteObject .. => true
  | _ => false

theorem publishes_eq_none (private_ : op.mayPublish = false) : publishes op r = none := by
  cases op <;> simp_all [Op.mayPublish, publishes]

/-- A call that neither completes nor deletes leaves the map as it was. -/
theorem represents_step_private {m : Catalog} {call : Call} (consistent : db.view.Consistent)
    (agree : Represents db m) (private_ : call.op.mayPublish = false) :
    Represents (step db call) m := by
  refine step_cases (R := fun db' => Represents db' m) agree fun r db' h => ?_
  have next := (exec_change h).represents consistent agree
  rwa [Catalog.apply, publishes_eq_none private_] at next

/-- So does a run of such calls: every key still shows the same object. -/
theorem headObject_run_private {m : Catalog} {calls : List Call} (consistent : db.view.Consistent)
    (agree : Represents db m) (private_ : ∀ call ∈ calls, call.op.mayPublish = false)
    (bucket key : String) :
    headObject bucket key (run step db calls) = headObject bucket key db := by
  have after : (run step db calls).view.Consistent ∧ Represents (run step db calls) m :=
    run_invariant (P := fun db => db.view.Consistent ∧ Represents db m)
      (fun _ _ h allowed => ⟨consistent_step h.1, represents_step_private h.1 h.2 allowed⟩)
      ⟨consistent, agree⟩ (guarded_of_forall private_ db)
  rw [headObject_eq after.2, headObject_eq agree]

/-- The transitions of an object between two states of the database. -/
def ObjectState.mayBecome : ObjectState → ObjectState → Bool
  | .uploading, s => s = .uploading || s = .complete || s = .failed
  | .complete, s => s = .complete || s = .deleting
  | .deleting, s => s = .deleting
  | .failed, s => s = .failed

theorem ObjectMove.mayBecome {x y : ObjectRow} (move : ObjectMove db db' op r id (some x) (some y))
    : x.state.mayBecome y.state := by
  cases move with
  | same => cases x.state <;> rfl
  | touched _ state | completed _ _ _ _ _ state | failed _ _ state | retired _ state =>
    simp [state, ObjectState.mayBecome]

/-- The store refines a map from keys to objects: after any calls a lookup answers what
the map answers, at most one row of a key is COMPLETE, the unique index refuses no
completion, objects move forward only, and calls other than completions and deletions
leave the map alone. -/
theorem headObject_refines_catalog (calls : List Call) :
    (∀ bucket key, headObject bucket key (run step Database.empty calls) =
      (Catalog.ofTrace (trace Database.empty calls)).head bucket key) ∧
    (∀ x ∈ (run step Database.empty calls).objects.rows,
      ∀ y ∈ (run step Database.empty calls).objects.rows, x.state = .complete →
        y.state = .complete → x.bucket = y.bucket → x.key = y.key → x = y) ∧
    (∀ call : Call, call.op.mayPublish → exec call (run step Database.empty calls) ≠
      .error (.constraint .objectsCurrentVersion)) ∧
    (∀ call, ∀ x ∈ (run step Database.empty calls).objects.rows,
      ∀ y ∈ (step (run step Database.empty calls) call).objects.rows, x.id = y.id →
        x.state.mayBecome y.state) ∧
    (∀ call : Call, call.op.mayPublish = false → ∀ bucket key,
      headObject bucket key (step (run step Database.empty calls) call) =
        headObject bucket key (run step Database.empty calls)) := by
  have agree := represents_run consistent_empty represents_empty calls
  have consistent := consistent_run consistent_empty calls
  generalize run step Database.empty calls = db at agree consistent
  refine ⟨headObject_eq agree, ?_, ?_, ?_, ?_⟩
  · intro x hx y hy stateX stateY bucket key
    have foundX := Table.find?_of_mem hx
    have foundY := Table.find?_of_mem hy
    have same := consistent.current foundX foundY stateX stateY bucket key
    rw [same, foundY] at foundX
    exact (Option.some.inj foundX).symm
  · rintro ⟨now, op⟩ completes
    cases op with
    | completeUpload id size count etag =>
      intro refused
      exact completeUpload_accepted (answer_eq_error.mp refused)
    | completeMultipartUpload objectID uploadID expected =>
      intro refused
      exact completeMultipartUpload_accepted (answer_eq_error.mp refused)
    | deleteObject bucket key =>
      intro refused
      cases answer_eq_error.mp refused
    | _ => simp [Op.mayPublish] at completes
  · intro call x hx y hy same
    have before : db.view.objects x.id = some x := Table.find?_of_mem hx
    have after : (step db call).view.objects x.id = some y := by
      rw [same]
      exact Table.find?_of_mem hy
    revert after
    refine step_cases (R := fun db' => db'.view.objects x.id = some y →
      x.state.mayBecome y.state) ?_ ?_
    · intro unchanged
      rw [Option.some.inj (before.symm.trans unchanged)]
      cases y.state <;> rfl
    · intro r db' h after
      have move := (exec_change h).object_move x.id
      rw [before, after] at move
      exact move.mayBecome
  · intro call private_ bucket key
    rw [headObject_eq agree, headObject_eq (represents_step_private consistent agree private_)]

end FlexStore.Metadata
