import FlexStore.Metadata.Publication
import FlexStore.Metadata.Reclamation
import FlexStore.Metadata.Sealed
import FlexStore.Metadata.Statements

/-!
# Concurrent overwrites of a key

Any number of `CompleteUpload` transactions for different versions of one key, interleaved
statement by statement. The statement that supersedes the current version does not see a
version that is promoted while it runs or later, and then the promotion fails on the unique
index: of two completions that overwrite at the same time one is refused.

If a completion supersedes only while no other is overwriting, the run is a serial one: what
is committed is at every moment what the store operation leaves when the completions that
have ended are carried out one after the other.
-/

namespace FlexStore.Metadata.Concurrent

open Relational Transition

variable {ι : Type} {db d d' : Database} {bucket key : String} {r : Completion}

/-- The version is UPLOADING, and the chunks that the call declares are all COMMITTED. -/
structure Uploaded (db : Database) (bucket key : String) (r : Completion) : Prop where
  row : ∃ o, db.view.objects r.objectID = some o ∧ o.state = .uploading ∧ o.bucket = bucket ∧
    o.key = key
  chunks : Metadata.allCommitted (.object r.objectID) r.chunkCount db
  size : 0 ≤ r.sizeBytes

def Completion.apply (r : Completion) (db : Database) : Result (Object × Database) :=
  Metadata.completeUpload r.now r.objectID r.sizeBytes r.chunkCount r.etag db

section Serial

theorem Uploaded.accepted (uploaded : Uploaded db bucket key r) :
    ∃ obj d, r.apply db = .ok (obj, d) := by
  obtain ⟨o, found, uploading, -, -⟩ := uploaded.row
  have counted : 0 ≤ r.chunkCount := by
    rw [← uploaded.chunks.1]
    exact Int.natCast_nonneg _
  obtain ⟨obj, d, h⟩ := promoteObject_superseded r.now r.etag found rfl rfl uploaded.size counted
  simp only [Completion.apply, Metadata.completeUpload, bind_eq_ok, lookup_eq_ok, require_eq_ok]
  exact ⟨obj, d, o, found, (), uploading, (), uploaded.chunks, h⟩

variable {obj : Object}

/-- What a completion leaves of the lookups. -/
structure Applied (d d' : Database) (bucket key : String) (r : Completion) : Prop where
  old : (d.view.objects r.objectID).any (·.state = .uploading)
  new : (d'.view.objects r.objectID).any (currentVersion bucket key)
  others : ∀ id, id ≠ r.objectID → d'.view.objects id = (d.view.objects id).map fun o =>
    if currentVersion bucket key o then o.retire r.now else o
  chunks : d'.view.chunks = d.view.chunks
  slots : ∀ c n, d'.view.slots c n =
    if d.view.ownedBy (d.view.objectWith (supersededBy bucket key r.objectID)) c then
      (d.view.slots c n).condemn
    else d.view.slots c n

theorem Uploaded.applied (uploaded : Uploaded d bucket key r) (h : r.apply d = .ok (obj, d')) :
    Applied d d' bucket key r := by
  obtain ⟨o, found, uploading, rfl, rfl⟩ := uploaded.row
  obtain ⟨row, found', -, -, -, -, -, view⟩ := completeUpload_ok h
  obtain rfl : o = row := Option.some.inj (found.symm.trans found')
  constructor
  · simp [found, uploading]
  · rw [view]
    simp [View.promote, currentVersion]
  · intro id other
    rw [view]
    simp only [View.promote, Function.update_of_ne other]
    refine Option.map_congr fun x member => ?_
    have named : x.id = id := (Table.mem_of_find? member).2
    simp [supersededBy, currentVersion, named, other]
  · rw [view]
    rfl
  · intro c n
    rw [view]
    rfl

/-- A version that has been superseded: it is DELETING, and its copies are queued. -/
def Superseded (d : Database) (id : UUID) : Prop :=
  (d.view.objects id).any (·.state = .deleting) ∧
    ∀ c n s, d.view.ownedBy (· = .object id) c → d.replicaState c n = some s →
      s = .deleting ∧ d.queued c n

section Applied

variable (applied : Applied d d' bucket key r)

include applied

theorem Applied.deletingQueued (queued : DeletingQueued d) : DeletingQueued d' := by
  intro c n deleting
  have slot := applied.slots c n
  have held : (d'.view.slots c n).replica = some .deleting := deleting
  change (d'.view.slots c n).queued = true
  rw [slot] at held ⊢
  split at held
  · next condemned =>
      rw [if_pos condemned]
      exact (Slot.condemn_garbage (queued c n) held).2
  · next spared =>
      rw [if_neg spared]
      exact queued c n held

theorem Applied.only (id : UUID) (o : ObjectRow) (found : d'.view.objects id = some o)
    (current : currentVersion bucket key o) : id = r.objectID := by
  by_contra other
  rw [applied.others id other] at found
  obtain ⟨old, -, rfl⟩ := Option.map_eq_some_iff.mp found
  split at current
  · simp [currentVersion] at current
  · contradiction

theorem Applied.superseded (queued : DeletingQueued d) {id : UUID} {o : ObjectRow}
    (found : d.view.objects id = some o) (current : currentVersion bucket key o) :
    Superseded d' id := by
  have other : id ≠ r.objectID := by
    rintro rfl
    have uploading := applied.old
    simp only [found, Option.any_some, decide_eq_true_eq] at uploading
    simp [currentVersion, uploading] at current
  have named : o.id = id := (Table.mem_of_find? found).2
  refine ⟨by simp [applied.others id other, found, current], fun c n s mine held => ?_⟩
  have condemned : d.view.ownedBy (d.view.objectWith (supersededBy bucket key r.objectID)) c := by
    simp only [View.ownedBy, applied.chunks] at mine ⊢
    obtain ⟨row, chunk, owner⟩ := (Option.any_eq_true _ _).mp mine
    simp only [currentVersion, Bool.and_eq_true, decide_eq_true_eq] at current
    simp [chunk, of_decide_eq_true owner, View.objectWith, found, supersededBy, current, named,
      other]
  have slot := applied.slots c n
  rw [if_pos condemned] at slot
  have after : (d'.view.slots c n).replica = some s := held
  change s = .deleting ∧ (d'.view.slots c n).queued = true
  rw [slot] at after ⊢
  exact Slot.condemn_garbage (queued c n) after

theorem Applied.superseded_kept {id : UUID} (superseded : Superseded d id) :
    Superseded d' id := by
  obtain ⟨o, found, deleting⟩ := (Option.any_eq_true _ _).mp superseded.1
  have other : id ≠ r.objectID := by
    rintro rfl
    have uploading := applied.old
    simp only [found, Option.any_some, decide_eq_true_eq] at uploading deleting
    simp [uploading] at deleting
  refine ⟨?_, fun c n s mine held => ?_⟩
  · rw [applied.others id other, found]
    have stays : currentVersion bucket key o = false := by
      simp [currentVersion, of_decide_eq_true deleting]
    simpa [stays] using deleting
  · rw [View.ownedBy, applied.chunks] at mine
    have garbage := superseded.2 c n
    have slot := applied.slots c n
    have after : (d'.view.slots c n).replica = some s := held
    change s = .deleting ∧ (d'.view.slots c n).queued = true
    rw [slot] at after ⊢
    split at after
    · next condemned =>
        rw [if_pos condemned]
        exact Slot.condemn_garbage (fun before => (garbage _ mine before).2) after
    · next spared =>
        rw [if_neg spared]
        exact garbage s mine after

end Applied

/-- The completions that have been carried out, the last one first, and what they leave. -/
inductive Completed (requests : ι → Completion) (db : Database) : List ι → Database → Prop where
  | nil : Completed requests db [] db
  | cons {order : List ι} {t : ι} {d d' : Database} {obj : Object}
      (before : Completed requests db order d) (new : t ∉ order)
      (h : (requests t).apply d = .ok (obj, d')) :
      Completed requests db (t :: order) d'

/-- An upload that waits for its turn is not touched by another completion. -/
theorem Applied.uploaded (applied : Applied d d' bucket key r) {r' : Completion}
    (other : r'.objectID ≠ r.objectID) (uploaded : Uploaded d bucket key r') :
    Uploaded d' bucket key r' ∧ d'.view.objects r'.objectID = d.view.objects r'.objectID := by
  obtain ⟨o, found, uploading, atBucket, atKey⟩ := uploaded.row
  have same : d'.view.objects r'.objectID = d.view.objects r'.objectID := by
    rw [applied.others _ other, found]
    simp [currentVersion, uploading]
  refine ⟨⟨⟨o, same.trans found, uploading, atBucket, atKey⟩, ?_, uploaded.size⟩, same⟩
  have perm : (chunksOf (.object r'.objectID) d').Perm (chunksOf (.object r'.objectID) d) := by
    refine (List.perm_ext_iff_of_nodup nodup_chunksOf nodup_chunksOf).mpr fun c => ?_
    rw [mem_chunksOf, mem_chunksOf, applied.chunks]
  simpa only [Metadata.allCommitted, perm.length_eq, (perm.filter _).length_eq] using
    uploaded.chunks

section Completed

variable {requests : ι → Completion} (different : Function.Injective fun t => (requests t).objectID)
  (uploads : ∀ t, Uploaded db bucket key (requests t))

include different uploads

/-- The uploads that have not been completed yet still can be. -/
theorem Completed.uploaded {order : List ι} (completed : Completed requests db order d) {t : ι}
    (waits : t ∉ order) : Uploaded d bucket key (requests t) := by
  induction completed generalizing t with
  | nil => exact uploads t
  | cons before new h ih =>
    obtain ⟨apart, later⟩ := not_or.mp (mt List.mem_cons.mpr waits)
    refine (((ih new).applied h).uploaded (fun same => apart ?_) (ih later)).1
    exact different same

theorem Completed.deletingQueued {order : List ι} (completed : Completed requests db order d)
    (queued : DeletingQueued db) : DeletingQueued d := by
  induction completed with
  | nil => exact queued
  | cons before new h ih =>
    exact ((before.uploaded different uploads new).applied h).deletingQueued ih

/-- After a completion its version is the only COMPLETE one, and those that were before it
have been superseded. -/
theorem Completed.settled {order : List ι} {t : ι}
    (completed : Completed requests db (t :: order) d) (queued : DeletingQueued db) :
    (∀ id o, d.view.objects id = some o → currentVersion bucket key o →
        id = (requests t).objectID) ∧
      (d.view.objects (requests t).objectID).any (currentVersion bucket key) ∧
      (∀ id o, db.view.objects id = some o → currentVersion bucket key o → Superseded d id) ∧
      ∀ u ∈ order, Superseded d (requests u).objectID := by
  induction order generalizing t d with
  | nil =>
    obtain _ | ⟨before, new, h⟩ := completed
    cases before
    have applied := (uploads t).applied h
    exact ⟨applied.only, applied.new,
      fun id o row current => applied.superseded queued row current,
      fun u member => absurd member List.not_mem_nil⟩
  | cons u rest ih =>
    obtain _ | ⟨before, new, h⟩ := completed
    have applied := (before.uploaded different uploads new).applied h
    have queued' := before.deletingQueued different uploads queued
    obtain ⟨-, last, first, earlier⟩ := ih before
    obtain ⟨o, found, current⟩ := (Option.any_eq_true _ _).mp last
    refine ⟨applied.only, applied.new, fun id o row was => ?_, fun w member => ?_⟩
    · exact applied.superseded_kept (first id o row was)
    · rcases List.mem_cons.mp member with rfl | member
      · exact applied.superseded queued' found current
      · exact applied.superseded_kept (earlier w member)

end Completed

end Serial

section Interleaved

abbrev Race (ι : Type) := System ι RowKey.Version Statement StoreError Object

def race (db : Database) (requests : ι → Completion) : Race ι :=
  .start (fun t => completeUpload (.of db) (requests t)) (rowsOf db.view)

/-- The statements up to the one that supersedes the current version. -/
def Statement.preliminary : Statement → Bool
  | .lockObject | .countChunks | .supersede => true
  | _ => false

/-- The transaction has begun to overwrite and has not ended. -/
def overwriting : Activity RowKey.Version Statement StoreError Object → Bool
  | .ended _ => false
  | .writing .. => true
  | .ready rest => !rest.name?.any Statement.preliminary

/-- The transaction is about to supersede the current version. -/
def supersedes : Activity RowKey.Version Statement StoreError Object → Bool
  | .ready rest => rest.name? = some .supersede
  | _ => false

/-- A transaction supersedes only while no other is overwriting. -/
def Orderly (s : Race ι) (t : ι) : Prop :=
  supersedes (s.activity t) → ∀ u, u ≠ t → overwriting (s.activity u) = false

instance [DecidableEq ι] [Fintype ι] (s : Race ι) (t : ι) : Decidable (Orderly s t) :=
  inferInstanceAs (Decidable (_ → _))

variable {cat : Catalog} {own : (k : RowKey) → Option k.Version} {locks : RowKey → Bool}
  {act act' : Activity RowKey.Version Statement StoreError Object}

/-- A transaction that has not begun to overwrite. -/
structure Waiting (cat : Catalog) (d : Database) (r : Completion)
    (own : (k : RowKey) → Option k.Version) (locks : RowKey → Bool)
    (act : Activity RowKey.Version Statement StoreError Object) : Prop where
  own : ∀ k, own k = none
  locks : ∀ k, locks k → k = .object r.objectID
  stage : act = .ready (completeUpload cat r) ∨ ∃ o, d.view.objects r.objectID = some o ∧
    (act = .ready (validate cat r o) ∨ act = .ready (overwrite cat r o))

/-- A transaction that is overwriting and will leave what the store operation leaves. -/
structure Overwriting (cat : Catalog) (d : Database) (r : Completion) (busy : RowKey → Prop)
    (rows : Rows) (act : Activity RowKey.Version Statement StoreError Object) : Prop where
  running : ∀ result, act ≠ .ended result
  uses : act.Uses (·.preliminary = false)
  avoids : act.Avoids (indexes cat) busy rows
  outcome : ∃ obj d', r.apply d = .ok (obj, d') ∧
    act.outcome (indexes cat) rows = .ok (obj, rowsOf d'.view)

theorem Waiting.not_overwriting (waiting : Waiting cat d r own locks act) :
    overwriting act = false := by
  obtain rfl | ⟨o, -, rfl | rfl⟩ := waiting.stage <;> rfl

theorem Overwriting.overwriting {busy : RowKey → Prop} {rows : Rows}
    (over_ : Overwriting cat d r busy rows act) : overwriting act = true := by
  cases act with
  | ended result => exact absurd rfl (over_.running result)
  | writing => rfl
  | ready rest =>
    have uses := over_.uses
    cases rest with
    | done | fail => rfl
    | select name | lock name | update name =>
      have later : name.preliminary = false := uses.1
      simp [Concurrent.overwriting, Txn.name?, later]

/-- What follows the statement that supersedes is not preliminary. -/
theorem uses_after_supersede (ids : List UUID) (r : Completion) :
    (forM ids (enqueueObjectChunkDeletions cat) >>= fun _ =>
      promoteObject r.now r.objectID r.sizeBytes r.chunkCount r.etag).Uses
        (·.preliminary = false) := by
  refine Txn.uses_bind (Txn.uses_forM (fun id => ?_) ids) fun _ => ⟨rfl, fun touched => ?_⟩
  · exact ⟨rfl, fun _ => ⟨rfl, fun _ => trivial⟩⟩
  · dsimp only
    split <;> trivial

variable {s s' : ReadCommitted ι RowKey.Version} {t u : ι}

theorem Waiting.read_eq (waiting : Waiting cat d r (s.own t) (s.locks t) act)
    (committed : s.committed = rowsOf d.view) : s.read t = rowsOf d.view := by
  funext k
  rw [ReadCommitted.read_of_own_none (waiting.own k), committed]

/-- A transaction that has not begun to overwrite will not need the versions that wait. -/
theorem Waiting.avoids (waiting : Waiting cat d r (s.own t) (s.locks t) act)
    (committed : s.committed = rowsOf d.view) (covers : Covers cat d.view)
    (uploaded : Uploaded d bucket key r) {busy : RowKey → Prop}
    (objects : ∀ k, busy k → ∃ id, k = .object id ∧ id ≠ r.objectID ∧
      (d.view.objects id).any (·.state = .uploading)) :
    act.Avoids (indexes cat) busy (s.read t) := by
  obtain ⟨o, found, uploading, -, -⟩ := uploaded.row
  have mine : ¬busy (.object r.objectID) := by
    intro taken
    obtain ⟨id, named, other, -⟩ := objects _ taken
    exact other (RowKey.object.inj named).symm
  have overwrites : (overwrite cat r o).Avoids (indexes cat) busy (rowsOf d.view) := by
    refine avoids_overwrite (fun k taken => ?_) mine fun id taken current => ?_
    · obtain ⟨id, named, -⟩ := objects k taken
      exact ⟨id, named⟩
    · obtain ⟨id', named, -, open_⟩ := objects _ taken
      obtain rfl := RowKey.object.inj named
      obtain ⟨x, lookup, state⟩ := (Option.any_eq_true _ _).mp open_
      simp only [rowsOf, lookup, Option.any_some, supersededBy] at current
      simp [of_decide_eq_true state] at current
  have validates : (validate cat r o).Avoids (indexes cat) busy (rowsOf d.view) := by
    have all : allCommitted cat (.object r.objectID) r.chunkCount (rowsOf d.view) :=
      (allCommitted_iff covers).mpr uploaded.chunks
    simpa only [validate, Txn.Avoids, all, if_true] using overwrites
  have stage := waiting.stage
  simp only [found, Option.some.injEq, exists_eq_left'] at stage
  rw [waiting.read_eq committed]
  obtain rfl | rfl | rfl := stage
  · have present : rowsOf d.view (.object r.objectID) = some o := found
    refine ⟨mine, ?_⟩
    simpa only [present, uploading, if_true] using validates
  · exact validates
  · exact overwrites

variable [DecidableEq ι] [Fintype ι]

/-- The turns of a transaction that has not begun to overwrite: it reads what the store
operation would read, and when it begins, its outcome is that of the store operation. -/
theorem Waiting.turn (waiting : Waiting cat d r (s.own t) (s.locks t) act)
    (committed : s.committed = rowsOf d.view) (covers : Covers cat d.view)
    (uploaded : Uploaded d bucket key r) {busy : RowKey → Prop}
    (objects : ∀ k, busy k → ∃ id, k = .object id ∧ id ≠ r.objectID ∧
      (d.view.objects id).any (·.state = .uploading))
    (turn : Turn (indexes cat) s t act s' act') :
    s'.committed = rowsOf d.view ∧ (Waiting cat d r (s'.own t) (s'.locks t) act' ∨
      supersedes act ∧ Overwriting cat d r busy (s'.read t) act') := by
  have read := waiting.read_eq committed
  obtain ⟨o, found, uploading, -, -⟩ := uploaded.row
  have stage := waiting.stage
  simp only [found, Option.some.injEq, exists_eq_left'] at stage
  obtain rfl | rfl | rfl := stage
  · rw [completeUpload] at turn
    cases turn with
    | lock free =>
      have present : s.read t (.object r.objectID) = some o := by
        rw [read]
        exact found
      rw [present]
      refine ⟨committed, Or.inl ⟨waiting.own, fun l held => ?_, ?_⟩⟩
      · rw [ReadCommitted.locks_lock] at held
        simp only [Bool.or_eq_true, decide_eq_true_eq, true_and] at held
        exact held.elim (waiting.locks l) id
      · exact Or.inr ⟨o, found, Or.inl (by simp only [uploading, if_true])⟩
  · rw [validate] at turn
    cases turn with
    | select =>
      have all : allCommitted cat (.object r.objectID) r.chunkCount (s.read t) := by
        rw [read]
        exact (allCommitted_iff covers).mpr uploaded.chunks
      exact ⟨committed, Or.inl ⟨waiting.own, waiting.locks,
        Or.inr ⟨o, found, Or.inr (by simp only [all, if_true])⟩⟩⟩
  · obtain ⟨obj, d', applied⟩ := uploaded.accepted
    have outcome : (Activity.ready (overwrite cat r o)).outcome (indexes cat) (s.read t) =
        .ok (obj, rowsOf d'.view) := by
      rw [read]
      refine (serial_overwrite covers r o).trans ?_
      rw [← completeUpload_of_valid found uploading uploaded.chunks]
      exact congrArg (Except.map _) applied
    have avoids := waiting.avoids committed covers uploaded objects
    have outcome' := turn.outcome
    have avoids' := turn.avoids avoids
    rw [outcome] at outcome'
    change Turn _ s t (.ready (.update _ _ _ _)) _ _ at turn
    cases turn with
    | start =>
      refine ⟨committed, Or.inr ⟨rfl, fun _ ended => ?_, fun touched => ?_, avoids', obj, d',
        applied, outcome'⟩⟩
      · cases ended
      · exact uses_after_supersede _ r

omit [DecidableEq ι] [Fintype ι] in
theorem Covers.apply (covers : Covers cat d.view) {obj : Object}
    (h : r.apply d = .ok (obj, d')) : Covers cat d'.view := by
  obtain ⟨row, found, -, -, -, -, -, view⟩ := completeUpload_ok h
  obtain ⟨listed, named⟩ := covers.objects _ row found
  rw [view]
  exact (covers.supersede ..).promote listed named

/-- The rows that the transactions which have not ended may have locked. -/
def Busy (requests : ι → Completion) (order : List ι) (t : ι) (k : RowKey) : Prop :=
  ∃ u, u ≠ t ∧ u ∉ order ∧ k = .object (requests u).objectID

/-- The state of a run that is serial so far: the completions in `order` have been carried
out, the last one first, and at most one transaction is overwriting. -/
structure Serialised (requests : ι → Completion) (db : Database) (s : Race ι) (order : List ι)
    (d : Database) : Prop where
  completed : Completed requests db order d
  committed : s.store.committed = rowsOf d.view
  covers : Covers (.of db) d.view
  ended : ∀ t ∈ order, (∃ obj, s.activity t = .ended (.ok obj)) ∧
    (∀ k, s.store.own t k = none) ∧ ∀ k, s.store.locks t k = false
  others : ∀ t, t ∉ order →
    Waiting (.of db) d (requests t) (s.store.own t) (s.store.locks t) (s.activity t) ∨
      Overwriting (.of db) d (requests t) (Busy requests order t) (s.store.read t) (s.activity t)
  alone : ∀ t u, u ≠ t → overwriting (s.activity t) → overwriting (s.activity u) = false

section Step

variable {requests : ι → Completion} (different : Function.Injective fun t => (requests t).objectID)
  (uploads : ∀ t, Uploaded db bucket key (requests t)) {s : Race ι} {order : List ι}
  {store : ReadCommitted ι RowKey.Version}

/-- A turn in which nothing is committed. -/
theorem Serialised.keep (serialised : Serialised requests db s order d) (waits : t ∉ order)
    (turn : Turn (indexes (.of db)) s.store t (s.activity t) store act')
    (committed : store.committed = s.store.committed)
    (mine : Waiting (.of db) d (requests t) (store.own t) (store.locks t) act' ∨
      Overwriting (.of db) d (requests t) (Busy requests order t) (store.read t) act')
    (alone : overwriting act' → ∀ u, u ≠ t → overwriting (s.activity u) = false) :
    Serialised requests db ⟨store, Function.update s.activity t act'⟩ order d := by
  have apart {u : ι} (member : u ∈ order) : u ≠ t := by
    rintro rfl
    exact waits member
  refine ⟨serialised.completed, committed.trans serialised.committed, serialised.covers,
    fun u member => ?_, fun u later => ?_, fun u w differ first => ?_⟩
  · simp only [Function.update_of_ne (apart member), (turn.others (apart member)).1,
      (turn.others (apart member)).2]
    exact serialised.ended u member
  · by_cases same : u = t
    · subst same
      simpa using mine
    · have read : store.read u = s.store.read u := by
        unfold ReadCommitted.read
        rw [committed, (turn.others same).1]
      simp only [Function.update_of_ne same, (turn.others same).1, (turn.others same).2, read]
      exact serialised.others u later
  · by_cases mine : u = t
    · subst mine
      simp only [Function.update_self] at first
      simp only [Function.update_of_ne differ]
      exact alone first w differ
    · simp only [Function.update_of_ne mine] at first
      by_cases mine' : w = t
      · subst mine'
        simp only [Function.update_self]
        by_contra second
        simp [alone (Bool.not_eq_false _ ▸ second) u mine] at first
      · simp only [Function.update_of_ne mine']
        exact serialised.alone u w differ first

omit [DecidableEq ι] [Fintype ι] in
theorem serialised_start (requests : ι → Completion) (db : Database) :
    Serialised requests db (race db requests) [] db where
  completed := .nil
  committed := rfl
  covers := covers_of db
  ended t member := absurd member List.not_mem_nil
  others t _ := Or.inl ⟨fun _ => rfl, fun _ held => (by cases held), Or.inl rfl⟩
  alone t _ _ begun := by cases begun

omit [DecidableEq ι] [Fintype ι] in
theorem Serialised.mem_of_ended (serialised : Serialised requests db s order d)
    {result : Except StoreError Object} (ended : s.activity t = .ended result) : t ∈ order := by
  by_contra waits
  obtain waiting | over_ := serialised.others t waits
  · rw [ended] at waiting
    obtain h | ⟨o, -, h | h⟩ := waiting.stage <;> cases h
  · exact over_.running result ended

omit [Fintype ι] in
/-- What the others have locked is out of the way of a transaction, if none of them is
overwriting. -/
theorem Serialised.undisturbed (serialised : Serialised requests db s order d)
    (free : ∀ u, u ≠ t → overwriting (s.activity u) = false) :
    Undisturbed (Busy requests order t) s.store t := by
  intro u other
  by_cases waits : u ∈ order
  · obtain ⟨-, own, locks⟩ := serialised.ended u waits
    exact ⟨own, fun k held => by simp [locks] at held⟩
  · obtain waiting | over_ := serialised.others u waits
    · exact ⟨waiting.own, fun k held => ⟨u, other, waits, waiting.locks k held⟩⟩
    · have begun := over_.overwriting
      rw [free u other] at begun
      cases begun

include different uploads

omit [Fintype ι] in
/-- The turn in which a transaction commits. -/
theorem Serialised.commit (serialised : Serialised requests db s order d) (waits : t ∉ order)
    (over_ : Overwriting (.of db) d (requests t) (Busy requests order t) (s.store.read t)
      (s.activity t)) {a : Object} (done : s.activity t = .ready (.done a)) :
    ∃ d', Serialised requests db ⟨s.store.commit t,
      Function.update s.activity t (.ended (.ok a))⟩ (t :: order) d' := by
  obtain ⟨obj, d', applied, outcome⟩ := over_.outcome
  rw [done] at outcome
  have rows : s.store.read t = rowsOf d'.view := congrArg Prod.snd (Except.ok.inj outcome)
  have rest {u : ι} (other : u ≠ t) : overwriting (s.activity u) = false :=
    serialised.alone t u other over_.overwriting
  refine ⟨d', .cons serialised.completed waits applied, rows, serialised.covers.apply applied,
    fun u member => ?_, fun u later => Or.inl ?_, fun u w differ first => ?_⟩
  · by_cases mine : u = t
    · subst mine
      simp [ReadCommitted.commit]
    · have earlier := (List.mem_cons.mp member).resolve_left mine
      simp only [Function.update_of_ne mine, ReadCommitted.commit]
      exact serialised.ended u earlier
  · obtain ⟨mine, later⟩ := not_or.mp (mt List.mem_cons.mpr later)
    simp only [Function.update_of_ne mine, ReadCommitted.commit]
    obtain waiting | busy := serialised.others u later
    · have mine' := serialised.completed.uploaded different uploads waits
      obtain ⟨-, same⟩ := (mine'.applied applied).uploaded (fun same => mine (different same))
        (serialised.completed.uploaded different uploads later)
      exact ⟨waiting.own, waiting.locks, by rw [same]; exact waiting.stage⟩
    · have clash := busy.overwriting
      rw [rest mine] at clash
      cases clash
  · by_cases mine : u = t
    · subst mine
      simp [Concurrent.overwriting] at first
    · simp only [Function.update_of_ne mine, rest mine] at first
      cases first

omit [DecidableEq ι] [Fintype ι] in
theorem Serialised.busy_object (serialised : Serialised requests db s order d) (k : RowKey)
    (taken : Busy requests order t k) : ∃ id, k = .object id ∧ id ≠ (requests t).objectID ∧
      (d.view.objects id).any (·.state = .uploading) := by
  obtain ⟨u, other, later, rfl⟩ := taken
  obtain ⟨o, found, uploading, -, -⟩ :=
    (serialised.completed.uploaded different uploads later).row
  exact ⟨_, rfl, fun same => other (different same), by simp [found, uploading]⟩

/-- Every turn of an orderly run keeps it serial. -/
theorem Serialised.step (serialised : Serialised requests db s order d) (orderly : Orderly s t) :
    ∃ order d, Serialised requests db (s.step (indexes (.of db)) t) order d := by
  refine System.step_cases (R := fun s => ∃ order d, Serialised requests db s order d)
    ⟨order, d, serialised⟩ fun store act' turn => ?_
  by_cases waits : t ∈ order
  · obtain ⟨obj, ended⟩ := (serialised.ended t waits).1
    rw [ended] at turn
    cases turn
  have uploaded := serialised.completed.uploaded different uploads waits
  obtain waiting | over_ := serialised.others t waits
  · obtain ⟨committed, still | ⟨begins, over_⟩⟩ := waiting.turn serialised.committed
      serialised.covers uploaded (serialised.busy_object different uploads) turn
    · refine ⟨order, d, serialised.keep waits turn (committed.trans serialised.committed.symm)
        (Or.inl still) fun begun => ?_⟩
      rw [still.not_overwriting] at begun
      cases begun
    · exact ⟨order, d, serialised.keep waits turn (committed.trans serialised.committed.symm)
        (Or.inr over_) fun _ => orderly begins⟩
  · by_cases done : ∃ a, s.activity t = .ready (.done a)
    · obtain ⟨a, done⟩ := done
      obtain ⟨d', serialised'⟩ := serialised.commit different uploads waits over_ done
      rw [done] at turn
      cases turn
      exact ⟨t :: order, d', serialised'⟩
    · have unfinished (a : Object) : s.activity t ≠ .ready (.done a) := fun h => done ⟨a, h⟩
      have committed : store.committed = s.store.committed :=
        (turn.committed.resolve_right fun h => done ⟨h.choose, h.choose_spec.1⟩).1
      obtain ⟨obj, d', applied, outcome⟩ := over_.outcome
      have outcome' := turn.outcome.trans outcome
      exact ⟨order, d, serialised.keep waits turn committed
        (Or.inr ⟨turn.running unfinished outcome', turn.uses over_.uses,
          turn.avoids over_.avoids, obj, d', applied, outcome'⟩)
          fun _ u other => serialised.alone t u other over_.overwriting⟩

/-- So an orderly run is serial. -/
theorem Serialised.run (serialised : Serialised requests db s order d) {schedule : List ι}
    (orderly : Guarded (System.step (indexes (.of db))) Orderly s schedule) :
    ∃ order d, Serialised requests db
      (Transition.run (System.step (indexes (.of db))) s schedule) order d := by
  refine run_invariant (P := fun s => ∃ order d, Serialised requests db s order d) ?_
    ⟨order, d, serialised⟩ orderly
  rintro s t ⟨order, d, serialised⟩ orderly
  exact serialised.step different uploads orderly

omit [DecidableEq ι] [Fintype ι] in
theorem Serialised.avoids (serialised : Serialised requests db s order d) (waits : t ∉ order) :
    (s.activity t).Avoids (indexes (.of db)) (Busy requests order t) (s.store.read t) := by
  obtain waiting | over_ := serialised.others t waits
  · exact waiting.avoids serialised.committed serialised.covers
      (serialised.completed.uploaded different uploads waits)
      (serialised.busy_object different uploads)
  · exact over_.avoids

/-- The transactions that have not ended can be brought to their end. -/
theorem Serialised.finish (serialised : Serialised requests db s order d) :
    ∃ rest, Guarded (System.step (indexes (.of db))) Orderly s rest ∧
      ∀ t, ∃ r, (Transition.run (System.step (indexes (.of db))) s rest).activity t =
        .ended r := by
  induction left : (Finset.univ.filter (· ∉ order)).card using Nat.strong_induction_on
    generalizing s order d with
  | h n ih =>
    by_cases all : ∀ t, t ∈ order
    · exact ⟨[], trivial, fun t => ⟨_, (serialised.ended t (all t)).1.choose_spec⟩⟩
    · -- Whoever is overwriting goes first.
      obtain ⟨t, waits, free⟩ : ∃ t, t ∉ order ∧
          ∀ u, u ≠ t → overwriting (s.activity u) = false := by
        by_cases someone : ∃ t, overwriting (s.activity t)
        · obtain ⟨t, begun⟩ := someone
          refine ⟨t, fun member => ?_, fun u other => serialised.alone t u other begun⟩
          rw [(serialised.ended t member).1.choose_spec] at begun
          cases begun
        · obtain ⟨t, waits⟩ := not_forall.mp all
          exact ⟨t, waits, fun u _ => Bool.eq_false_iff.mpr fun begun => someone ⟨u, begun⟩⟩
      have allowed (s' : Race ι) (same : ∀ u, u ≠ t → s'.activity u = s.activity u) :
          Orderly s' t := by
        intro _ u other
        rw [same u other]
        exact free u other
      obtain ⟨m, guarded, ⟨result, ended⟩, others⟩ := System.exists_ended
        (serialised.undisturbed free) (serialised.avoids different uploads waits) allowed
      obtain ⟨order', d', serialised'⟩ := serialised.run different uploads guarded
      have fewer : (Finset.univ.filter (· ∉ order')).card < n := by
        rw [← left]
        refine Finset.card_lt_card ⟨fun u member => ?_, fun subset => ?_⟩
        · simp only [Finset.mem_filter, Finset.mem_univ, true_and] at member ⊢
          intro earlier
          obtain ⟨obj, done⟩ := (serialised.ended u earlier).1
          have other : u ≠ t := fun same => waits (same ▸ earlier)
          exact member (serialised'.mem_of_ended ((others u other).trans done))
        · have still := subset (Finset.mem_filter.mpr ⟨Finset.mem_univ t, waits⟩)
          exact (Finset.mem_filter.mp still).2 (serialised'.mem_of_ended ended)
      obtain ⟨rest, guarded', all⟩ := ih _ fewer serialised' rfl
      refine ⟨List.replicate m t ++ rest, guarded_append.mpr ⟨guarded, guarded'⟩, fun u => ?_⟩
      rw [run_append]
      exact all u

end Step

end Interleaved

/-- The version of one transaction is the only COMPLETE one of the key, and every other
version that was COMPLETE before or has been completed is DELETING, with its copies queued. -/
structure Overwritten (db : Database) (bucket key : String) (requests : ι → Completion)
    (rows : Rows) (t : ι) : Prop where
  current : ∀ id, (rows (.object id)).any (currentVersion bucket key) ↔
    id = (requests t).objectID
  others : ∀ id, (∃ u, u ≠ t ∧ id = (requests u).objectID) ∨
      (db.view.objects id).any (currentVersion bucket key) →
    (rows (.object id)).any (·.state = .deleting) ∧
      ∀ c n s, (rows (.chunk c)).any (·.owner = .object id) → rows (.replica c n) = some s →
        s = .deleting ∧ rows (.job c n) = true

theorem Completed.overwritten {requests : ι → Completion} {order : List ι} {t : ι}
    (completed : Completed requests db (t :: order) d)
    (different : Function.Injective fun t => (requests t).objectID)
    (uploads : ∀ t, Uploaded db bucket key (requests t)) (queued : DeletingQueued db)
    (all : ∀ u, u ∈ t :: order) : Overwritten db bucket key requests (rowsOf d.view) t := by
  obtain ⟨only, last, first, earlier⟩ := completed.settled different uploads queued
  refine ⟨fun id => ⟨fun current => ?_, ?_⟩, fun id was => ?_⟩
  · obtain ⟨o, found, current⟩ := (Option.any_eq_true _ _).mp current
    exact only id o found current
  · rintro rfl
    exact last
  · rcases was with ⟨u, other, rfl⟩ | current
    · exact earlier u ((List.mem_cons.mp (all u)).resolve_left other)
    · obtain ⟨o, found, current⟩ := (Option.any_eq_true _ _).mp current
      exact first id o found current

variable [DecidableEq ι] [Fintype ι]

/-- In an orderly interleaving of completions of different uploads of one key no completion
is refused, all can be brought to their end, and when they have ended one version is COMPLETE
and every other one is DELETING with its copies queued. -/
theorem completeUploads_serial {calls : List Call} {requests : ι → Completion}
    {schedule : List ι}
    (named : Guarded step (fun db call => call.op.misnamesJob db = false) Database.empty calls)
    (reached : run step Database.empty calls = db)
    (different : Function.Injective fun t => (requests t).objectID)
    (uploads : ∀ t, Uploaded db bucket key (requests t))
    (orderly : Guarded (System.step (indexes (.of db))) Orderly (race db requests) schedule)
    {s : Race ι} (after : run (System.step (indexes (.of db))) (race db requests) schedule = s) :
    (∀ t e, s.activity t ≠ .ended (.error e)) ∧
      (∃ rest, Guarded (System.step (indexes (.of db))) Orderly s rest ∧
        ∀ t, ∃ r, (run (System.step (indexes (.of db))) s rest).activity t = .ended r) ∧
      ((∀ t, ∃ r, s.activity t = .ended r) → Nonempty ι →
        ∃ t, Overwritten db bucket key requests s.store.committed t) := by
  subst reached after
  obtain ⟨order, d, serialised⟩ :=
    (serialised_start requests _).run different uploads orderly
  refine ⟨fun t e refused => ?_, serialised.finish different uploads, fun ended _ => ?_⟩
  · obtain ⟨⟨obj, done⟩, -⟩ := serialised.ended t (serialised.mem_of_ended refused)
    rw [refused] at done
    cases done
  · have all (u : ι) : u ∈ order := serialised.mem_of_ended (ended u).choose_spec
    rw [serialised.committed]
    cases order with
    | nil => exact absurd (all (Classical.arbitrary ι)) List.not_mem_nil
    | cons t rest =>
      exact ⟨t, serialised.completed.overwritten different uploads (deletingQueued_run named) all⟩

/-- A current version of a key and two uploads that are to overwrite it. -/
def twoUploads : List Call :=
  [⟨0, .upsertNode "n1" "n1:9000" .healthy {} 0⟩, ⟨1, .beginUpload 1 "b" "k" "" 8⟩,
    ⟨2, .reserveChunk 10 ⟨some 1, none⟩ 0 8⟩, ⟨3, .recordChunkTargets 10 ["n1"]⟩,
    ⟨4, .commitChunk 10 5 8 ["n1"] [] 1⟩, ⟨5, .completeUpload 1 8 1 "e"⟩,
    ⟨6, .beginUpload 2 "b" "k" "" 8⟩, ⟨7, .reserveChunk 20 ⟨some 2, none⟩ 0 8⟩,
    ⟨8, .recordChunkTargets 20 ["n1"]⟩, ⟨9, .commitChunk 20 6 8 ["n1"] [] 1⟩,
    ⟨10, .beginUpload 3 "b" "k" "" 8⟩, ⟨11, .reserveChunk 30 ⟨some 3, none⟩ 0 8⟩,
    ⟨12, .recordChunkTargets 30 ["n1"]⟩, ⟨13, .commitChunk 30 7 8 ["n1"] [] 1⟩]

def twoCompletions : Bool → Completion
  | false => ⟨20, 2, 8, 1, "f"⟩
  | true => ⟨21, 3, 8, 1, "g"⟩

def oneByOne : List Bool := List.replicate 18 false ++ List.replicate 18 true

/-- The first completion has started to supersede when the second one runs. -/
def atTheSameTime : List Bool :=
  List.replicate 3 false ++ List.replicate 18 true ++ List.replicate 18 false

theorem uploaded_twoUploads (t : Bool) :
    Uploaded (run step Database.empty twoUploads) "b" "k" (twoCompletions t) := by
  cases t with
  | false | true => exact ⟨⟨_, rfl, rfl, rfl, rfl⟩, by decide +kernel, by decide⟩

theorem completeUploads_serial_oneByOne :
    ∃ t, Overwritten (run step Database.empty twoUploads) "b" "k" twoCompletions
      (run (System.step (indexes (.of (run step Database.empty twoUploads))))
        (race (run step Database.empty twoUploads) twoCompletions) oneByOne).store.committed t := by
  have orderly : Guarded (System.step (indexes (.of (run step Database.empty twoUploads)))) Orderly
      (race (run step Database.empty twoUploads) twoCompletions) oneByOne := by
    decide +kernel
  have ended : ∀ t, ((run (System.step (indexes (.of (run step Database.empty twoUploads))))
      (race (run step Database.empty twoUploads) twoCompletions) oneByOne).activity
        t).ended?.isSome := by
    decide +kernel
  obtain ⟨-, -, overwritten⟩ := completeUploads_serial (by decide +kernel) rfl (by decide)
    uploaded_twoUploads orderly rfl
  refine overwritten (fun t => ?_) ⟨true⟩
  obtain ⟨r, result⟩ := Option.isSome_iff_exists.mp (ended t)
  exact ⟨r, Activity.ended?_eq_some.mp result⟩

/-- Of two completions that overwrite at the same time the one that has superseded first is
refused by the unique index. -/
theorem completeUploads_collide :
    ((run (System.step (indexes (.of (run step Database.empty twoUploads))))
      (race (run step Database.empty twoUploads) twoCompletions) atTheSameTime).activity
        false).ended? = some (.error (.constraint .objectsCurrentVersion)) := by
  decide +kernel

end FlexStore.Metadata.Concurrent
