import FlexStore.Metadata.Multipart
import FlexStore.Relational.Transaction

/-!
# The completions, statement by statement

The transactions of `CompleteUpload`, `CompletePart` and `CompleteMultipartUpload` as
programs of statements, for runs in which they are interleaved. A row of the database is
named by its table and primary key, and the `Catalog` lists the keys that a scan of a table
goes through: no object, part, chunk or copy comes or goes in these runs, except for the
object that an assembly creates.

Run alone, the programs do to the lookups what the store operations do.
-/

namespace FlexStore.Metadata.Concurrent

open Relational Transition

/-- The rows that the completions read and write. -/
inductive RowKey where
  | object (id : UUID)
  | upload (id : UUID)
  | part (id : UUID)
  | chunk (id : UUID)
  | replica (chunk : UUID) (node : NodeID)
  | job (chunk : UUID) (node : NodeID)
  deriving DecidableEq

/-- The versions of a row: a row or none, the state of a copy, whether a removal is queued. -/
@[reducible] def RowKey.Version : RowKey → Type
  | .object _ => Option ObjectRow
  | .upload _ => Option MultipartUploadRow
  | .part _ => Option PartRow
  | .chunk _ => Option ChunkRow
  | .replica _ _ => Option ReplicaState
  | .job _ _ => Bool

abbrev Rows := (k : RowKey) → k.Version

def rowsOf (v : View) : Rows
  | .object id => v.objects id
  | .upload id => v.uploads id
  | .part id => v.parts id
  | .chunk id => v.chunks id
  | .replica c n => (v.slots c n).replica
  | .job c n => (v.slots c n).queued

/-- The primary keys of the tables that are scanned. -/
structure Catalog where
  objects : List UUID
  parts : List UUID
  chunks : List UUID
  copies : List (UUID × NodeID)

namespace Catalog

def of (db : Database) : Catalog where
  objects := db.objects.rows.map (·.id)
  parts := db.parts.rows.map (·.id)
  chunks := db.chunks.rows.map (·.id)
  copies := db.replicas.rows.map (·.key)

variable (cat : Catalog) (rows : Rows)

def partRows : List PartRow := cat.parts.filterMap fun id => rows (.part id)

def chunkRows : List ChunkRow := cat.chunks.filterMap fun id => rows (.chunk id)

def chunksOf (owner : Owner) : List ChunkRow := (cat.chunkRows rows).filter (·.owner = owner)

end Catalog

/-- The statements, by what the source calls them when they fail. -/
inductive Statement where
  | lockObject
  | countChunks
  | supersede
  | enqueueDeletions
  | markReplicasDeleting
  | completeObject
  | lockPart
  | countPartChunks
  | completePart
  | lockUpload
  | loadParts
  | countInFlightParts
  | computeVersion
  | createObject
  | reparentChunks
  | orphanChunks
  | markCompleted
  | computeNextVersion
  | insertObject
  | shareUpload
  | supersedePart
  | insertPart
  | touchSession
  deriving DecidableEq

/-- The entries of the unique indexes: the current version of a key, the COMPLETE part of a
number, the chunk at an index of its owner. -/
inductive Entry where
  | current (bucket key : String)
  | complete (uploadID : UUID) (partNumber : Int)
  | position (owner : Owner) (index : Nat)
  deriving DecidableEq

/-- `objects_current_version_idx`, `multipart_parts_complete_idx` and the indexes on the
chunks of an owner. -/
def indexes (cat : Catalog) : UniqueIndex RowKey.Version Entry StoreError where
  rows := cat.objects.map .object ++ cat.parts.map .part ++ cat.chunks.map .chunk
  entry
    | .object _, some o => if o.state = .complete then some (.current o.bucket o.key) else none
    | .part _, some p =>
      if p.state = .complete then some (.complete p.uploadID p.partNumber) else none
    | .chunk _, some c => some (.position c.owner c.index)
    | _, _ => none
  error
    | .current .. => .constraint .objectsCurrentVersion
    | .complete .. => .constraint .multipartPartsComplete
    | .position .. => .constraint .chunksOwnerIndex

abbrev Program := Txn RowKey.Version Statement StoreError

/-- What a statement does with a row that it has locked. -/
abbrev Change := (k : RowKey) → k.Version → Verdict StoreError k.Version

/-- `UPDATE objects SET ... WHERE p`. -/
def updateObject (p : ObjectRow → Bool) (f : ObjectRow → ObjectRow) : Change
  | .object _, some o => if p o then .write (some (f o)) else .leave
  | _, _ => .leave

/-- `UPDATE chunk_replicas SET state = 'DELETING'`. -/
def markDeleting : Change
  | .replica _ _, some _ => .write (some .deleting)
  | _, _ => .leave

/-- `INSERT INTO chunk_deletions ... ON CONFLICT (chunk_id, node_id) DO NOTHING`. -/
def insertJob : Change
  | .job _ _, false => .write true
  | _, _ => .leave

variable (cat : Catalog)

/-- Queues a deletion for every copy of the selected chunks that is not already DELETING,
then marks all their copies DELETING. -/
def condemnCopies (mine : Rows → UUID → Bool) : Program Unit :=
  .update .enqueueDeletions
    (fun rows => (cat.copies.filter fun (c, n) => mine rows c &&
      (rows (.replica c n)).any (· ≠ .deleting) && !rows (.job c n)).map fun (c, n) => .job c n)
    (fun _ => insertJob) fun _ =>
  .update .markReplicasDeleting
    (fun rows => (cat.copies.filter fun (c, n) =>
      mine rows c && (rows (.replica c n)).isSome).map fun (c, n) => .replica c n)
    (fun _ => markDeleting) fun _ =>
  .done ()

def ofObject (objectID : UUID) (rows : Rows) (c : UUID) : Bool :=
  (rows (.chunk c)).any (·.owner = .object objectID)

/-- Pushes one deletion job per replica of an object's chunks. -/
def enqueueObjectChunkDeletions (objectID : UUID) : Program Unit :=
  condemnCopies cat (ofObject objectID)

/-- The ids in what a statement on `objects` returns. -/
def returnedIDs (touched : List ((k : RowKey) × k.Version)) : List UUID :=
  touched.filterMap fun row => match row.1 with
    | .object id => some id
    | _ => none

/-- The versions of a key that superseding finds. -/
def supersededIDs (bucket key : String) (newID : UUID) (rows : Rows) : List UUID :=
  cat.objects.filter fun id => (rows (.object id)).any (supersededBy bucket key newID)

/-- Retires whatever COMPLETE version of the key exists, excluding `newID`, and queues its
replicas for reclamation. -/
def supersedeCurrentVersion (now : Time) (bucket key : String) (newID : UUID) : Program Unit :=
  .update .supersede
    (fun rows => (supersededIDs cat bucket key newID rows).map .object)
    (fun _ => updateObject (supersededBy bucket key newID) (ObjectRow.retire now)) fun touched =>
  forM (returnedIDs touched) (enqueueObjectChunkDeletions cat)

/-- `UPDATE objects SET state = 'COMPLETE', ... WHERE id = $1 RETURNING ...`. -/
def promoteObject (now : Time) (id : UUID) (sizeBytes chunkCount : Int) (etag : String) :
    Program Object :=
  .update .completeObject
    (fun rows => if (rows (.object id)).isSome then [.object id] else [])
    (fun _ k row => if 0 ≤ sizeBytes ∧ 0 ≤ chunkCount then
        updateObject (fun _ => true)
          (ObjectRow.finish now sizeBytes.toNat chunkCount.toNat etag) k row
      else .refuse (.constraint .check)) fun
  | ⟨.object _, some row⟩ :: _ => .done (scanObject row)
  | _ => .fail .noRows

/-- The arguments of `CompleteUpload`, with the time of the transaction. -/
structure Completion where
  now : Time
  objectID : UUID
  sizeBytes : Int
  chunkCount : Int
  etag : String

/-- The declared number of chunks is the number of the owner's chunk rows, all COMMITTED. -/
def allCommitted (owner : Owner) (chunkCount : Int) (rows : Rows) : Bool :=
  ((cat.chunksOf rows owner).length : Int) = chunkCount &&
    (((cat.chunksOf rows owner).filter (·.state = .committed)).length : Int) = chunkCount

/-- The part of `CompleteUpload` in which it overwrites the current version. -/
def overwrite (r : Completion) (row : ObjectRow) : Program Object := do
  supersedeCurrentVersion cat r.now row.bucket row.key r.objectID
  promoteObject r.now r.objectID r.sizeBytes r.chunkCount r.etag

/-- The part of `CompleteUpload` after it has locked the version. -/
def validate (r : Completion) (row : ObjectRow) : Program Object :=
  .select .countChunks fun rows =>
    if allCommitted cat (.object r.objectID) r.chunkCount rows then overwrite cat r row
    else .fail .durabilityNotMet

/-- Validates durability, then promotes this version to COMPLETE and demotes any previously
current version to DELETING. -/
def completeUpload (r : Completion) : Program Object :=
  .lock .lockObject (.object r.objectID) fun
    | none => .fail .notFound
    | some row => if row.state = .uploading then validate cat r row else .fail .conflict

/-- The catalog lists the rows behind the lookups, each once, and rows have their own key. -/
structure Covers (v : View) : Prop where
  objects : ∀ id o, v.objects id = some o → id ∈ cat.objects ∧ o.id = id
  chunks : ∀ id c, v.chunks id = some c → id ∈ cat.chunks
  copies : ∀ c n, (v.slots c n).replica ≠ none → (c, n) ∈ cat.copies
  distinct : cat.objects.Nodup ∧ cat.chunks.Nodup ∧ cat.copies.Nodup

theorem covers_of (db : Database) : Covers (.of db) db.view where
  objects id o found := by
    obtain ⟨member, rfl⟩ := Table.mem_of_find? found
    exact ⟨List.mem_map_of_mem member, rfl⟩
  chunks id c found := by
    obtain ⟨member, rfl⟩ := Table.mem_of_find? found
    exact List.mem_map_of_mem member
  copies c n held := by
    obtain ⟨s, held⟩ := Option.ne_none_iff_exists'.mp held
    obtain ⟨r, member, rfl, rfl, -⟩ := replicaState_eq_some.mp held
    exact List.mem_map_of_mem member
  distinct := ⟨db.objects.nodup, db.chunks.nodup, db.replicas.nodup⟩

section Serial

variable {cat} {v : View}

/-- The versions that `insertJob` and `markDeleting` write. -/
def condemned : (k : RowKey) → k.Version → k.Version
  | .job _ _, _ => true
  | .replica _ _, old => old.map fun _ => .deleting
  | _, old => old

theorem amend_insertJob (covers : Covers cat v) (mine : UUID → Bool) :
    ∃ touched, amend (indexes cat) insertJob ((cat.copies.filter fun (c, n) => mine c &&
        (rowsOf v (.replica c n)).any (· ≠ .deleting) && !rowsOf v (.job c n)).map
          fun (c, n) => .job c n) [] (rowsOf v) =
      .ok (touched, rowsOf (v.enqueue fun c n =>
        (v.slots c n).replica.any fun s => mine c && s ≠ .deleting)) := by
  refine ⟨_, (amend_of_writes (f := condemned) ?_ _ _ ?_ ?_).trans
    (congrArg Except.ok (Prod.ext rfl (funext fun k => ?_)))⟩
  · refine (covers.distinct.2.2.filter _).map fun x y same => ?_
    simpa [Prod.ext_iff] using same
  · intro k member
    obtain ⟨⟨c, n⟩, listed, rfl⟩ := List.mem_map.mp member
    obtain ⟨-, free⟩ := Bool.and_eq_true_iff.mp (List.mem_filter.mp listed).2
    have empty : rowsOf v (.job c n) = false := by simpa using free
    simp [insertJob, condemned, empty]
  · intro k member
    obtain ⟨⟨c, n⟩, listed, rfl⟩ := List.mem_map.mp member
    rfl
  · cases k with
    | job c n =>
      have listed : (v.slots c n).replica ≠ none → (c, n) ∈ cat.copies := covers.copies c n
      simp only [rowsOf, View.enqueue, condemned]
      cases queued : (v.slots c n).queued <;> cases selected : mine c <;>
        cases held : (v.slots c n).replica <;> simp_all
    | _ => simp [rowsOf, View.enqueue]

theorem amend_markDeleting (covers : Covers cat v) (mine : UUID → Bool) :
    ∃ touched, amend (indexes cat) markDeleting ((cat.copies.filter fun (c, n) =>
        mine c && (rowsOf v (.replica c n)).isSome).map fun (c, n) => .replica c n) []
          (rowsOf v) =
      .ok (touched, rowsOf (v.mapReplicas fun c _ s => if mine c then .deleting else s)) := by
  refine ⟨_, (amend_of_writes (f := condemned) ?_ _ _ ?_ ?_).trans
    (congrArg Except.ok (Prod.ext rfl (funext fun k => ?_)))⟩
  · refine (covers.distinct.2.2.filter _).map fun x y same => ?_
    simpa [Prod.ext_iff] using same
  · intro k member
    obtain ⟨⟨c, n⟩, listed, rfl⟩ := List.mem_map.mp member
    obtain ⟨-, held⟩ := Bool.and_eq_true_iff.mp (List.mem_filter.mp listed).2
    obtain ⟨s, held⟩ := Option.isSome_iff_exists.mp held
    simp [markDeleting, condemned, held]
  · intro k member
    obtain ⟨⟨c, n⟩, listed, rfl⟩ := List.mem_map.mp member
    rfl
  · cases k with
    | replica c n =>
      have listed : (v.slots c n).replica ≠ none → (c, n) ∈ cat.copies := covers.copies c n
      simp only [rowsOf, View.mapReplicas, condemned]
      cases held : (v.slots c n).replica <;> cases selected : mine c <;> simp_all
    | _ => simp [rowsOf, View.mapReplicas]

/-- Alone, the two statements condemn the copies of the selected chunks. -/
theorem serial_condemnCopies (covers : Covers cat v) {mine : Rows → UUID → Bool}
    {p : Owner → Bool} (selects : ∀ rows : Rows, (∀ c, rows (.chunk c) = v.chunks c) →
      (∀ id, rows (.part id) = v.parts id) → mine rows = v.ownedBy p) :
    (condemnCopies cat mine).serial (indexes cat) (rowsOf v) =
      .ok ((), rowsOf (v.condemnOwned p)) := by
  have queued : Covers cat (v.enqueue fun c n =>
      (v.slots c n).replica.any fun s => v.ownedBy p c && s ≠ .deleting) :=
    ⟨covers.objects, covers.chunks, covers.copies, covers.distinct⟩
  obtain ⟨touched, jobs⟩ := amend_insertJob covers (v.ownedBy p)
  obtain ⟨touched', marks⟩ := amend_markDeleting queued (v.ownedBy p)
  simp only [condemnCopies, Txn.serial, selects (rowsOf v) (fun _ => rfl) fun _ => rfl]
  rw [jobs]
  simp only [Except.bind, bind, selects (rowsOf (v.enqueue _)) (fun _ => rfl) fun _ => rfl]
  rw [marks, View.mapReplicas_enqueue]
  rfl

theorem serial_enqueueObjectChunkDeletions (covers : Covers cat v) (id : UUID) :
    (enqueueObjectChunkDeletions cat id).serial (indexes cat) (rowsOf v) =
      .ok ((), rowsOf (v.condemnOwned (· = .object id))) := by
  refine serial_condemnCopies covers fun rows chunks _ => funext fun c => ?_
  simp [ofObject, chunks, View.ownedBy]

theorem Covers.condemnOwned (covers : Covers cat v) (p : Owner → Bool) :
    Covers cat (v.condemnOwned p) where
  objects := covers.objects
  chunks := covers.chunks
  copies c n held := by
    refine covers.copies c n fun none_ => held ?_
    simp only [View.condemnOwned, View.condemn]
    split <;> simp [Slot.condemn, none_]
  distinct := covers.distinct

theorem serial_forM_enqueue (covers : Covers cat v) (ids : List UUID) :
    (forM ids (enqueueObjectChunkDeletions cat)).serial (indexes cat) (rowsOf v) =
      .ok ((), rowsOf (v.condemnOwned (Owner.objectIn ids))) := by
  induction ids generalizing v with
  | nil =>
    rw [View.condemnOwned_false _ fun o => by cases o <;> rfl]
    rfl
  | cons id rest ih =>
    rw [List.forM_cons, Txn.serial_bind, serial_enqueueObjectChunkDeletions covers]
    refine (ih (covers.condemnOwned _)).trans ?_
    rw [View.condemnOwned_condemnOwned]
    refine congrArg (fun w => Except.ok ((), rowsOf w)) (View.condemnOwned_congr _ fun o => ?_)
    cases o <;> simp [Owner.objectIn]

def retired (now : Time) : (k : RowKey) → k.Version → k.Version
  | .object _, old => old.map (ObjectRow.retire now)
  | _, old => old

theorem amend_retire (covers : Covers cat v) (now : Time) (bucket key : String) (newID : UUID) :
    amend (indexes cat) (updateObject (supersededBy bucket key newID) (ObjectRow.retire now))
        ((supersededIDs cat bucket key newID (rowsOf v)).map .object) [] (rowsOf v) =
      .ok (((supersededIDs cat bucket key newID (rowsOf v)).map .object).map fun k =>
          ⟨k, retired now k (rowsOf v k)⟩,
        rowsOf (v.mapObjects (supersededBy bucket key newID) (ObjectRow.retire now))) := by
  have found {id : UUID} (listed : id ∈ supersededIDs cat bucket key newID (rowsOf v)) :
      ∃ o, v.objects id = some o ∧ supersededBy bucket key newID o :=
    (Option.any_eq_true _ _).mp (List.mem_filter.mp listed).2
  refine (amend_of_writes (f := retired now) ?_ _ _ ?_ ?_).trans
    (congrArg Except.ok (Prod.ext rfl (funext fun k => ?_)))
  · exact (covers.distinct.1.filter _).map fun x y same => by simpa using same
  · intro k member
    obtain ⟨id, listed, rfl⟩ := List.mem_map.mp member
    obtain ⟨o, row, current⟩ := found listed
    simp [updateObject, retired, rowsOf, row, current]
  · intro k member
    obtain ⟨id, listed, rfl⟩ := List.mem_map.mp member
    obtain ⟨o, row, -⟩ := found listed
    simp [indexes, retired, rowsOf, row]
  · cases k with
    | object id =>
      have listed : v.objects id ≠ none → id ∈ cat.objects := by
        intro some_
        obtain ⟨o, row⟩ := Option.ne_none_iff_exists'.mp some_
        exact (covers.objects id o row).1
      simp only [rowsOf, View.mapObjects, retired, List.mem_map, RowKey.object.injEq,
        exists_eq_right, supersededIDs, List.mem_filter]
      cases row : v.objects id with
      | none => simp
      | some o => cases current : supersededBy bucket key newID o <;> simp_all
    | _ => simp [rowsOf, View.mapObjects]

theorem returnedIDs_map {ids : List UUID} {f : (k : RowKey) → k.Version} :
    returnedIDs ((ids.map .object).map fun k => ⟨k, f k⟩) = ids := by
  simp [returnedIDs, List.filterMap_map, Function.comp_def]

theorem Covers.retire (covers : Covers cat v) (now : Time) (p : ObjectRow → Bool) :
    Covers cat (v.mapObjects p (ObjectRow.retire now)) where
  objects id o row := by
    obtain ⟨old, before, rfl⟩ := Option.map_eq_some_iff.mp row
    have listed := covers.objects id old before
    split <;> exact listed
  chunks := covers.chunks
  copies := covers.copies
  distinct := covers.distinct

theorem Covers.supersede (covers : Covers cat v) (now : Time) (bucket key : String)
    (newID : UUID) : Covers cat (v.supersede now bucket key newID) :=
  (covers.retire now _).condemnOwned _

theorem Covers.promote (covers : Covers cat v) {id : UUID} {row : ObjectRow}
    (listed : id ∈ cat.objects) (named : row.id = id) : Covers cat (v.promote id row) where
  objects id' o present := by
    by_cases same : id' = id
    · subst same
      obtain rfl : row = o := by simpa [View.promote] using present
      exact ⟨listed, named⟩
    · exact covers.objects id' o (by simpa [View.promote, same] using present)
  chunks := covers.chunks
  copies := covers.copies
  distinct := covers.distinct

/-- Alone, superseding retires the current version and condemns its copies. -/
theorem serial_supersedeCurrentVersion (covers : Covers cat v) (now : Time) (bucket key : String)
    (newID : UUID) :
    (supersedeCurrentVersion cat now bucket key newID).serial (indexes cat) (rowsOf v) =
      .ok ((), rowsOf (v.supersede now bucket key newID)) := by
  simp only [supersedeCurrentVersion, Txn.serial]
  rw [amend_retire covers]
  simp only [bind, Except.bind]
  rw [returnedIDs_map, serial_forM_enqueue (covers.retire now _)]
  refine congrArg (fun w => Except.ok ((), rowsOf w)) (View.condemnOwned_congr _ fun o => ?_)
  cases o with
  | object id =>
    rw [Owner.objectIn, View.objectWith, Bool.eq_iff_iff, decide_eq_true_eq, supersededIDs,
      List.mem_filter]
    refine and_iff_right_of_imp fun current => ?_
    obtain ⟨o, row, -⟩ := (Option.any_eq_true _ _).mp current
    exact (covers.objects id o row).1
  | part => rfl

variable {db : Database}

/-- Only a COMPLETE version of the key has its entry. -/
theorem current_of_entry {rows : Rows} {l : RowKey} {bucket key : String}
    (same : (indexes cat).entry l (rows l) = some (.current bucket key)) :
    ∃ id o, l = .object id ∧ rows (.object id) = some o ∧ currentVersion bucket key o := by
  cases l with
  | object id =>
    cases row : rows (.object id) with
    | none => simp [indexes, row] at same
    | some o =>
      simp only [indexes, row, Option.ite_none_right_eq_some, Option.some.injEq,
        Entry.current.injEq] at same
      exact ⟨id, o, rfl, row, by simp [currentVersion, same]⟩
  | part id => cases row : rows (.part id) <;> simp [indexes, row] at same
  | chunk id => cases row : rows (.chunk id) <;> simp [indexes, row] at same
  | _ => simp [indexes] at same

/-- The unique index refuses a second COMPLETE version of a key. -/
theorem violation_current (covers : Covers cat db.view) {id : UUID} {row : ObjectRow}
    (complete : row.state = .complete) :
    (indexes cat).violation (rowsOf db.view) (.object id) (some row) =
      if db.objects.rows.any (supersededBy row.bucket row.key id) then
        some (.constraint .objectsCurrentVersion)
      else none := by
  have entry : (indexes cat).entry (.object id) (some row) =
      some (.current row.bucket row.key) := by
    simp [indexes, complete]
  rw [UniqueIndex.violation, entry, Option.bind_some]
  refine if_congr ?_ rfl rfl
  simp only [List.any_eq_true, decide_eq_true_eq]
  constructor
  · rintro ⟨l, -, other, same⟩
    obtain ⟨id', o, rfl, found, current⟩ := current_of_entry same
    obtain ⟨member, rfl⟩ := Table.mem_of_find? found
    refine ⟨o, member, ?_⟩
    simp only [currentVersion, Bool.and_eq_true, decide_eq_true_eq] at current
    simp only [ne_eq, RowKey.object.injEq] at other
    simp [supersededBy, current, other]
  · rintro ⟨o, member, current⟩
    have found : db.view.objects o.id = some o := Table.find?_of_mem member
    simp only [supersededBy, Bool.and_eq_true, decide_eq_true_eq] at current
    refine ⟨.object o.id, ?_, ?_, ?_⟩
    · exact List.mem_append_left _ (List.mem_append_left _
        (List.mem_map_of_mem (covers.objects _ _ found).1))
    · simpa using current.2
    · simp [indexes, rowsOf, found, current]

theorem rowsOf_promote (id : UUID) (row : ObjectRow) :
    rowsOf (v.promote id row) = Function.update (rowsOf v) (.object id) (some row) := by
  funext k
  cases k with
  | object id' =>
    by_cases same : id' = id
    · subst same
      simp [rowsOf, View.promote]
    · simp [rowsOf, View.promote, same]
  | _ => simp [rowsOf, View.promote]

/-- Alone, the promotion does what the store operation does. -/
theorem serial_promoteObject (covers : Covers cat db.view) (now : Time) (id : UUID)
    (sizeBytes chunkCount : Int) (etag : String) :
    (promoteObject now id sizeBytes chunkCount etag).serial (indexes cat) (rowsOf db.view) =
      (Metadata.promoteObject now id sizeBytes chunkCount etag db).map fun x =>
        (x.1, rowsOf x.2.view) := by
  cases found : db.view.objects id with
  | none =>
    have absent : rowsOf db.view (.object id) = none := found
    have refused : Metadata.promoteObject now id sizeBytes chunkCount etag db =
        .error .noRows := by
      rw [Metadata.promoteObject, bind_eq_error]
      exact Or.inl (lookup_eq_error.mpr ⟨found, rfl⟩)
    rw [refused, promoteObject, Txn.serial, absent]
    rfl
  | some row =>
    have present : rowsOf db.view (.object id) = some row := found
    have listed : (if (rowsOf db.view (.object id)).isSome then [RowKey.object id] else []) =
        [.object id] := by
      rw [present]
      rfl
    rw [promoteObject, Txn.serial, listed]
    by_cases natural : 0 ≤ sizeBytes ∧ 0 ≤ chunkCount
    · simp only [amend, present, natural, and_self, if_true, updateObject,
        violation_current covers]
      by_cases rival : db.objects.rows.any (supersededBy row.bucket row.key id)
      · have refused : Metadata.promoteObject now id sizeBytes chunkCount etag db =
            .error (.constraint .objectsCurrentVersion) := by
          simp only [Metadata.promoteObject, bind_eq_error, require_eq_error, require_eq_ok,
            lookup_eq_ok]
          exact Or.inr ⟨row, found, Or.inr ⟨(), natural, Or.inl ⟨not_not.mpr rival, trivial⟩⟩⟩
        rw [refused, if_pos rival]
        rfl
      · obtain ⟨db', h⟩ : ∃ db', Metadata.promoteObject now id sizeBytes chunkCount etag db =
            .ok (scanObject (row.finish now sizeBytes.toNat chunkCount.toNat etag), db') := by
          simp only [Metadata.promoteObject, bind_eq_ok, require_eq_ok, lookup_eq_ok,
            pure_eq_ok, Prod.mk.injEq]
          exact ⟨_, row, found, (), natural, (), rival, rfl, rfl⟩
        obtain ⟨row', found', -, -, -, view⟩ := promoteObject_ok h
        obtain rfl : row = row' := Option.some.inj (found.symm.trans found')
        rw [h, if_neg rival, Except.map, view, rowsOf_promote]
        rfl
    · have refused : Metadata.promoteObject now id sizeBytes chunkCount etag db =
          .error (.constraint .check) := by
        simp only [Metadata.promoteObject, bind_eq_error, require_eq_error, lookup_eq_ok]
        exact Or.inr ⟨row, found, Or.inl ⟨natural, trivial⟩⟩
      simp only [amend, present, natural, if_false, refused]
      rfl

theorem perm_chunksOf (covers : Covers cat db.view) (owner : Owner) :
    (cat.chunksOf (rowsOf db.view) owner).Perm (Metadata.chunksOf owner db) := by
  refine List.Perm.filter _ (Table.perm_filterMap_find? covers.distinct.2.1 fun c member => ?_)
  exact covers.chunks c.id c (Table.find?_of_mem member)

theorem allCommitted_iff (covers : Covers cat db.view) {owner : Owner} {chunkCount : Int} :
    allCommitted cat owner chunkCount (rowsOf db.view) ↔
      Metadata.allCommitted owner chunkCount db := by
  have perm := perm_chunksOf covers owner
  simp only [allCommitted, Metadata.allCommitted, Bool.and_eq_true, decide_eq_true_eq,
    perm.length_eq, (perm.filter _).length_eq]

/-- Alone, the overwriting part of a completion supersedes and promotes. -/
theorem serial_overwrite (covers : Covers cat db.view) (r : Completion) (row : ObjectRow) :
    (overwrite cat r row).serial (indexes cat) (rowsOf db.view) =
      (Metadata.promoteObject r.now r.objectID r.sizeBytes r.chunkCount r.etag
        (Metadata.supersedeCurrentVersion r.now row.bucket row.key r.objectID db)).map fun x =>
          (x.1, rowsOf x.2.view) := by
  have superseded : Covers cat
      (Metadata.supersedeCurrentVersion r.now row.bucket row.key r.objectID db).view := by
    rw [view_supersedeCurrentVersion]
    exact covers.supersede ..
  rw [overwrite, Txn.serial_bind, serial_supersedeCurrentVersion covers,
    ← view_supersedeCurrentVersion]
  exact serial_promoteObject superseded ..

/-- What is left of the store operation once the version has been validated. -/
theorem completeUpload_of_valid {r : Completion} {row : ObjectRow}
    (found : db.view.objects r.objectID = some row) (uploading : row.state = .uploading)
    (committed : Metadata.allCommitted (.object r.objectID) r.chunkCount db) :
    Metadata.completeUpload r.now r.objectID r.sizeBytes r.chunkCount r.etag db =
      Metadata.promoteObject r.now r.objectID r.sizeBytes r.chunkCount r.etag
        (Metadata.supersedeCurrentVersion r.now row.bucket row.key r.objectID db) := by
  have held : db.objects.find? r.objectID = some row := found
  simp only [Metadata.completeUpload, held, lookup, require, committed, if_true, bind,
    Except.bind, uploading]

/-- Alone, the program of `CompleteUpload` does what the store operation does. -/
theorem serial_completeUpload (covers : Covers cat db.view) (r : Completion) :
    (completeUpload cat r).serial (indexes cat) (rowsOf db.view) =
      (Metadata.completeUpload r.now r.objectID r.sizeBytes r.chunkCount r.etag db).map fun x =>
        (x.1, rowsOf x.2.view) := by
  have looked : rowsOf db.view (.object r.objectID) = db.objects.find? r.objectID := rfl
  rw [completeUpload, Txn.serial, looked]
  cases found : db.objects.find? r.objectID with
  | none =>
    rw [Metadata.completeUpload, found]
    rfl
  | some row =>
    by_cases uploading : row.state = .uploading
    · simp only [uploading, if_true, validate, Txn.serial]
      by_cases committed : Metadata.allCommitted (.object r.objectID) r.chunkCount db
      · rw [completeUpload_of_valid found uploading committed,
          if_pos ((allCommitted_iff covers).mpr committed), serial_overwrite covers]
      · simp only [Metadata.completeUpload, found, lookup, require, uploading, committed, if_true,
          mt (allCommitted_iff covers).mp committed, if_false, bind, Except.bind]
        rfl
    · simp only [Metadata.completeUpload, found, lookup, require, uploading, if_false, bind,
        Except.bind]
      rfl

end Serial

section Avoidance

variable {cat} {busy : RowKey → Prop} (objects : ∀ k, busy k → ∃ id, k = .object id)

include objects

theorem avoids_condemnCopies {mine : Rows → UUID → Bool} (rows : Rows) :
    (condemnCopies cat mine).Avoids (indexes cat) busy rows := by
  refine ⟨fun k member taken => ?_, fun r _ => ⟨fun k member taken => ?_, fun r _ => trivial⟩⟩
  all_goals
    obtain ⟨id, rfl⟩ := objects k taken
    simp at member

theorem avoids_forM_enqueue (ids : List UUID) (rows : Rows) :
    (forM ids (enqueueObjectChunkDeletions cat)).Avoids (indexes cat) busy rows := by
  induction ids generalizing rows with
  | nil => trivial
  | cons id rest ih =>
    rw [List.forM_cons]
    exact Txn.avoids_bind (avoids_condemnCopies objects rows) fun r _ => ih r.2

/-- Overwriting leaves alone what is neither the new version nor a current one. -/
theorem avoids_overwrite {r : Completion} {row : ObjectRow} {rows : Rows}
    (mine : ¬busy (.object r.objectID))
    (current : ∀ id, busy (.object id) →
      ¬(rows (.object id)).any (supersededBy row.bucket row.key r.objectID)) :
    (overwrite cat r row).Avoids (indexes cat) busy rows := by
  refine Txn.avoids_bind ⟨fun k member taken => ?_, fun _ _ => avoids_forM_enqueue objects _ _⟩
    fun x _ => ⟨fun k member => ?_, fun y _ => ?_⟩
  · obtain ⟨id, listed, rfl⟩ := List.mem_map.mp member
    exact current id taken (List.mem_filter.mp listed).2
  · dsimp only at member
    split at member
    · rw [List.mem_singleton.mp member]
      exact mine
    · exact absurd member List.not_mem_nil
  · dsimp only
    split <;> trivial

end Avoidance

end FlexStore.Metadata.Concurrent
