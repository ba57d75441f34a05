import FlexStore.Metadata.Lifecycle
import FlexStore.Metadata.Sessions

/-!
# Version numbers

A new version of a key gets the number after the largest one. `BeginUpload` and
`CompleteMultipartUpload` read that number in one statement and insert the row in another,
and no unique index covers the pair of key and number. Called one after the other they never
give the same number twice. Interleaved, two of them can read the same number before either
has inserted its row, unless one that reads the number comes to its end before the next one
reads it.
-/

namespace FlexStore.Metadata

open Relational Transition

def ObjectRow.label (o : ObjectRow) : String × String × Nat := (o.bucket, o.key, o.version)

/-- The versions of a key have different numbers. -/
def VersionsDistinct (objects : UUID → Option ObjectRow) : Prop :=
  ∀ a b x y, objects a = some x → objects b = some y → x.label = y.label → a = b

/-- The number is above those of all other versions of the key. -/
def Above (objects : UUID → Option ObjectRow) (row : ObjectRow) : Prop :=
  ∀ a x, objects a = some x → x.bucket = row.bucket → x.key = row.key → x.version < row.version

theorem Above.label_ne {objects : UUID → Option ObjectRow} {row x : ObjectRow} {a : UUID}
    (above : Above objects row) (found : objects a = some x) : x.label ≠ row.label := by
  intro same
  simp only [ObjectRow.label, Prod.mk.injEq] at same
  exact (above a x found same.1 same.2.1).ne same.2.2

theorem VersionsDistinct.update {objects : UUID → Option ObjectRow}
    (distinct : VersionsDistinct objects) {id : UUID} {row : ObjectRow}
    (above : Above objects row) : VersionsDistinct (Function.update objects id (some row)) := by
  intro a b x y first second same
  by_cases new : a = id
  · by_cases new' : b = id
    · rw [new, new']
    · subst new
      rw [Function.update_self] at first
      rw [Function.update_of_ne new'] at second
      obtain rfl := Option.some.inj first
      exact absurd same.symm (above.label_ne second)
  · rw [Function.update_of_ne new] at first
    by_cases new' : b = id
    · subst new'
      rw [Function.update_self] at second
      obtain rfl := Option.some.inj second
      exact absurd same (above.label_ne first)
    · rw [Function.update_of_ne new'] at second
      exact distinct a b x y first second same

theorem le_foldl_max {l : List Nat} {n m : Nat} (h : n ≤ m ∨ n ∈ l) : n ≤ l.foldl max m := by
  induction l generalizing m with
  | nil => exact h.resolve_right List.not_mem_nil
  | cons a rest ih =>
    refine ih ?_
    rcases h with small | member
    · exact Or.inl (le_max_of_le_left small)
    · rcases List.mem_cons.mp member with rfl | later
      · exact Or.inl (le_max_right _ _)
      · exact Or.inr later

section Calls

variable {row : ObjectRow} {id : UUID}

variable {db db' : Database}

theorem above_of_next (next : row.version = nextVersion row.bucket row.key db) :
    Above db.view.objects row := by
  intro id o found bucket key
  rw [next]
  refine Nat.lt_succ_of_le (le_foldl_max (Or.inr (List.mem_map_of_mem ?_)))
  exact List.mem_filter.mpr ⟨(Table.mem_of_find? found).1, by simp [bucket, key]⟩

/-- The id that a call brings along for a new object. -/
def Op.creates : Op → Option UUID
  | .beginUpload id .. => some id
  | .completeMultipartUpload objectID .. => some objectID
  | _ => none

/-- A row that a call creates has the next number of its key. -/
theorem Change.created {op : Op} {r : Reply} (change : Change db db' op r) {call : Call}
    (called : call.op = op) (h : exec call db = .ok (r, db')) (fresh : db.view.objects id = none)
    (found : db'.view.objects id = some row) :
    op.creates = some id ∧ row.version = nextVersion row.bucket row.key db := by
  cases change with
  | begun k bucket key contentType chunkSize =>
    obtain ⟨now, _⟩ := call
    subst called
    simp only [exec, answer_eq_ok] at h
    obtain ⟨obj, h, -⟩ := h
    obtain ⟨-, view⟩ := beginUpload_ok h
    rw [view] at found
    by_cases same : id = k
    · subst same
      simp only [Function.update_self, Option.some.injEq] at found
      rw [← found]
      exact ⟨rfl, rfl⟩
    · simp [same, fresh] at found
  | assembled k uploadID expected now session new size count etag middle _ _ _ row_ _ _ _ _ promoted
      view =>
    rw [view, promoted] at found
    by_cases same : id = k
    · subst same
      simp only [View.reclaim, View.condemnOwned, View.condemn, View.promote,
        Function.update_self, Option.some.injEq] at found
      rw [← found, row_]
      exact ⟨rfl, rfl⟩
    · simp [View.reclaim, View.condemnOwned, View.condemn, View.promote, View.supersede,
        View.mapObjects, View.assemble, row_, newObject, same, fresh] at found
  | completed k _ _ _ now old present _ _ _ _ view =>
    rw [view] at found
    by_cases same : id = k
    · subst same
      rw [present] at fresh
      cases fresh
    · simp [View.promote, View.supersede, View.condemnOwned, View.condemn, View.mapObjects, same,
        fresh] at found
  | healthSet _ health _ view =>
    have rows : db'.view.objects id = db.view.objects id := by
      rw [view]
      split <;> rfl
    rw [rows, fresh] at found
    cases found
  | _ =>
    rename db'.view = _ => view
    have rows := congrFun (congrArg View.objects view) id
    rw [found] at rows
    simp [View.mapObjects, View.mapUploads, View.reclaim, View.condemnOwned, View.condemn,
      View.acknowledge, View.demoteNode, View.mapReplicas, View.setReplicas, View.restartPart,
      View.mapParts, View.abortSessions, View.enqueue, View.dropReplicas, View.dequeue,
      fresh] at rows

/-- A row that was there before keeps its key and its number. -/
theorem ObjectMove.label {op : Op} {r : Reply} {x y : ObjectRow}
    (move : ObjectMove db db' op r id (some x) (some y)) : x.label = y.label := by
  cases move <;> rfl

theorem versionsDistinct_step {call : Call} (distinct : VersionsDistinct db.view.objects) :
    VersionsDistinct (step db call).view.objects := by
  refine step_cases (R := fun db' => VersionsDistinct db'.view.objects) distinct
    fun reply db' h => ?_
  have change := exec_change h
  have old {id : UUID} {x y : ObjectRow} (before : db.view.objects id = some x)
      (after : db'.view.objects id = some y) : x.label = y.label := by
    have move := change.object_move id
    rw [before, after] at move
    exact move.label
  intro a b x y first second same
  cases before : db.view.objects a with
  | none =>
    obtain ⟨creates, next⟩ := change.created rfl h before first
    cases before' : db.view.objects b with
    | none =>
      exact Option.some.inj (creates.symm.trans (change.created rfl h before' second).1)
    | some y' =>
      refine absurd ?_ ((above_of_next next).label_ne before')
      rw [old before' second, same]
  | some x' =>
    cases before' : db.view.objects b with
    | none =>
      refine absurd ?_ ((above_of_next (change.created rfl h before' second).2).label_ne before)
      rw [old before first, same]
    | some y' =>
      refine distinct a b x' y' before before' ?_
      rw [old before first, old before' second, same]

theorem versionsDistinct_run (calls : List Call) :
    VersionsDistinct (run step Database.empty calls).view.objects := by
  refine run_preserved (P := fun db : Database => VersionsDistinct db.view.objects)
    (fun _ _ => versionsDistinct_step) ?_ calls
  intro a b x y found
  simp [Database.view, Database.empty] at found

end Calls

namespace Concurrent

/-- A transaction that creates a version of a key. -/
inductive VersionRequest where
  | upload (r : UploadStart)
  | assembly (r : AssemblyRequest)

namespace VersionRequest

def objectID : VersionRequest → UUID
  | upload r => r.objectID
  | assembly r => r.objectID

def program (cat : Catalog) : VersionRequest → Program Object
  | upload r => beginUpload cat r
  | assembly r => do
    let x ← completeMultipartUpload cat r
    pure x.1

end VersionRequest

/-- The statements up to the one that computes the number. -/
def Statement.unnumbered : Statement → Bool
  | .lockUpload | .loadParts | .countInFlightParts | .computeVersion | .computeNextVersion => true
  | _ => false

/-- The statement computes the number of a new version. -/
def Statement.numbers : Statement → Bool
  | .computeVersion | .computeNextVersion => true
  | _ => false

/-- The rows of a database, with the objects that will be created. -/
def numberingCatalog {n : Nat} (db : Database) (requests : Fin n → VersionRequest) : Catalog :=
  { Catalog.of db with
    objects := (Catalog.of db).objects ++ List.ofFn fun t => (requests t).objectID }

/-- The transactions are about to start. -/
def numbering {n : Nat} (db : Database) (requests : Fin n → VersionRequest) :
    System (Fin n) RowKey.Version Statement StoreError Object :=
  .start (fun t => (requests t).program (numberingCatalog db requests)) (rowsOf db.view)

/-- The versions have different numbers, and the catalog lists them. -/
structure Numbered (cat : Catalog) (rows : Rows) : Prop where
  listed : ∀ id o, rows (.object id) = some o → id ∈ cat.objects
  distinct : VersionsDistinct fun id => rows (.object id)

/-- The statement leaves the key and the number of a version alone. -/
def KeepsLabel : (k : RowKey) → k.Version → k.Version → Prop
  | .object _, old, new => new.map ObjectRow.label = old.map ObjectRow.label
  | _, _, _ => True

theorem KeepsLabel.refl (k : RowKey) (v : k.Version) : KeepsLabel k v v := by
  cases k <;> trivial

theorem KeepsLabel.trans (k : RowKey) (u v w : k.Version) (first : KeepsLabel k u v)
    (second : KeepsLabel k v w) : KeepsLabel k u w := by
  cases k with
  | object => exact Eq.trans second first
  | _ => trivial

variable {cat : Catalog} {rows rows' : Rows}

theorem Numbered.kept (numbered : Numbered cat rows)
    (kept : ∀ k, KeepsLabel k (rows k) (rows' k)) : Numbered cat rows' := by
  have before {id : UUID} {o : ObjectRow} (found : rows' (.object id) = some o) :
      ∃ old, rows (.object id) = some old ∧ old.label = o.label := by
    have same : (rows' (.object id)).map ObjectRow.label =
        (rows (.object id)).map ObjectRow.label := kept (.object id)
    rw [found] at same
    exact Option.map_eq_some_iff.mp same.symm
  refine ⟨fun id o found => ?_, fun a b x y first second same => ?_⟩
  · obtain ⟨old, found', -⟩ := before found
    exact numbered.listed id old found'
  · obtain ⟨x', first', label⟩ := before first
    obtain ⟨y', second', label'⟩ := before second
    exact numbered.distinct a b x' y' first' second' (by rw [label, label', same])

/-- A new row with the next number joins the others. -/
theorem Numbered.insert (numbered : Numbered cat rows) {id : UUID} (listed : id ∈ cat.objects)
    {row : ObjectRow} (next : row.version = nextVersion cat row.bucket row.key rows) :
    Numbered cat (Function.update rows (.object id) (some row)) where
  listed k o found := by
    by_cases same : k = id
    · rw [same]
      exact listed
    · refine numbered.listed k o ?_
      rwa [Function.update_of_ne (by simpa using same)] at found
  distinct := by
    have rewritten : (fun k => Function.update rows (.object id) (some row) (.object k)) =
        Function.update (fun k => rows (.object k)) id (some row) := by
      funext k
      by_cases same : k = id
      · subst same
        simp
      · simp [same]
    rw [rewritten]
    refine numbered.distinct.update fun a x found bucket key => ?_
    rw [next]
    refine Nat.lt_succ_of_le (le_foldl_max (Or.inr (List.mem_map_of_mem ?_)))
    refine List.mem_filter.mpr ⟨?_, by simp [bucket, key]⟩
    exact List.mem_filterMap.mpr ⟨a, numbered.listed a x found, found⟩

section Statements

/-- What an accepted insertion does. -/
theorem amend_insertObject {id : UUID} {row : ObjectRow}
    {r : List ((k : RowKey) × k.Version) × Rows}
    (h : amend (indexes cat) (insertObject row) [.object id] [] rows = .ok r) :
    r.2 = Function.update rows (.object id) (some row) := by
  rw [amend] at h
  cases old : rows (.object id) with
  | some o =>
    rw [old] at h
    cases h
  | none =>
    rw [old] at h
    simp only [insertObject] at h
    split at h
    · cases h
    · cases h
      rfl

/-- Once the new row is there, an assembly leaves the numbers alone. -/
theorem writes_reparentChunks (r : AssemblyRequest) (session : MultipartUploadRow)
    (parts : List PartRow) : (reparentChunks cat r session parts).Writes KeepsLabel := by
  refine ⟨fun _ _ _ _ h => updateChunk_writes (fun _ _ _ => trivial) h, fun touched => ?_⟩
  have jobs (c : UUID) (n : NodeID) (old new : Bool) : KeepsLabel (.job c n) old new := trivial
  have copies (c : UUID) (n : NodeID) (old new : Option ReplicaState) :
      KeepsLabel (.replica c n) old new := trivial
  dsimp only
  split
  · refine Txn.writes_bind (writes_supersedeCurrentVersion jobs copies fun _ _ => rfl) fun _ =>
      Txn.writes_bind (writes_promoteObject fun _ _ => rfl) fun _ =>
        Txn.writes_bind (writes_closeSession jobs copies ?_ ?_) fun _ => trivial
    · exact fun _ _ _ => trivial
    · exact fun _ _ => trivial
  · trivial

theorem uses_condemnCopies (mine : Rows → UUID → Bool) :
    (condemnCopies cat mine).Uses (·.unnumbered = false) :=
  ⟨rfl, fun _ => ⟨rfl, fun _ => trivial⟩⟩

theorem uses_publish (r : AssemblyRequest) (session : MultipartUploadRow) (parts : List PartRow) :
    (publish cat r session parts).Uses (·.unnumbered = false) := by
  refine Txn.uses_bind ⟨rfl, fun touched => ?_⟩ fun _ =>
    Txn.uses_bind ⟨rfl, fun touched => ?_⟩ fun _ => Txn.uses_bind ?_ fun _ => trivial
  · exact Txn.uses_forM (fun _ => uses_condemnCopies _) _
  · dsimp only
    split <;> trivial
  · exact Txn.uses_bind (uses_condemnCopies _) fun _ => ⟨rfl, fun _ => ⟨rfl, fun _ => trivial⟩⟩

theorem uses_reparentChunks (r : AssemblyRequest) (session : MultipartUploadRow)
    (parts : List PartRow) : (reparentChunks cat r session parts).Uses (·.unnumbered = false) := by
  refine ⟨rfl, fun touched => ?_⟩
  dsimp only
  split
  · exact uses_publish r session parts
  · trivial

end Statements

section Programs

variable {r : AssemblyRequest}

abbrev Prepares (cat : Catalog) {α : Type} (p : Program α) : Prop :=
  p.Prepares (indexes cat) Statement.unnumbered Statement.numbers (Numbered cat)

/-- A transaction that inserts a row with the next number and then leaves the numbers alone. -/
theorem Numbered.serial_insert {α : Type} {a : α} {id : UUID} {row : ObjectRow}
    {rest : List ((k : RowKey) × k.Version) → Program α} (numbered : Numbered cat rows)
    (listed : id ∈ cat.objects) (next : row.version = nextVersion cat row.bucket row.key rows)
    (writes : ∀ touched, (rest touched).Writes KeepsLabel)
    (h : (amend (indexes cat) (insertObject row) [.object id] [] rows >>= fun x =>
      (rest x.1).serial (indexes cat) x.2) = .ok (a, rows')) : Numbered cat rows' := by
  cases inserted : amend (indexes cat) (insertObject row) [.object id] [] rows with
  | error e =>
    rw [inserted] at h
    cases h
  | ok x =>
    rw [inserted] at h
    have after : Numbered cat x.2 := by
      rw [amend_insertObject inserted]
      exact numbered.insert listed next
    exact after.kept (Txn.serial_writes KeepsLabel.refl KeepsLabel.trans (writes x.1) h)

theorem prepares_beginUpload {r : UploadStart} (listed : r.objectID ∈ cat.objects) :
    Prepares cat (beginUpload cat r) := by
  refine Txn.prepares_entry rfl rfl (fun rows => ⟨rfl, fun touched => ?_⟩)
    fun rows a rows' numbered h => ?_
  · rw [scanReturned.eq_def]
    split <;> trivial
  · simp only [Txn.serial] at h
    by_cases sized : 0 < r.chunkSize
    · simp only [sized, if_true] at h
      refine numbered.serial_insert listed rfl (fun touched => ?_) h
      rw [scanReturned.eq_def]
      split <;> trivial
    · simp only [sized, if_false] at h
      cases h

theorem prepares_assemble (listed : r.objectID ∈ cat.objects) (session : MultipartUploadRow)
    (parts : List PartRow) : Prepares cat (assemble cat r session parts) := by
  refine Txn.prepares_entry rfl rfl (fun rows => ⟨rfl, fun _ => uses_reparentChunks ..⟩)
    fun rows a rows' numbered h => ?_
  exact numbered.serial_insert listed rfl (fun _ => writes_reparentChunks ..) h

theorem prepares_listParts (listed : r.objectID ∈ cat.objects) (session : MultipartUploadRow) :
    Prepares cat (listParts cat r session) := by
  have accept (parts : List PartRow) : Prepares cat (do
      let obj ← acceptParts cat r session parts
      pure (obj, parts)) := by
    refine Txn.prepares_bind ?_ fun obj => ⟨(obj, parts), rfl⟩
    rw [acceptParts]
    split
    · exact prepares_assemble listed session parts
    · trivial
  refine Txn.prepares_select rfl rfl fun rows => ?_
  dsimp only
  split
  · refine Txn.prepares_select rfl rfl fun rows' => ?_
    split
    · trivial
    · exact accept _
  · exact accept _

theorem prepares_completeMultipartUpload (listed : r.objectID ∈ cat.objects) :
    Prepares cat (completeMultipartUpload cat r) := by
  refine ⟨rfl, rfl, fun row => ?_⟩
  cases row with
  | none => trivial
  | some session =>
    dsimp only
    split
    · exact prepares_listParts listed session
    · trivial

theorem VersionRequest.prepares {request : VersionRequest}
    (listed : request.objectID ∈ cat.objects) : Prepares cat (request.program cat) := by
  cases request with
  | upload r => exact prepares_beginUpload listed
  | assembly r =>
    exact Txn.prepares_bind (prepares_completeMultipartUpload listed) fun x => ⟨x.1, rfl⟩

end Programs

/-- In every interleaving of transactions that create versions, in which one computes its number
only while no other one has computed its own and not ended, the versions of a key have different
numbers at any time. -/
theorem version_numbers_distinct {n : Nat} {calls : List Call} {db : Database}
    {requests : Fin n → VersionRequest} (reached : run Metadata.step Database.empty calls = db)
    {schedule : List (Fin n)}
    (allowed : Guarded (System.step (indexes (numberingCatalog db requests)))
      (System.OneAtATime Statement.unnumbered Statement.numbers) (numbering db requests) schedule) :
    Always (System.step (indexes (numberingCatalog db requests)))
      (fun s => VersionsDistinct fun id => s.store.committed (.object id))
      (numbering db requests) schedule := by
  have prepares (t : Fin n) : Prepares (numberingCatalog db requests)
      ((requests t).program (numberingCatalog db requests)) :=
    VersionRequest.prepares (List.mem_append_right _ (List.mem_ofFn.mpr ⟨t, rfl⟩))
  have start : Numbered (numberingCatalog db requests) (rowsOf db.view) := by
    subst reached
    refine ⟨fun id o found => List.mem_append_left _ ?_, versionsDistinct_run calls⟩
    exact ((covers_of _).objects id o found).1
  exact (System.always_committed prepares start allowed).mono fun _ numbered => numbered.distinct

def twoStarts : Fin 2 → VersionRequest
  | 0 => .upload ⟨1, 1, "b", "k", "", 8⟩
  | 1 => .upload ⟨2, 2, "b", "k", "", 8⟩

theorem version_numbers_distinct_inTurn :
    Always (System.step (indexes (numberingCatalog Database.empty twoStarts)))
      (fun s => VersionsDistinct fun id => s.store.committed (.object id))
      (numbering Database.empty twoStarts) [0, 0, 0, 0, 0, 1, 1, 1, 1, 1] :=
  @version_numbers_distinct 2 [] _ _ rfl _ (by decide +kernel)

/-- Two uploads that compute their number at the same time get the same one. -/
theorem version_numbers_collide :
    ((run (System.step (indexes (numberingCatalog Database.empty twoStarts)))
      (numbering Database.empty twoStarts) [0, 1, 0, 0, 0, 0, 1, 1, 1, 1]).store.committed
        (.object 1)).map ObjectRow.label = some ("b", "k", 1) ∧
    ((run (System.step (indexes (numberingCatalog Database.empty twoStarts)))
      (numbering Database.empty twoStarts) [0, 1, 0, 0, 0, 0, 1, 1, 1, 1]).store.committed
        (.object 2)).map ObjectRow.label = some ("b", "k", 1) := by
  decide +kernel

end Concurrent

end FlexStore.Metadata
