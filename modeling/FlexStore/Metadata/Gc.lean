import FlexStore.Metadata.View

/-!
# Garbage collection

The deletion queue hands out leased jobs, and a job is finished, put off or given
up. Purging removes the rows of chunks and objects whose files are all gone, and
then the sessions that have nothing left to say.
-/

namespace FlexStore.Metadata

open Relational Transition

variable {db db' : Database} {limit : Nat}

/-- A queue row as a worker receives it. A node that is gone has no address. -/
def scanDeletion (db : Database) (d : DeletionRow) : PendingDeletion where
  id := d.id
  chunkID := d.chunkID
  nodeID := d.nodeID
  address := nullString ((db.nodes.find? d.nodeID).map (·.grpcAddress))
  attempts := d.attempts

/-- The due deletion jobs, the longest waiting first. -/
def dueDeletions (now : Time) (limit : Nat) (db : Database) : List DeletionRow :=
  ((db.deletions.table.select fun d => d.nextAttemptAt ≤ now).insertionSort
    fun a b => a.nextAttemptAt ≤ b.nextAttemptAt).take limit

def claimDeletions (now : Time) (limit : Nat) (lease : Duration) (db : Database) :
    List PendingDeletion × Database :=
  let due := dueDeletions now limit db
  let claim := fun d : DeletionRow =>
    { d with attempts := d.attempts + 1, nextAttemptAt := now + lease }
  (due.map fun d => scanDeletion db (claim d),
    { db with deletions := db.deletions.updateWhere (fun d => d.id ∈ due.map (·.id)) claim })

theorem view_updateDeletions {p : DeletionRow → Bool} {f : DeletionRow → DeletionRow}
    {keep : ∀ d, (f d).key = d.key} {number : ∀ d, (f d).id = d.id} :
    { db with deletions := db.deletions.updateWhere p f keep number }.view = db.view := by
  refine View.ext rfl rfl rfl rfl rfl (funext₂ fun c n => Slot.ext rfl ?_)
  change ((db.deletions.table.updateWhere p f keep).find? (c, n)).isSome =
    (db.deletions.table.find? (c, n)).isSome
  rw [Table.find?_updateWhere, Option.isSome_map]

theorem view_claimDeletions (now : Time) (limit : Nat) (lease : Duration) (db : Database) :
    (claimDeletions now limit lease db).2.view = db.view :=
  view_updateDeletions

def jobPair (db : Database) (id : Nat) : Option (UUID × NodeID) :=
  (db.deletions.table.rows.find? (·.id = id)).map (·.key)

/-- Numbers identify jobs. -/
theorem jobPair_eq_some {d : DeletionRow} {id : Nat} (h : d ∈ db.deletions.table.rows) :
    jobPair db id = some d.key ↔ d.id = id := by
  constructor
  · intro pair
    obtain ⟨e, found, same⟩ := Option.map_eq_some_iff.mp pair
    rw [← Table.eq_of_key (List.mem_of_find?_eq_some found) h same]
    simpa using List.find?_some found
  · rintro rfl
    cases found : db.deletions.table.rows.find? fun e => decide (e.id = d.id) with
    | none => simpa using List.find?_eq_none.mp found d h
    | some e =>
      have same : e.id = d.id := by simpa using List.find?_some found
      have member := List.mem_of_find?_eq_some found
      rw [jobPair, found, List.inj_on_of_nodup_map db.deletions.ids member h same]
      rfl

/-- The removal of one pair leaves the queue. -/
def View.dequeue (v : View) (pair : Option (UUID × NodeID)) : View :=
  { v with slots := fun c n =>
      { v.slots c n with queued := (v.slots c n).queued && pair ≠ some (c, n) } }

theorem view_deleteDeletions {p : DeletionRow → Bool} {pair : Option (UUID × NodeID)}
    (selects : ∀ d ∈ db.deletions.table.rows, p d = true ↔ pair = some d.key) :
    { db with deletions := db.deletions.deleteWhere p }.view = db.view.dequeue pair := by
  refine View.ext rfl rfl rfl rfl rfl (funext₂ fun c n => Slot.ext rfl ?_)
  change ((db.deletions.table.deleteWhere p).find? (c, n)).isSome =
    ((db.deletions.table.find? (c, n)).isSome && decide (pair ≠ some (c, n)))
  rw [Table.find?_deleteWhere]
  cases found : db.deletions.table.find? (c, n) with
  | none => rfl
  | some d =>
    obtain ⟨member, same⟩ := Table.mem_of_find? found
    have exact_ := selects d member
    rw [same] at exact_
    by_cases h : p d = true
    · simp [h, exact_.mp h]
    · have other : pair ≠ some (c, n) := fun equal => h (exact_.mpr equal)
      simp [h, other]

/-- Removes a completed deletion job and its replica row. -/
def finishDeletion (id : Nat) (chunkID : UUID) (nodeID : NodeID) (db : Database) : Database :=
  let db := db.deleteReplicas fun r => r.chunkID = chunkID && r.nodeID = nodeID
  { db with deletions := db.deletions.deleteWhere (·.id = id) }

theorem view_finishDeletion (id : Nat) (chunkID : UUID) (nodeID : NodeID) (db : Database) :
    (finishDeletion id chunkID nodeID db).view = (db.view.dropReplicas
      fun c n _ => c = chunkID && n = nodeID).dequeue (jobPair db id) := by
  rw [finishDeletion, ← view_deleteReplicas fun c n _ => c = chunkID && n = nodeID]
  refine view_deleteDeletions fun d member => ?_
  rw [decide_eq_true_eq]
  have pair : jobPair db id = some d.key ↔ d.id = id := jobPair_eq_some member
  exact pair.symm

/-- Records a failed attempt. At the cap the job is given up together with its DELETING
replica row; below it the job is put off. -/
def failDeletion (now : Time) (id : Nat) (cause : String) (backoff : Duration)
    (maxAttempts : Int) (db : Database) : Result Database := do
  let expired := fun d : DeletionRow => d.id = id && maxAttempts ≤ d.attempts
  match (db.deletions.table.select expired).head? with
  | some job =>
    let db := { db with deletions := db.deletions.deleteWhere expired }
    pure (db.deleteReplicas fun r =>
      r.chunkID = job.chunkID && r.nodeID = job.nodeID && r.state = .deleting)
  | none => do
    let cause ← truncate cause 500
    pure { db with
      deletions := db.deletions.updateWhere (·.id = id) fun d =>
        { d with lastError := some cause, nextAttemptAt := now + backoff } }

theorem failDeletion_ok {now : Time} {id : Nat} {cause : String} {backoff : Duration}
    {maxAttempts : Int} (h : failDeletion now id cause backoff maxAttempts db = .ok db') :
    db'.view = db.view ∨ ∃ c n, jobPair db id = some (c, n) ∧
      db'.view = (db.view.dequeue (some (c, n))).dropReplicas
        fun c' n' s => c' = c && n' = n && s = .deleting := by
  simp only [failDeletion] at h
  split at h
  next job head =>
    obtain ⟨member, expired⟩ := List.mem_filter.mp (List.mem_of_head? head)
    obtain ⟨numbered, old⟩ : job.id = id ∧ maxAttempts ≤ job.attempts := by simpa using expired
    have pair : jobPair db id = some (job.chunkID, job.nodeID) :=
      (jobPair_eq_some member).mpr numbered
    refine Or.inr ⟨job.chunkID, job.nodeID, pair, ?_⟩
    rw [← pure_eq_ok.mp h, view_deleteReplicas fun c n s =>
      c = job.chunkID && n = job.nodeID && s = .deleting, view_deleteDeletions]
    intro d inTable
    rw [← pair, jobPair_eq_some inTable]
    simp only [Bool.and_eq_true, decide_eq_true_eq, and_iff_left_iff_imp]
    rintro same
    rwa [List.inj_on_of_nodup_map db.deletions.ids inTable member (same.trans numbered.symm)]
  next =>
    simp only [bind_eq_ok, pure_eq_ok] at h
    obtain ⟨text, -, rfl⟩ := h
    exact Or.inl view_updateDeletions

/-- No replica row and no queued deletion mentions the chunk. -/
def fullyReclaimed (db : Database) (c : UUID) : Bool :=
  !db.replicas.rows.any (·.chunkID = c) && !db.deletions.table.rows.any (·.chunkID = c)

/-- An ORPHANED chunk that is fully reclaimed. -/
def purgeableChunk (db : Database) (c : ChunkRow) : Bool :=
  c.state = .orphaned && fullyReclaimed db c.id

/-- A DELETING or FAILED object whose chunks are all fully reclaimed. -/
def purgeableObject (db : Database) (o : ObjectRow) : Bool :=
  (o.state = .deleting || o.state = .failed) &&
    db.chunks.rows.all fun c => c.owner ≠ .object o.id || fullyReclaimed db c.id

/-- The rows that a `LIMIT` without an order lets through, `pick` being the order in which
the planner met them. -/
def limited (pick : List UUID) (eligible : UUID → Bool) (limit : Nat) : List UUID :=
  (pick.dedup.filter eligible).take limit

theorem eligible_of_mem_limited {pick : List UUID} {eligible : UUID → Bool} {id : UUID}
    (h : id ∈ limited pick eligible limit) : eligible id :=
  (List.mem_filter.mp (List.mem_of_mem_take h)).2

/-- Removes reclaimed chunk rows, then objects all of whose chunks are reclaimed, which
takes their remaining chunk rows with them. -/
def purgeReclaimedChunks (limit : Nat) (pickChunks pickObjects : List UUID) (db : Database) :
    (Nat × Nat) × Database :=
  let chunks := limited pickChunks (fun c => (db.chunks.find? c).any (purgeableChunk db)) limit
  let db := db.deleteChunks fun c => c.id ∈ chunks
  let objects := limited pickObjects (fun o => (db.objects.find? o).any (purgeableObject db)) limit
  ((chunks.length, objects.length), db.deleteObjects fun o => o.id ∈ objects)

/-- A closed session that is old enough and whose parts own no chunk. -/
def purgeableUpload (now : Time) (olderThan : Duration) (db : Database)
    (u : MultipartUploadRow) : Bool :=
  (u.state = .completed || u.state = .aborted) && u.updatedAt < now - olderThan &&
    db.chunks.rows.all fun c => match c.owner with
      | .object _ => true
      | .part id => !(db.parts.find? id).any (·.uploadID = u.id)

/-- Removes finished sessions once their parts carry no chunks. -/
def purgeCompletedMultipartUploads (now : Time) (olderThan : Duration) (limit : Nat)
    (pick : List UUID) (db : Database) : Nat × Database :=
  let uploads := limited pick
    (fun u => (db.uploads.find? u).any (purgeableUpload now olderThan db)) limit
  (uploads.length, db.deleteUploads fun u => u.id ∈ uploads)

/-- The selected chunk rows are removed, and the foreign keys take their copies along. -/
def View.removeChunks (v : View) (p : ChunkRow → Bool) : View :=
  { v with
    chunks := fun c => (v.chunks c).filter fun row => !p row
    slots := fun c n =>
      if (v.chunks c).any p then { v.slots c n with replica := none } else v.slots c n }

theorem View.removeChunks_of_bare {v : View} {p : ChunkRow → Bool}
    (bare : ∀ c row, v.chunks c = some row → p row → ∀ n, (v.slots c n).replica = none) :
    v.removeChunks p = { v with chunks := fun c => (v.chunks c).filter fun row => !p row } := by
  refine View.ext rfl rfl rfl rfl rfl (funext₂ fun c n => ?_)
  change (if (v.chunks c).any p then _ else _) = v.slots c n
  split
  next gone =>
    obtain ⟨row, found, selected⟩ := (Option.any_eq_true _ _).mp gone
    exact Slot.ext (bare c row found selected n).symm rfl
  next => rfl

theorem view_deleteChunks (p : ChunkRow → Bool) (db : Database) :
    (db.deleteChunks p).view = db.view.removeChunks p := by
  have copies : (db.deleteReplicas fun r => (db.chunks.find? r.chunkID).any p).view =
      db.view.dropReplicas fun c _ _ => (db.chunks.find? c).any p :=
    view_deleteReplicas fun c _ _ => (db.chunks.find? c).any p
  refine View.ext rfl rfl rfl rfl (funext fun c => Table.find?_deleteWhere _ _ _)
    (funext₂ fun c n => ?_)
  refine (congrFun₂ (congrArg View.slots copies) c n).trans ?_
  change Slot.mk ((db.view.slots c n).replica.filter fun _ => !(db.view.chunks c).any p) _ =
    if (db.view.chunks c).any p then _ else _
  cases gone : (db.view.chunks c).any p
  · refine Slot.ext ?_ rfl
    cases state : (db.view.slots c n).replica <;> simp [state, Option.filter_some]
  · simp

theorem slot_of_fullyReclaimed {c : UUID} (h : fullyReclaimed db c) (n : NodeID) :
    db.view.slots c n = ⟨none, false⟩ := by
  simp only [fullyReclaimed, Bool.and_eq_true, Bool.not_eq_true', List.any_eq_false,
    decide_eq_true_eq] at h
  refine Slot.ext ?_ ?_
  · change (db.replicas.find? (c, n)).map (·.state) = none
    rw [Option.map_eq_none_iff, Table.find?_eq_none]
    intro r member same
    exact h.1 r member (Prod.mk.inj same).1
  · change (db.deletions.table.find? (c, n)).isSome = false
    rw [Option.isSome_eq_false_iff, Option.isNone_iff_eq_none, Table.find?_eq_none]
    intro d member same
    exact h.2 d member (Prod.mk.inj same).1

/-- The selected objects are removed with their chunks and forgotten by their sessions. -/
theorem view_deleteObjects (p : ObjectRow → Bool) (db : Database) :
    (db.deleteObjects p).view = { (db.view.removeChunks fun c =>
        db.view.objectWith p c.owner).mapUploads
          (fun u => u.objectID.any fun o => (db.view.objects o).any p)
          (fun u => { u with objectID := none }) with
      objects := fun o => (db.view.objects o).filter fun row => !p row } := by
  have owned : (fun c : ChunkRow => match c.owner with
      | .object id => (db.objects.find? id).any p
      | .part _ => false) = fun c => db.view.objectWith p c.owner := by
    funext c
    cases c.owner <;> rfl
  have chunks := view_deleteChunks (fun c => db.view.objectWith p c.owner) db
  rw [← owned] at chunks ⊢
  rw [← chunks]
  exact View.ext rfl (funext fun _ => Table.find?_deleteWhere _ _ _) Table.find?_updateWhere_eq
    rfl rfl rfl

/-- What a purge of reclaimed rows removed: ORPHANED chunks and the chunks of dead
objects, none of which had a copy or a queued removal left, and dead objects. -/
theorem view_purgeReclaimedChunks {pickChunks pickObjects : List UUID} {n : Nat × Nat}
    (h : purgeReclaimedChunks limit pickChunks pickObjects db = (n, db')) :
    ∃ (chunk : ChunkRow → Bool) (object : ObjectRow → Bool),
      (∀ c row, db.view.chunks c = some row → chunk row → row.state = .orphaned) ∧
      (∀ o row, db.view.objects o = some row → object row →
        row.state = .deleting ∨ row.state = .failed) ∧
      (∀ c row, db.view.chunks c = some row → chunk row ∨ db.view.objectWith object row.owner →
        ∀ n, db.view.slots c n = ⟨none, false⟩) ∧
      db'.view = { db.view.mapUploads
          (fun u => u.objectID.any fun o => (db.view.objects o).any object)
          (fun u => { u with objectID := none }) with
        chunks := fun c => (db.view.chunks c).filter fun row =>
          !chunk row && !db.view.objectWith object row.owner
        objects := fun o => (db.view.objects o).filter fun row => !object row } := by
  obtain ⟨-, rfl⟩ := Prod.mk.inj h
  set chunks := limited pickChunks (fun c => (db.chunks.find? c).any (purgeableChunk db)) limit
  have purgeable : ∀ c row, db.view.chunks c = some row → row.id ∈ chunks →
      row.state = .orphaned ∧ fullyReclaimed db c := by
    intro c row found chosen
    have mine : row.id = c := (Table.mem_of_find? found).2
    have eligible := eligible_of_mem_limited chosen
    rw [mine, show db.chunks.find? c = some row from found] at eligible
    simpa [purgeableChunk, mine] using eligible
  have bare : ∀ c row, db.view.chunks c = some row → row.id ∈ chunks →
      ∀ n, db.view.slots c n = ⟨none, false⟩ :=
    fun c row found chosen n => slot_of_fullyReclaimed (purgeable c row found chosen).2 n
  have first : (db.deleteChunks fun c => c.id ∈ chunks).view = { db.view with
      chunks := fun c => (db.view.chunks c).filter fun row => !decide (row.id ∈ chunks) } := by
    rw [view_deleteChunks, View.removeChunks_of_bare]
    intro c row found chosen n
    exact congrArg Slot.replica (bare c row found (of_decide_eq_true chosen) n)
  set middle := db.deleteChunks fun c => c.id ∈ chunks
  set objects := limited pickObjects
    (fun o => (middle.objects.find? o).any (purgeableObject middle)) limit
  have dead : ∀ o row, db.view.objects o = some row → row.id ∈ objects →
      purgeableObject middle row := by
    intro o row found chosen
    have mine : row.id = o := (Table.mem_of_find? found).2
    have eligible := eligible_of_mem_limited chosen
    rw [mine, show middle.objects.find? o = some row from found] at eligible
    simpa using eligible
  -- A chunk that goes with its object was inspected when the object was picked.
  have owned : ∀ c row, middle.view.chunks c = some row →
      middle.view.objectWith (fun o => o.id ∈ objects) row.owner →
      ∀ n, middle.view.slots c n = ⟨none, false⟩ := by
    intro c row found chosen n
    cases owner : row.owner with
    | part => simp [View.objectWith, owner] at chosen
    | object o =>
      simp only [View.objectWith, owner] at chosen
      obtain ⟨object, present, picked⟩ := (Option.any_eq_true _ _).mp chosen
      have mine : object.id = o := (Table.mem_of_find? present).2
      have all := dead o object present (of_decide_eq_true picked)
      simp only [purgeableObject, Bool.and_eq_true, List.all_eq_true] at all
      have reclaimed := all.2 row (Table.mem_of_find? found).1
      rw [owner, mine, (Table.mem_of_find? found).2] at reclaimed
      exact slot_of_fullyReclaimed (by simpa using reclaimed) n
  refine ⟨fun c => c.id ∈ chunks, fun o => o.id ∈ objects, ?_, ?_, ?_, ?_⟩
  · intro c row found chosen
    exact (purgeable c row found (of_decide_eq_true chosen)).1
  · intro o row found chosen
    have state := dead o row found (of_decide_eq_true chosen)
    simp only [purgeableObject, Bool.and_eq_true, Bool.or_eq_true, decide_eq_true_eq] at state
    exact state.1
  · intro c row found chosen n
    by_cases picked : row.id ∈ chunks
    · exact bare c row found picked n
    · have kept : middle.view.chunks c = some row := by simp [first, found, picked]
      have objects_ : middle.view.objects = db.view.objects := by rw [first]
      have copies := owned c row kept
      rw [View.objectWith_congr objects_, congrArg View.slots first] at copies
      exact copies (by simpa [picked] using chosen) n
  · rw [view_deleteObjects, View.removeChunks_of_bare fun c row found chosen n =>
      congrArg Slot.replica (owned c row found chosen n), first]
    refine View.ext rfl rfl rfl rfl (funext fun c => ?_) rfl
    exact Option.filter_filter

/-- The selected sessions are removed with their parts and the chunks of those. -/
theorem view_deleteUploads (p : MultipartUploadRow → Bool) (db : Database) :
    (db.deleteUploads p).view = { (db.view.removeChunks fun c => db.view.partWith
        (fun part => (db.view.uploads part.uploadID).any p) c.owner) with
      uploads := fun u => (db.view.uploads u).filter fun row => !p row
      parts := fun x => (db.view.parts x).filter fun row =>
        !(db.view.uploads row.uploadID).any p } := by
  have owned : (fun c : ChunkRow => match c.owner with
      | .object _ => false
      | .part id => (db.parts.find? id).any fun part => (db.uploads.find? part.uploadID).any p) =
      fun c => db.view.partWith (fun part => (db.view.uploads part.uploadID).any p) c.owner := by
    funext c
    cases c.owner <;> rfl
  have chunks := view_deleteChunks (fun c => db.view.partWith
    (fun part => (db.view.uploads part.uploadID).any p) c.owner) db
  rw [← owned] at chunks ⊢
  rw [← chunks]
  exact View.ext rfl rfl (funext fun _ => Table.find?_deleteWhere _ _ _)
    (funext fun _ => Table.find?_deleteWhere _ _ _) rfl rfl

/-- What a purge of finished sessions removed: closed sessions whose parts own nothing. -/
theorem view_purgeCompletedMultipartUploads {now : Time} {olderThan : Duration} {n : Nat}
    {pick : List UUID} (h : purgeCompletedMultipartUploads now olderThan limit pick db = (n, db')) :
    ∃ upload : MultipartUploadRow → Bool,
      (∀ u row, db.view.uploads u = some row → upload row → row.state ≠ .inProgress) ∧
      (∀ c row, db.view.chunks c = some row → db.view.partWith
        (fun part => (db.view.uploads part.uploadID).any upload) row.owner = false) ∧
      db'.view = { db.view with
        uploads := fun u => (db.view.uploads u).filter fun row => !upload row
        parts := fun x => (db.view.parts x).filter fun row =>
          !(db.view.uploads row.uploadID).any upload } := by
  obtain ⟨-, rfl⟩ := Prod.mk.inj h
  set uploads := limited pick
    (fun u => (db.uploads.find? u).any (purgeableUpload now olderThan db)) limit
  have eligible : ∀ u row, db.view.uploads u = some row → row.id ∈ uploads →
      purgeableUpload now olderThan db row := by
    intro u row found chosen
    have mine : row.id = u := (Table.mem_of_find? found).2
    have picked := eligible_of_mem_limited chosen
    rw [mine, show db.uploads.find? u = some row from found] at picked
    simpa using picked
  have unused : ∀ c row, db.view.chunks c = some row → db.view.partWith
      (fun part => (db.view.uploads part.uploadID).any fun u => u.id ∈ uploads)
        row.owner = false := by
    intro c row found
    rw [Bool.eq_false_iff]
    intro chosen
    cases owner : row.owner with
    | object => simp [View.partWith, owner] at chosen
    | part x =>
      simp only [View.partWith, owner] at chosen
      obtain ⟨part, present, chosen⟩ := (Option.any_eq_true _ _).mp chosen
      obtain ⟨u, session, picked⟩ := (Option.any_eq_true _ _).mp chosen
      have mine : u.id = part.uploadID := (Table.mem_of_find? session).2
      have purgeable := eligible _ u session (of_decide_eq_true picked)
      simp only [purgeableUpload, Bool.and_eq_true, List.all_eq_true] at purgeable
      have empty := purgeable.2 row (Table.mem_of_find? found).1
      rw [owner] at empty
      simp [show db.parts.find? x = some part from present, mine] at empty
  refine ⟨fun u => u.id ∈ uploads, ?_, unused, ?_⟩
  · intro u row found chosen open_
    have purgeable := eligible u row found (of_decide_eq_true chosen)
    simp [purgeableUpload, open_] at purgeable
  rw [view_deleteUploads, View.removeChunks_of_bare]
  · refine View.ext rfl rfl rfl rfl (funext fun c => ?_) rfl
    change (db.view.chunks c).filter _ = db.view.chunks c
    cases found : db.view.chunks c with
    | none => rfl
    | some row => rw [Option.filter_some, unused c row found]; rfl
  · intro c row found chosen
    rw [unused c row found] at chosen
    exact absurd chosen (by decide)

end FlexStore.Metadata
