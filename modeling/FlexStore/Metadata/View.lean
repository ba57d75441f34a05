import FlexStore.Metadata.Database

/-!
# The database as partial functions

Every claim about a run is about lookups: which row an id has, which state a copy
is in, whether its removal is queued. `Database.view` forgets everything else: row
order, the denormalised counter, timestamps of the queue, the job tables. The
statements of the schema become updates of partial functions, and an update that
leaves a component out leaves it unchanged, so a frame condition is never stated.

A `Slot` is what the rows say about one copy of one chunk on one node.
-/

namespace FlexStore.Metadata

open Relational

/-- The recorded state of a copy, if any, and whether its removal is queued. -/
@[ext] structure Slot where
  replica : Option ReplicaState
  queued : Bool
  deriving DecidableEq, Repr

/-- The lookups that a database answers. -/
@[ext] structure View where
  nodes : NodeID → Option NodeRow
  objects : UUID → Option ObjectRow
  uploads : UUID → Option MultipartUploadRow
  parts : UUID → Option PartRow
  chunks : UUID → Option ChunkRow
  slots : UUID → NodeID → Slot

def Database.view (db : Database) : View where
  nodes := db.nodes.find?
  objects := db.objects.find?
  uploads := db.uploads.find?
  parts := db.parts.find?
  chunks := db.chunks.find?
  slots c n := ⟨db.replicaState c n, db.queued c n⟩

namespace Slot

/-- The owner of the chunk has died: the copy is DELETING and, unless it already was,
its removal is queued. -/
def condemn (s : Slot) : Slot where
  replica := s.replica.map fun _ => .deleting
  queued := s.queued || s.replica.any (· ≠ .deleting)

@[simp] theorem condemn_condemn (s : Slot) : s.condemn.condemn = s.condemn := by
  rcases s with ⟨replica, queued⟩
  cases replica <;> simp [condemn]

theorem condemn_of_none {s : Slot} (empty : s.replica = none) : s.condemn = s := by
  ext <;> simp [condemn, empty]

theorem condemn_available (s : Slot) : s.condemn.replica ≠ some .available := by
  cases h : s.replica <;> simp [condemn, h]

end Slot

/-- The row of a chunk whose owner has been given up. -/
@[reducible] def ChunkRow.orphan (c : ChunkRow) : ChunkRow := { c with state := .orphaned }

theorem ChunkRow.id_orphan (c : ChunkRow) : c.orphan.id = c.id := rfl

namespace View

/-- Condemn every copy of the selected chunks. -/
def condemn (v : View) (chunk : UUID → Bool) : View :=
  { v with slots := fun c n => if chunk c then (v.slots c n).condemn else v.slots c n }

/-- Change the recorded state of every copy by a rule. -/
def mapReplicas (v : View) (f : UUID → NodeID → ReplicaState → ReplicaState) : View :=
  { v with slots := fun c n =>
      { v.slots c n with replica := (v.slots c n).replica.map (f c n) } }

/-- Forget the recorded state of the copies a rule selects. -/
def dropReplicas (v : View) (p : UUID → NodeID → ReplicaState → Bool) : View :=
  { v with slots := fun c n =>
      { v.slots c n with replica := (v.slots c n).replica.filter fun s => !p c n s } }

/-- Record a state for the copies of one chunk on the listed nodes. -/
def setReplicas (v : View) (c : UUID) (nodes : List NodeID) (s : ReplicaState) : View :=
  { v with slots := fun c' n =>
      if c = c' ∧ n ∈ nodes then { v.slots c' n with replica := some s } else v.slots c' n }

/-- Queue the removal of the selected copies. -/
def enqueue (v : View) (p : UUID → NodeID → Bool) : View :=
  { v with slots := fun c n => { v.slots c n with queued := (v.slots c n).queued || p c n } }

/-- Rewrite the selected rows of one table. -/
def mapObjects (v : View) (p : ObjectRow → Bool) (f : ObjectRow → ObjectRow) : View :=
  { v with objects := fun id => (v.objects id).map fun o => if p o then f o else o }

@[inherit_doc mapObjects]
def mapUploads (v : View) (p : MultipartUploadRow → Bool)
    (f : MultipartUploadRow → MultipartUploadRow) : View :=
  { v with uploads := fun id => (v.uploads id).map fun u => if p u then f u else u }

@[inherit_doc mapObjects]
def mapParts (v : View) (p : PartRow → Bool) (f : PartRow → PartRow) : View :=
  { v with parts := fun id => (v.parts id).map fun x => if p x then f x else x }

@[inherit_doc mapObjects]
def mapChunks (v : View) (p : ChunkRow → Bool) (f : ChunkRow → ChunkRow) : View :=
  { v with chunks := fun id => (v.chunks id).map fun c => if p c then f c else c }

@[inherit_doc mapObjects]
def mapNodes (v : View) (p : NodeRow → Bool) (f : NodeRow → NodeRow) : View :=
  { v with nodes := fun id => (v.nodes id).map fun n => if p n then f n else n }

def referenced (v : View) (c : UUID) (n : NodeID) : Bool :=
  (v.chunks c).isSome && (v.nodes n).isSome

/-- The owner's own row accepts chunks. For a part the session is not looked at. -/
def writable (v : View) : Owner → Bool
  | .object id => (v.objects id).any (·.state = .uploading)
  | .part id => (v.parts id).any (·.state = .uploading)

/-- The chunk exists and belongs to one of the given owners. -/
def ownedBy (v : View) (p : Owner → Bool) (c : UUID) : Bool :=
  (v.chunks c).any fun row => p row.owner

/-- Condemn the copies of the chunks that belong to one of the given owners. -/
def condemnOwned (v : View) (p : Owner → Bool) : View := v.condemn (v.ownedBy p)

/-- Condemn the copies of those chunks and mark the chunks ORPHANED. -/
def reclaim (v : View) (p : Owner → Bool) : View :=
  { v.condemnOwned p with
    chunks := fun c => (v.chunks c).map fun row => if p row.owner then row.orphan else row }

/-- The owner is an object that satisfies a condition. -/
def objectWith (v : View) (p : ObjectRow → Bool) : Owner → Bool
  | .object id => (v.objects id).any p
  | .part _ => false

/-- The owner is a part that satisfies a condition. -/
def partWith (v : View) (p : PartRow → Bool) : Owner → Bool
  | .object _ => false
  | .part id => (v.parts id).any p

theorem objectWith_congr {v w : View} (same : v.objects = w.objects) (p : ObjectRow → Bool)
    (o : Owner) : v.objectWith p o = w.objectWith p o := by
  cases o <;> simp [objectWith, same]

theorem condemnOwned_congr (v : View) {p q : Owner → Bool} (same : ∀ o, p o = q o) :
    v.condemnOwned p = v.condemnOwned q := by
  rw [funext same]

theorem condemnOwned_false (v : View) {p : Owner → Bool} (none : ∀ o, p o = false) :
    v.condemnOwned p = v := by
  refine View.ext rfl rfl rfl rfl rfl (funext₂ fun c n => ?_)
  simp [condemnOwned, condemn, ownedBy, none]

theorem condemnOwned_condemnOwned (v : View) (p q : Owner → Bool) :
    (v.condemnOwned p).condemnOwned q = v.condemnOwned fun o => p o || q o := by
  refine View.ext rfl rfl rfl rfl rfl (funext₂ fun c n => ?_)
  cases h : v.chunks c with
  | none => simp [condemnOwned, condemn, ownedBy, h]
  | some row =>
    cases first : p row.owner <;> cases second : q row.owner <;>
      simp [condemnOwned, condemn, ownedBy, h, first, second]

theorem reclaim_false (v : View) {p : Owner → Bool} (none : ∀ o, p o = false) :
    v.reclaim p = v := by
  rw [reclaim, condemnOwned_false v none]
  simp [none]

theorem reclaim_congr (v : View) {p q : Owner → Bool} (same : ∀ o, p o = q o) :
    v.reclaim p = v.reclaim q := by
  rw [funext same]

theorem mapObjects_mapObjects (v : View) {p q r : ObjectRow → Bool} {f : ObjectRow → ObjectRow}
    (either : ∀ o, r o = (p o || q o)) (stable : ∀ o, q (f o) = q o)
    (twice : ∀ o, f (f o) = f o) : (v.mapObjects p f).mapObjects q f = v.mapObjects r f := by
  refine View.ext rfl (funext fun id => ?_) rfl rfl rfl rfl
  cases h : v.objects id with
  | none => simp [mapObjects, h]
  | some o =>
    cases first : p o <;> cases second : q o <;>
      simp [mapObjects, h, either, first, second, stable, twice]

theorem reclaim_reclaim (v : View) (p q : Owner → Bool) :
    (v.reclaim p).reclaim q = v.reclaim fun o => p o || q o := by
  refine View.ext rfl rfl rfl rfl (funext fun c => ?_) (funext₂ fun c n => ?_)
  · cases h : v.chunks c with
    | none => simp [reclaim, h]
    | some row =>
      cases first : p row.owner <;> cases second : q row.owner <;>
        simp [reclaim, h, first, second, ChunkRow.orphan]
  · cases h : v.chunks c with
    | none => simp [reclaim, condemnOwned, condemn, ownedBy, h]
    | some row =>
      cases first : p row.owner <;> cases second : q row.owner <;>
        simp [reclaim, condemnOwned, condemn, ownedBy, h, first, second, ChunkRow.orphan]

@[simp] theorem setReplicas_nil (v : View) (c : UUID) (s : ReplicaState) :
    v.setReplicas c [] s = v := by
  simp [setReplicas]

theorem setReplicas_cons (v : View) (c : UUID) (n : NodeID) (rest : List NodeID)
    (s : ReplicaState) :
    (v.setReplicas c [n] s).setReplicas c rest s = v.setReplicas c (n :: rest) s := by
  refine View.ext rfl rfl rfl rfl rfl (funext₂ fun c' n' => ?_)
  by_cases chunk : c = c' <;> by_cases head : n' = n <;> by_cases tail : n' ∈ rest <;>
    simp [setReplicas, chunk, head, tail]

end View

section Statements

variable {db : Database} {now : Time}

/-- The key of a found replica row is the pair it was looked up by. -/
theorem replica_of_find? {c : UUID} {n : NodeID} {r : ReplicaRow}
    (found : db.replicas.find? (c, n) = some r) : r ∈ db.replicas.rows ∧ r.chunkID = c ∧
      r.nodeID = n := by
  obtain ⟨member, same⟩ := Table.mem_of_find? found
  exact ⟨member, Prod.mk.inj same⟩

theorem replicaState_eq_some {c : UUID} {n : NodeID} {state : ReplicaState} :
    db.replicaState c n = some state ↔
      ∃ r ∈ db.replicas.rows, r.chunkID = c ∧ r.nodeID = n ∧ r.state = state := by
  constructor
  · intro held
    obtain ⟨r, found, same⟩ := Option.map_eq_some_iff.mp held
    obtain ⟨member, chunk, node⟩ := replica_of_find? found
    exact ⟨r, member, chunk, node, same⟩
  · rintro ⟨r, member, rfl, rfl, rfl⟩
    have found : db.replicas.find? (r.chunkID, r.nodeID) = some r := Table.find?_of_mem member
    rw [Database.replicaState, found]
    rfl

theorem view_updateObjects {p : ObjectRow → Bool} {f : ObjectRow → ObjectRow}
    {keep : ∀ o, (f o).id = o.id} :
    { db with objects := db.objects.updateWhere p f keep }.view = db.view.mapObjects p f :=
  View.ext rfl (Table.find?_updateWhere_eq keep) rfl rfl rfl rfl

theorem view_updateUploads {p : MultipartUploadRow → Bool}
    {f : MultipartUploadRow → MultipartUploadRow} {keep : ∀ u, (f u).id = u.id} :
    { db with uploads := db.uploads.updateWhere p f keep }.view = db.view.mapUploads p f :=
  View.ext rfl rfl (Table.find?_updateWhere_eq keep) rfl rfl rfl

theorem view_updateParts {p : PartRow → Bool} {f : PartRow → PartRow}
    {keep : ∀ x, (f x).id = x.id} :
    { db with parts := db.parts.updateWhere p f keep }.view = db.view.mapParts p f :=
  View.ext rfl rfl rfl (Table.find?_updateWhere_eq keep) rfl rfl

theorem view_updateChunks {p : ChunkRow → Bool} {f : ChunkRow → ChunkRow}
    {keep : ∀ c, (f c).id = c.id} :
    { db with chunks := db.chunks.updateWhere p f keep }.view = db.view.mapChunks p f :=
  View.ext rfl rfl rfl rfl (Table.find?_updateWhere_eq keep) rfl

theorem view_updateNodes {p : NodeRow → Bool} {f : NodeRow → NodeRow}
    {keep : ∀ n, (f n).id = n.id} :
    { db with nodes := db.nodes.updateWhere p f keep }.view = db.view.mapNodes p f :=
  View.ext (Table.find?_updateWhere_eq keep) rfl rfl rfl rfl rfl

theorem view_updateReplicas {p : ReplicaRow → Bool} {f : ReplicaRow → ReplicaRow}
    {keep : ∀ r, (f r).key = r.key} {s : ReplicaState}
    (q : UUID → NodeID → ReplicaState → Bool)
    (selects : ∀ r, p r = q r.chunkID r.nodeID r.state := by intro _; rfl)
    (sets : ∀ r, (f r).state = s := by intro _; rfl) :
    (db.updateReplicas p f keep).view =
      db.view.mapReplicas fun c n old => if q c n old then s else old := by
  refine View.ext rfl rfl rfl rfl rfl (funext₂ fun c n => Slot.ext ?_ rfl)
  change ((db.replicas.updateWhere p f keep).find? (c, n)).map (·.state) =
    ((db.replicas.find? (c, n)).map (·.state)).map _
  rw [Table.find?_updateWhere]
  cases found : db.replicas.find? (c, n) with
  | none => rfl
  | some r =>
    obtain ⟨-, rfl, rfl⟩ := replica_of_find? found
    by_cases h : q r.chunkID r.nodeID r.state = true <;> simp [selects, sets, h]

theorem view_setReplicaState {p : ReplicaRow → Bool} {s : ReplicaState}
    (q : UUID → NodeID → ReplicaState → Bool)
    (selects : ∀ r, p r = q r.chunkID r.nodeID r.state := by intro _; rfl) :
    (db.setReplicaState now p s).view =
      db.view.mapReplicas fun c n old => if q c n old then s else old :=
  view_updateReplicas q selects fun _ => rfl

theorem view_deleteReplicas {p : ReplicaRow → Bool} (q : UUID → NodeID → ReplicaState → Bool)
    (selects : ∀ r, p r = q r.chunkID r.nodeID r.state := by intro _; rfl) :
    (db.deleteReplicas p).view = db.view.dropReplicas q := by
  refine View.ext rfl rfl rfl rfl rfl (funext₂ fun c n => Slot.ext ?_ rfl)
  change ((db.replicas.deleteWhere p).find? (c, n)).map (·.state) =
    ((db.replicas.find? (c, n)).map (·.state)).filter _
  rw [Table.find?_deleteWhere]
  cases found : db.replicas.find? (c, n) with
  | none => rfl
  | some r =>
    obtain ⟨-, rfl, rfl⟩ := replica_of_find? found
    by_cases h : q r.chunkID r.nodeID r.state = true <;>
      simp [selects, h, Option.filter_some]

theorem view_putReplica {row : ReplicaRow} {f : ReplicaRow → ReplicaRow}
    {keep : ∀ r, (f r).key = r.key} (sets : ∀ r, (f r).state = row.state) :
    (db.putReplica row f keep).view = db.view.setReplicas row.chunkID [row.nodeID] row.state := by
  refine View.ext rfl rfl rfl rfl rfl (funext₂ fun c n => ?_)
  change Slot.mk (((db.replicas.upsert row f keep).find? (c, n)).map (·.state)) _ =
    if row.chunkID = c ∧ n ∈ [row.nodeID] then _ else _
  simp only [Table.find?_upsert, ReplicaRow.key, Prod.mk.injEq, List.mem_singleton,
    eq_comm (a := n)]
  by_cases h : row.chunkID = c ∧ row.nodeID = n
  · rw [if_pos h, if_pos h]
    refine Slot.ext ?_ rfl
    cases db.replicas.find? (c, n) <;> simp [sets]
  · rw [if_neg h, if_neg h]
    rfl

theorem view_enqueueDeletions {p : ReplicaRow → Bool} (q : UUID → NodeID → ReplicaState → Bool)
    (selects : ∀ r, p r = q r.chunkID r.nodeID r.state := by intro _; rfl) :
    (db.enqueueDeletions now (db.replicas.select p)).view =
      db.view.enqueue fun c n => (db.view.slots c n).replica.any (q c n) := by
  refine View.ext rfl rfl rfl rfl rfl (funext₂ fun c n => Slot.ext rfl ?_)
  change (db.deletions.enqueueAll now _).holds c n =
    (db.deletions.holds c n || ((db.replicas.find? (c, n)).map (·.state)).any (q c n))
  rw [DeletionQueue.holds_enqueueAll]
  congr 1
  rw [Bool.eq_iff_iff, decide_eq_true_eq, List.mem_map]
  simp only [Table.select, List.mem_filter, selects]
  constructor
  · rintro ⟨r, ⟨member, selected⟩, same⟩
    obtain ⟨rfl, rfl⟩ := Prod.mk.inj same
    have found : db.replicas.find? (r.chunkID, r.nodeID) = some r := Table.find?_of_mem member
    simp [found, selected]
  · intro selected
    cases found : db.replicas.find? (c, n) with
    | none => simp [found] at selected
    | some r =>
      obtain ⟨member, rfl, rfl⟩ := replica_of_find? found
      exact ⟨r, ⟨member, by simpa [found] using selected⟩, rfl⟩

theorem view_enqueue (c : UUID) (n : NodeID) :
    { db with deletions := db.deletions.enqueue now c n }.view =
      db.view.enqueue fun c' n' => decide (c = c' ∧ n = n') :=
  View.ext rfl rfl rfl rfl rfl
    (funext₂ fun _ _ => Slot.ext rfl (DeletionQueue.holds_enqueue _ _ _ _ _ _))

end Statements

end FlexStore.Metadata
