import FlexStore.Relational.Join
import FlexStore.Relational.Keyset
import FlexStore.Metadata.Read

/-!
# The layout query

The layout of an object comes from one query over the chunks, with their copies and the nodes
of these joined from the outside, and a loop that groups its rows by comparing neighbours.
`chunksWhere` is what the two compute together, in whatever order the database returns rows
that the query leaves unordered.

With `availableOnly` the `WHERE` clause asks for the state of the copy and the health of its
node. A chunk without a copy that can be served does not meet it, and the layout leaves it
out instead of listing it without locations.
-/

namespace FlexStore.Metadata

open Relational Transition

section Query

/-- `FROM chunks c LEFT JOIN chunk_replicas r ON r.chunk_id = c.id LEFT JOIN storage_nodes n ON
n.id = r.node_id`. -/
def joinedRows (db : Database) : List ((ChunkRow × Option ReplicaRow) × Option NodeRow) :=
  leftJoin (fun row n => row.2.map (·.nodeID) = some n.id)
    (leftJoin (fun c r => r.chunkID = c.id) db.chunks.rows db.replicas.rows) db.nodes.rows

def scanLayoutRow (row : (ChunkRow × Option ReplicaRow) × Option NodeRow) : LayoutRow where
  chunk := scanChunk row.1.1
  replica := row.1.2.map fun r =>
    { chunkID := row.1.1.id
      nodeID := r.nodeID
      address := nullString (row.2.map (·.grpcAddress))
      nodeHealth := row.2.map (·.health)
      state := r.state
      updatedAt := r.updatedAt }

/-- The rows of the query, before they are ordered. -/
def layoutQuery (where_ : ChunkRow → Bool) (availableOnly : Bool) (db : Database) :
    List LayoutRow :=
  ((joinedRows db).filter fun row => where_ row.1.1 &&
    (!availableOnly || (row.1.2.any (·.state = .available) && row.2.any (·.health ≠ .dead)))).map
      scanLayoutRow

/-- Nodes in their order, and no node after all of them. -/
def nodeLe : Option NodeID → Option NodeID → Prop
  | _, none => True
  | none, some _ => False
  | some a, some b => a ≤ b

/-- `ORDER BY c.chunk_index, r.node_id`. -/
def LayoutRow.Before (a b : LayoutRow) : Prop :=
  a.chunk.index < b.chunk.index ∨ a.chunk.index = b.chunk.index ∧
    nodeLe (a.replica.map (·.nodeID)) (b.replica.map (·.nodeID))

theorem nodeLe_antisymm {a b : Option NodeID} (le : nodeLe a b) (ge : nodeLe b a) : a = b := by
  cases a with
  | none => cases b with
    | none => rfl
    | some b => exact le.elim
  | some a => cases b with
    | none => exact ge.elim
    | some b => rw [le_antisymm (show a ≤ b from le) ge]

variable {where_ : ChunkRow → Bool} {availableOnly : Bool} {db : Database}

/-- The copy can be served: it is AVAILABLE on a node that is not DEAD. -/
def servable (db : Database) (r : ReplicaRow) : Bool :=
  r.state = .available && (db.nodes.find? r.nodeID).any (·.health ≠ .dead)

/-- The rows of one chunk, in the order of the tables. -/
def chunkRows (db : Database) (availableOnly : Bool) (c : ChunkRow) : List LayoutRow :=
  ((partners (fun (c : ChunkRow) (r : ReplicaRow) => r.chunkID = c.id) db.replicas.rows c).filter
    fun r => !availableOnly || r.any (servable db)).map fun r =>
      ⟨scanChunk c, r.map (scanReplica db)⟩

/-- The nodes add two columns, and the conditions apply to one chunk after the other. -/
theorem layoutQuery_eq (where_ : ChunkRow → Bool) (availableOnly : Bool) (db : Database) :
    layoutQuery where_ availableOnly db =
      (db.chunks.select where_).flatMap (chunkRows db availableOnly) := by
  unfold layoutQuery joinedRows
  rw [leftJoin_key _ db.nodes fun row : ChunkRow × Option ReplicaRow => row.2.map (·.nodeID),
    List.filter_map, List.map_map]
  have narrowed : (leftJoin (fun (c : ChunkRow) (r : ReplicaRow) => r.chunkID = c.id)
      db.chunks.rows db.replicas.rows).filter ((fun row => where_ row.1.1 && (!availableOnly ||
        (row.1.2.any (·.state = .available) && row.2.any (·.health ≠ .dead)))) ∘
          fun row => (row, (row.2.map (·.nodeID)).bind db.nodes.find?)) =
      (leftJoin (fun (c : ChunkRow) (r : ReplicaRow) => r.chunkID = c.id)
        (db.chunks.select where_) db.replicas.rows).filter
          fun row => !availableOnly || row.2.any (servable db) := by
    rw [Table.select, ← filter_leftJoin, List.filter_filter]
    refine List.filter_congr fun row _ => ?_
    rw [Bool.and_comm]
    obtain ⟨c, r⟩ := row
    cases r <;> rfl
  rw [narrowed, leftJoin, List.filter_flatMap, List.map_flatMap]
  congr 1
  funext c
  rw [List.filter_map, List.map_map]
  refine List.map_congr_left fun r listed => ?_
  cases r with
  | none => rfl
  | some r =>
    have same := (on_of_mem_partners _ _ (List.mem_filter.mp listed).1).2
    rw [decide_eq_true_eq] at same
    simp only [Function.comp_apply, scanLayoutRow, scanReplica, Option.map_some, same]
    rfl

/-- The model's rows of a chunk are those, with the copies in node order. -/
theorem layoutRows_perm (db : Database) (availableOnly : Bool) (c : ChunkRow) :
    (layoutRows db availableOnly c).Perm (chunkRows db availableOnly c) := by
  unfold layoutRows chunkRows
  cases availableOnly with
  | true =>
    simp only [Bool.or_true, if_true, Bool.not_true, Bool.false_or]
    rw [filter_any_partners, List.map_map]
    refine ((List.perm_insertionSort _ _).map _).trans (List.Perm.of_eq ?_)
    rw [Table.select]
    congr 1
    refine List.filter_congr fun r _ => ?_
    simp [servable, Bool.and_comm]
  | false =>
    simp only [Bool.or_false, Bool.not_false, Bool.true_or, List.filter_true]
    unfold partners
    split_ifs
    · rw [List.map_map]
      refine ((List.perm_insertionSort _ _).map _).trans (List.Perm.of_eq ?_)
      rw [Table.select]
      congr 1
      refine List.filter_congr fun r _ => ?_
      simp
    · rfl

/-- The model's rows are the rows of the query. -/
theorem flatMap_layoutRows_perm (where_ : ChunkRow → Bool) (availableOnly : Bool)
    (db : Database) :
    ((selectedChunks where_ db).flatMap (layoutRows db availableOnly)).Perm
      (layoutQuery where_ availableOnly db) := by
  rw [layoutQuery_eq]
  exact (List.perm_insertionSort _ _).flatMap fun c _ => layoutRows_perm db availableOnly c

/-- What the rows of a chunk hold. -/
theorem mem_layoutRows {c : ChunkRow} {row : LayoutRow}
    (listed : row ∈ layoutRows db availableOnly c) :
    row.chunk = scanChunk c ∧ ∀ copy, row.replica = some copy →
      ∃ r ∈ db.replicas.rows, r.chunkID = c.id ∧ copy = scanReplica db r := by
  obtain ⟨r, joined, rfl⟩ := List.mem_map.mp ((layoutRows_perm _ _ _).mem_iff.mp listed)
  refine ⟨rfl, fun copy held => ?_⟩
  obtain ⟨r, rfl, rfl⟩ := Option.map_eq_some_iff.mp held
  obtain ⟨inTable, same⟩ := on_of_mem_partners _ _ (List.mem_filter.mp joined).1
  exact ⟨r, inTable, of_decide_eq_true same, rfl⟩

/-- The copies of a chunk come in node order. -/
theorem pairwise_layoutRows (c : ChunkRow) :
    (layoutRows db availableOnly c).Pairwise LayoutRow.Before := by
  unfold layoutRows
  split_ifs
  · refine List.pairwise_map.mpr ?_
    have total : Std.Total fun a b : ReplicaRow => a.nodeID ≤ b.nodeID := ⟨fun a b => le_total _ _⟩
    have trans : IsTrans ReplicaRow fun a b => a.nodeID ≤ b.nodeID := ⟨fun _ _ _ => le_trans⟩
    refine (List.pairwise_insertionSort _ _).imp fun {a b} le => Or.inr ⟨rfl, ?_⟩
    exact le
  · exact List.pairwise_singleton _ _

section Ordered

variable (unique : ∀ a ∈ db.chunks.select where_, ∀ b ∈ db.chunks.select where_,
  a.index = b.index → a = b)

include unique

theorem pairwise_flatMap_layoutRows :
    ((selectedChunks where_ db).flatMap (layoutRows db availableOnly)).Pairwise
      LayoutRow.Before := by
  refine List.pairwise_flatMap.mpr ⟨fun c _ => pairwise_layoutRows c, ?_⟩
  refine (Keyset.pairwise_lt_sorted unique (Table.nodup_select _ _).of_map).imp ?_
  intro a b below row first row' second
  left
  rw [(mem_layoutRows first).1, (mem_layoutRows second).1]
  exact below

/-- The order leaves no two rows undecided. -/
theorem before_antisymm {a b : LayoutRow}
    (first : a ∈ (selectedChunks where_ db).flatMap (layoutRows db availableOnly))
    (second : b ∈ (selectedChunks where_ db).flatMap (layoutRows db availableOnly))
    (le : a.Before b) (ge : b.Before a) : a = b := by
  obtain ⟨c, selected, listed⟩ := List.mem_flatMap.mp first
  obtain ⟨c', selected', listed'⟩ := List.mem_flatMap.mp second
  obtain ⟨chunk, copies⟩ := mem_layoutRows listed
  obtain ⟨chunk', copies'⟩ := mem_layoutRows listed'
  obtain ⟨index, nodes⟩ : a.chunk.index = b.chunk.index ∧
      a.replica.map (·.nodeID) = b.replica.map (·.nodeID) := by
    obtain below | ⟨index, le⟩ := le
    · obtain above | ⟨index, -⟩ := ge <;> omega
    · obtain above | ⟨-, ge⟩ := ge
      · omega
      · exact ⟨index, nodeLe_antisymm le ge⟩
  have same : c = c' := by
    rw [chunk, chunk'] at index
    exact unique c ((List.mem_insertionSort _).mp selected) c'
      ((List.mem_insertionSort _).mp selected') index
  subst same
  obtain ⟨ca, ra⟩ := a
  obtain ⟨cb, rb⟩ := b
  obtain rfl : ca = cb := chunk.trans chunk'.symm
  cases ra with
  | none => cases rb with
    | none => rfl
    | some y => cases nodes
  | some x => cases rb with
    | none => cases nodes
    | some y =>
      obtain ⟨r, inTable, mine, rfl⟩ := copies x rfl
      obtain ⟨r', inTable', mine', rfl⟩ := copies' y rfl
      have key : r.key = r'.key := Prod.ext (mine.trans mine'.symm) (Option.some.inj nodes)
      rw [Table.eq_of_key inTable inTable' key]

/-- The loop over the rows of the query, in any order that the query allows, computes the
layout, if no two of the chunks share an index. -/
theorem foldl_layoutQuery {rows : List LayoutRow}
    (answer : rows.Perm (layoutQuery where_ availableOnly db))
    (ordered : rows.Pairwise LayoutRow.Before) :
    rows.foldl groupRows [] = chunksWhere where_ availableOnly db := by
  have same := answer.trans (flatMap_layoutRows_perm where_ availableOnly db).symm
  rw [List.Perm.eq_of_pairwise ?_ ordered (pairwise_flatMap_layoutRows unique) same]
  · rfl
  · intro a b first second le ge
    exact before_antisymm unique (same.mem_iff.mp first) second le ge

end Ordered

end Query

def committedChunk (objectID : UUID) (c : ChunkRow) : Bool :=
  c.owner = .object objectID && c.state = .committed

/-- Every committed chunk of the object once and in index order, with exactly its copies that
can be served, in node order. -/
structure FullLayout (objectID : UUID) (db : Database) (layout : List ChunkWithReplicas) :
    Prop where
  chunks : (layout.map (·.chunk)).Perm ((db.chunks.select (committedChunk objectID)).map scanChunk)
  ordered : layout.Pairwise fun a b => a.chunk.index ≤ b.chunk.index
  copies : ∀ entry ∈ layout, entry.replicas.Perm ((db.replicas.select fun r =>
    r.chunkID = entry.chunk.id && servable db r).map (scanReplica db))
  nodes : ∀ entry ∈ layout, entry.replicas.Pairwise fun a b => a.nodeID ≤ b.nodeID

def hasServable (db : Database) (c : ChunkRow) : Prop :=
  ∃ r ∈ db.replicas.rows, r.chunkID = c.id ∧ servable db r

/-- The layout is full, and the object is refused only if its count of chunks is wrong. -/
def ReadsAll (obj : Object) (db : Database) : Prop :=
  FullLayout obj.id db (chunksForObject obj.id true db) ∧
    (getLayout obj db = .error .conflict →
      (db.chunks.select (committedChunk obj.id)).length ≠ obj.chunkCount)

section Full

variable {db : Database} {objectID : UUID}

theorem joinedReplicas_perm (db : Database) (c : UUID) :
    (joinedReplicas db true c).Perm
      (db.replicas.select fun r => r.chunkID = c && servable db r) := by
  refine (List.perm_insertionSort _ _).trans (List.Perm.of_eq ?_)
  rfl

theorem joinedReplicas_ne_nil {c : ChunkRow} :
    joinedReplicas db true c.id ≠ [] ↔ hasServable db c := by
  rw [ne_eq, joinedReplicas_eq_nil_iff]
  simp [hasServable, servable]

/-- In every reachable database, what the loop makes of the query is the object's layout. -/
theorem foldl_layoutQuery_object (consistent : db.view.Consistent) {availableOnly : Bool}
    {rows : List LayoutRow}
    (answer : rows.Perm (layoutQuery (committedChunk objectID) availableOnly db))
    (ordered : rows.Pairwise LayoutRow.Before) :
    rows.foldl groupRows [] = chunksForObject objectID availableOnly db := by
  refine foldl_layoutQuery (fun a first b second index => ?_) answer ordered
  obtain ⟨inTable, mine⟩ := List.mem_filter.mp first
  obtain ⟨inTable', mine'⟩ := List.mem_filter.mp second
  simp only [Bool.and_eq_true, decide_eq_true_eq] at mine mine'
  refine Table.eq_of_key inTable inTable' ?_
  exact consistent.index (Table.find?_of_mem inTable) (Table.find?_of_mem inTable')
    (mine.1.trans mine'.1.symm) index

/-- The layout lists the chunks that can be served. -/
theorem chunksForObject_available (objectID : UUID) (db : Database) :
    chunksForObject objectID true db =
      (selectedChunks (committedChunk objectID) db).filterMap (layoutEntry db) :=
  chunksWhere_available _ db

/-- If all of them can be served, it lists all of them. -/
theorem chunksForObject_eq_map
    (served : ∀ c ∈ db.chunks.select (committedChunk objectID), hasServable db c) :
    chunksForObject objectID true db =
      (selectedChunks (committedChunk objectID) db).map (servedEntry db) := by
  rw [chunksForObject_available, ← List.filterMap_eq_map]
  refine List.filterMap_congr fun c listed => ?_
  have selected := (List.mem_insertionSort _).mp listed
  rw [layoutEntry, if_neg (joinedReplicas_ne_nil.mpr (served c selected))]
  rfl

theorem fullLayout_map (objectID : UUID) (db : Database) :
    FullLayout objectID db
      ((selectedChunks (committedChunk objectID) db).map (servedEntry db)) where
  chunks := by
    rw [List.map_map]
    exact (List.perm_insertionSort _ _).map scanChunk
  ordered := List.pairwise_map.mpr (Keyset.pairwise_sorted _ _)
  copies := by
    intro entry listed
    obtain ⟨c, -, rfl⟩ := List.mem_map.mp listed
    exact (joinedReplicas_perm db c.id).map _
  nodes := by
    intro entry listed
    obtain ⟨c, -, rfl⟩ := List.mem_map.mp listed
    exact List.pairwise_map.mpr (Keyset.pairwise_sorted ReplicaRow.nodeID _)

/-- A read finds all chunks of an object, and is refused only for a wrong count, exactly if
each of them has an AVAILABLE copy on a node that is not DEAD. -/
theorem readsAll_iff (obj : Object) (db : Database) :
    ReadsAll obj db ↔ ∀ c ∈ db.chunks.select (committedChunk obj.id), hasServable db c := by
  constructor
  · rintro ⟨full, -⟩ c selected
    have listed := full.chunks.mem_iff.mpr (List.mem_map_of_mem selected)
    obtain ⟨entry, inLayout, same⟩ := List.mem_map.mp listed
    rw [chunksForObject_available] at inLayout
    obtain ⟨c', -, made⟩ := List.mem_filterMap.mp inLayout
    unfold layoutEntry at made
    split_ifs at made with empty
    cases made
    have id : c'.id = c.id := congrArg Chunk.id same
    rw [id] at empty
    exact joinedReplicas_ne_nil.mp empty
  · intro served
    have all := chunksForObject_eq_map served
    refine ⟨all ▸ fullLayout_map obj.id db, fun refused count => ?_⟩
    have length : (chunksForObject obj.id true db).length = obj.chunkCount := by
      rw [all, List.length_map, ← count]
      exact List.length_insertionSort _ _
    rw [getLayout_eq_ok.mpr ⟨length, rfl, rfl⟩] at refused
    cases refused

/-- An object of two chunks on two nodes, one of which dies. -/
def halfDead : List Call :=
  [⟨0, .upsertNode "n1" "n1:9000" .healthy {} 0⟩, ⟨0, .upsertNode "n2" "n2:9000" .healthy {} 0⟩,
    ⟨1, .beginUpload 1 "b" "k" "" 8⟩, ⟨2, .reserveChunk 10 ⟨some 1, none⟩ 0 8⟩,
    ⟨3, .recordChunkTargets 10 ["n1"]⟩, ⟨4, .commitChunk 10 5 8 ["n1"] [] 1⟩,
    ⟨5, .reserveChunk 11 ⟨some 1, none⟩ 1 8⟩, ⟨6, .recordChunkTargets 11 ["n2"]⟩,
    ⟨7, .commitChunk 11 6 8 ["n2"] [] 1⟩, ⟨8, .completeUpload 1 16 2 "e"⟩,
    ⟨9, .setNodeHealth "n2" .dead⟩]

theorem foldl_layoutQuery_halfDead :
    (layoutQuery (committedChunk 1) true (run step Database.empty halfDead)).foldl groupRows [] =
      chunksForObject 1 true (run step Database.empty halfDead) :=
  foldl_layoutQuery_object (consistent_run consistent_empty _) .rfl (List.pairwise_singleton ..)

/-- Both chunks are committed, as the object says. The layout has one of them, and the read
is refused, also of what the living node could serve. -/
theorem dead_node_hides_chunk :
    ((run step Database.empty halfDead).chunks.select (committedChunk 1)).length = 2 ∧
      (headObject "b" "k" (run step Database.empty halfDead)).map (·.chunkCount) = .ok 2 ∧
      (chunksForObject 1 true (run step Database.empty halfDead)).map (·.chunk.id) = [10] ∧
      getObject "b" "k" (run step Database.empty halfDead) = .error .conflict := by
  decide

end Full

end FlexStore.Metadata
