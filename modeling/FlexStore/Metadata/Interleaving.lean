import FlexStore.Metadata.Assembly
import FlexStore.Metadata.Sessions
import FlexStore.Relational.Interference
import Mathlib.Data.Fintype.Option

/-!
# A session that is completed while parts are completed

One `CompleteMultipartUpload` and any number of `CompletePart` transactions, interleaved
statement by statement. The assembly takes no lock on the parts, and it looks at them in
several statements with different snapshots: it lists them, counts those in flight, and later
takes over the chunks of those that are COMPLETE by then. What it takes over is nevertheless
what it listed, because a COMPLETE part stays as it is, its chunk count is that of its chunks,
and the number of chunks taken over is compared with what the listed parts declare. A part that
was completed in between would make the number too large.

The assembly relies on the others only to finish parts, and each of them guarantees that until
the assembly commits.
-/

namespace FlexStore.Metadata.Concurrent

open Relational Transition

section Specification

/-- The order of the window function: by part number, then by index. -/
def precedes (db : Database) (a b : ChunkRow) : Prop :=
  let number := fun c => ((Metadata.partOf db c).map (·.partNumber)).getD 0
  number a < number b ∨ number a = number b ∧ a.index ≤ b.index

instance (db : Database) : DecidableRel (precedes db) :=
  fun _ _ => inferInstanceAs (Decidable (_ ∨ _))

/-- The object has the COMMITTED chunks of the listed parts, in order, and is described by
what these parts declare. -/
structure AssembledFrom (db : Database) (r : AssemblyRequest) (obj : Object)
    (parts : List PartRow) (rows : Rows) : Prop where
  stored : (rows (.object r.objectID)).map scanObject = some obj
  listed : ∀ p ∈ parts, p.uploadID = r.uploadID ∧ p.state = .complete
  named : r.expected ≠ [] → List.Forall₂ CompletedPartRef.Names r.expected parts
  chunks : ∃ chunks : List ChunkRow, chunks.Perm (parts.flatMap (committedChunks db)) ∧
    chunks.Pairwise (precedes db) ∧
    ∀ c row, (rows (.chunk c) = some row ∧ row.owner = .object r.objectID) ↔
      row.id = c ∧ row ∈ chunks.mapIdx fun i c =>
        { c with owner := .object r.objectID, index := i }
  count : obj.chunkCount = (parts.flatMap (committedChunks db)).length
  size : (parts.map (·.sizeBytes)).sum < 2 ^ 63 → obj.sizeBytes = (parts.map (·.sizeBytes)).sum

theorem AssembledFrom.of_same {db : Database} {r : AssemblyRequest} {obj : Object}
    {parts : List PartRow} {rows rows' : Rows} (assembled : AssembledFrom db r obj parts rows)
    (object : rows' (.object r.objectID) = rows (.object r.objectID))
    (chunks : ∀ c, rows' (.chunk c) = rows (.chunk c)) : AssembledFrom db r obj parts rows' where
  stored := by
    rw [object]
    exact assembled.stored
  listed := assembled.listed
  named := assembled.named
  chunks := by
    simp only [chunks]
    exact assembled.chunks
  count := assembled.count
  size := assembled.size

end Specification

section Interference

/-- The row of a part stays as it is or is finished, with all its chunks COMMITTED and
counted. -/
def Finishes (db : Database) (id : UUID) (old new : Option PartRow) : Prop :=
  new = old ∨ ∃ p now size etag, old = some p ∧ p.state = .uploading ∧
    (∀ c ∈ chunksOf (.part id) db, c.state = .committed) ∧
    new = some (p.finish now size (chunksOf (.part id) db).length etag)

/-- Parts are finished, and nothing else happens. -/
def PartFinished (db : Database) : (k : RowKey) → k.Version → k.Version → Prop
  | .part id, old, new => Finishes db id old new
  | _, old, new => new = old

variable {db : Database}

theorem Finishes.trans {id : UUID} {a b c : Option PartRow} (first : Finishes db id a b)
    (second : Finishes db id b c) : Finishes db id a c := by
  rcases first with rfl | ⟨p, now, size, etag, found, uploading, committed, rfl⟩
  · exact second
  · rcases second with rfl | ⟨q, _, _, _, found', uploading', -⟩
    · exact Or.inr ⟨p, now, size, etag, found, uploading, committed, rfl⟩
    · obtain rfl := Option.some.inj found'
      cases uploading'

/-- A COMPLETE part stays as it is. -/
theorem Finishes.of_complete {id : UUID} {p : PartRow} {new : Option PartRow}
    (finishes : Finishes db id (some p) new) (complete : p.state = .complete) : new = some p := by
  rcases finishes with same | ⟨q, _, _, _, found, uploading, -⟩
  · exact same
  · obtain rfl := Option.some.inj found
    rw [complete] at uploading
    cases uploading

theorem PartFinished.refl (k : RowKey) (v : k.Version) : PartFinished db k v v := by
  cases k with
  | part => exact Or.inl rfl
  | _ => rfl

theorem PartFinished.trans (k : RowKey) (u v w : k.Version) (first : PartFinished db k u v)
    (second : PartFinished db k v w) : PartFinished db k u w := by
  cases k with
  | part => exact Finishes.trans first second
  | _ => exact Eq.trans second first

/-- The rows of a database, with the object that will be created. -/
def assemblyCatalog (db : Database) (r : AssemblyRequest) : Catalog :=
  { Catalog.of db with objects := r.objectID :: (Catalog.of db).objects }

/-- What a transaction sees that has written nothing: parts may have been finished. -/
structure Unmoved (db : Database) (rows : Rows) : Prop where
  uploads : ∀ id, rows (.upload id) = db.view.uploads id
  parts : ∀ id, Finishes db id (db.view.parts id) (rows (.part id))
  chunks : ∀ c, rows (.chunk c) = db.view.chunks c

variable {rows rows' : Rows} {locks : RowKey → Bool} {r : AssemblyRequest}

theorem unmoved_rowsOf : Unmoved db (rowsOf db.view) :=
  ⟨fun _ => rfl, fun _ => Or.inl rfl, fun _ => rfl⟩

theorem Unmoved.rely (unmoved : Unmoved db rows)
    (between : Rely (PartFinished db) locks rows rows') : Unmoved db rows' where
  uploads id := Eq.trans (between (.upload id)).1 (unmoved.uploads id)
  parts id := (unmoved.parts id).trans (between (.part id)).1
  chunks c := Eq.trans (between (.chunk c)).1 (unmoved.chunks c)

/-- The scan of the chunks goes through the chunks of the database. -/
theorem Unmoved.chunkRows (unmoved : Unmoved db rows) :
    (assemblyCatalog db r).chunkRows rows = db.chunks.rows :=
  (List.filterMap_congr fun c _ => unmoved.chunks c).trans (Table.filterMap_find?_keys db.chunks)

theorem Unmoved.allCommitted_iff (unmoved : Unmoved db rows) {owner : Owner} {chunkCount : Int} :
    allCommitted (assemblyCatalog db r) owner chunkCount rows ↔
      Metadata.allCommitted owner chunkCount db := by
  simp only [allCommitted, Catalog.chunksOf, unmoved.chunkRows, Metadata.allCommitted,
    Metadata.chunksOf, Table.select, Bool.and_eq_true, decide_eq_true_eq]

/-- A part whose chunks have been counted is finished, as long as its row is locked. -/
theorem ensures_finishPart {c : PartCompletion} {row : PartRow}
    (found : rows (.part c.partID) = some row) (uploading : row.state = .uploading)
    (counted : Metadata.allCommitted (.part c.partID) c.chunkCount db)
    (held : locks (.part c.partID)) :
    (finishPart c).Ensures (indexes (assemblyCatalog db r)) (PartFinished db) (PartFinished db)
      (fun _ _ _ => True) locks rows := by
  intro rows₁ first
  have found₁ : rows₁ (.part c.partID) = some row := ((first _).2 held).trans found
  simp only [found₁, Option.isSome_some, if_true]
  intro rows₂ second
  have found₂ : rows₂ (.part c.partID) = some row := ((second _).2 held).trans found₁
  rw [found₂]
  by_cases natural : 0 ≤ c.sizeBytes ∧ 0 ≤ c.chunkCount
  · have length : c.chunkCount.toNat = (chunksOf (.part c.partID) db).length := by
      rw [← counted.1, Int.toNat_natCast]
    simp only [natural, and_self, if_true, updatePart]
    refine fun _ => ⟨Or.inr ⟨row, c.now, c.sizeBytes.toNat, c.etag, rfl, uploading,
      fun x => ?_, ?_⟩, fun _ _ => trivial⟩
    · exact counted.state
    · rw [length]
  · simp only [natural, if_false]

/-- The completion of a part finishes the part. It relies on its chunks to stay what they
are. -/
theorem ensures_completePart (unmoved : Unmoved db rows) (c : PartCompletion) :
    (completePart (assemblyCatalog db r) c).Ensures (indexes (assemblyCatalog db r))
      (PartFinished db) (PartFinished db) (fun _ _ _ => True) locks rows := by
  intro rows₁ first
  cases found : rows₁ (.part c.partID) with
  | none => trivial
  | some row =>
    dsimp only
    split
    · next uploading =>
        intro rows₂ second
        dsimp only
        split
        · next counted =>
            have held := Function.update_self (.part c.partID) true locks
            exact ensures_finishPart (((second _).2 held).trans found) uploading
              (((unmoved.rely first).rely second).allCommitted_iff.mp counted) held
        · trivial
    · trivial

end Interference

section Listing

variable {db : Database} {rows rows' : Rows} {locks : RowKey → Bool} {r : AssemblyRequest}
  {parts : List PartRow} {p : PartRow} {id : UUID}

theorem Unmoved.part_id (unmoved : Unmoved db rows) (found : rows (.part id) = some p) :
    p.id = id := by
  rcases unmoved.parts id with same | ⟨q, _, _, _, before, -, -, after⟩
  · exact (Table.mem_of_find? (same.symm.trans found)).2
  · obtain rfl := Option.some.inj (after.symm.trans found)
    exact (Table.mem_of_find? before).2

/-- The parts have been listed as COMPLETE ones of the session. -/
structure Listed (r : AssemblyRequest) (parts : List PartRow) (rows : Rows) : Prop where
  found : ∀ p ∈ parts, rows (.part p.id) = some p
  complete : ∀ p ∈ parts, p.uploadID = r.uploadID ∧ p.state = .complete
  distinct : (parts.map (·.id)).Nodup

/-- They stay what they are. -/
theorem Listed.rely (listed : Listed r parts rows)
    (between : Rely (PartFinished db) locks rows rows') : Listed r parts rows' where
  found p member := by
    have finishes : Finishes db p.id (rows (.part p.id)) (rows' (.part p.id)) :=
      (between (.part p.id)).1
    rw [listed.found p member] at finishes
    exact finishes.of_complete (listed.complete p member).2
  complete := listed.complete
  distinct := listed.distinct

theorem sublist_map_filterMap {α β : Type} {f : α → Option β} {g : β → α} {l : List α}
    (inverse : ∀ a b, f a = some b → g b = a) : ((l.filterMap f).map g).Sublist l := by
  induction l with
  | nil => exact .slnil
  | cons a rest ih =>
    cases found : f a with
    | none =>
      rw [List.filterMap_cons_none found]
      exact ih.cons a
    | some b =>
      rw [List.filterMap_cons_some found, List.map_cons, inverse a b found]
      exact ih.cons_cons a

theorem Unmoved.listed (unmoved : Unmoved db rows) :
    Listed r (completeParts (assemblyCatalog db r) r.uploadID rows) rows := by
  have selected {p : PartRow}
      (member : p ∈ completeParts (assemblyCatalog db r) r.uploadID rows) :
      p ∈ (assemblyCatalog db r).partRows rows ∧ p.uploadID = r.uploadID ∧ p.state = .complete := by
    simpa [completeParts] using member
  refine ⟨fun p member => ?_, fun p member => (selected member).2, ?_⟩
  · obtain ⟨id, -, found⟩ := List.mem_filterMap.mp (selected member).1
    rw [unmoved.part_id found]
    exact found
  · refine ((List.perm_insertionSort _ _).map _).nodup_iff.mpr ?_
    refine (List.filter_sublist.map _).nodup ((sublist_map_filterMap ?_).nodup db.parts.nodup)
    exact fun id p found => unmoved.part_id found

/-- The chunks of a COMPLETE part of the session are all COMMITTED, and counted. -/
theorem Unmoved.counted (unmoved : Unmoved db rows) (sealed : Sealed db)
    (progress : db.view.progressing r.uploadID) (found : rows (.part id) = some p)
    (session : p.uploadID = r.uploadID) (complete : p.state = .complete) :
    p.chunkCount = (chunksOf (.part id) db).length ∧
      ∀ c ∈ chunksOf (.part id) db, c.state = .committed := by
  rcases unmoved.parts id with same | ⟨q, _, _, _, -, -, committed, after⟩
  · have before : db.view.parts id = some p := same.symm.trans found
    have closed : db.view.status (.part id) = .sealed := by
      simp [View.status_part before, View.partStatus, session, progress, complete,
        PartState.status]
    have declared := sealed.count _ closed
    rw [View.declared, before] at declared
    refine ⟨Option.some.inj declared, fun c member => ?_⟩
    obtain ⟨row, owner⟩ := mem_chunksOf.mp member
    exact sealed.committed _ c row (owner ▸ closed)
  · obtain rfl := Option.some.inj (after.symm.trans found)
    exact ⟨rfl, committed⟩

end Listing

section Comparison

variable {db : Database} {rows : Rows} {r : AssemblyRequest} {parts : List PartRow}

/-- The chunk is COMMITTED and belongs to a COMPLETE part of the session. -/
def takes (r : AssemblyRequest) (rows : Rows) (c : ChunkRow) : Bool :=
  c.state = .committed &&
    (partOf rows c).any fun p => p.uploadID = r.uploadID && p.state = .complete

/-- The COMMITTED chunks of the listed parts. -/
def listedChunks (db : Database) (parts : List PartRow) : List ChunkRow :=
  db.chunks.rows.filter fun c => c.state = .committed && parts.any fun p => c.owner = .part p.id

theorem Unmoved.partNumber (unmoved : Unmoved db rows) (c : ChunkRow) :
    (partOf rows c).map (·.partNumber) = (Metadata.partOf db c).map (·.partNumber) := by
  cases owner : c.owner with
  | object => simp [partOf, Metadata.partOf, owner]
  | part id =>
    simp only [partOf, Metadata.partOf, owner]
    rcases unmoved.parts id with same | ⟨q, _, _, _, before, -, -, after⟩
    · rw [same]
      rfl
    · change db.parts.find? id = some q at before
      rw [after, before]
      rfl

theorem Unmoved.assembledChunks_eq (unmoved : Unmoved db rows) :
    assembledChunks (assemblyCatalog db r) r.uploadID rows =
      (db.chunks.rows.filter (takes r rows)).insertionSort (precedes db) := by
  have order : (fun a b : ChunkRow => ((partOf rows a).map (·.partNumber)).getD 0 <
        ((partOf rows b).map (·.partNumber)).getD 0 ∨
      ((partOf rows a).map (·.partNumber)).getD 0 = ((partOf rows b).map (·.partNumber)).getD 0 ∧
        a.index ≤ b.index) = precedes db := by
    funext a b
    rw [unmoved.partNumber, unmoved.partNumber]
    rfl
  simp only [assembledChunks, unmoved.chunkRows]
  congr 1

theorem perm_listedChunks (distinct : (parts.map (·.id)).Nodup) :
    (listedChunks db parts).Perm (parts.flatMap (committedChunks db)) := by
  have disjoint : (parts.flatMap (committedChunks db)).Nodup := by
    refine List.nodup_flatMap.mpr ⟨fun p _ => ?_, ?_⟩
    · exact (List.perm_insertionSort _ _).nodup_iff.mpr (nodup_chunksOf.filter _)
    · refine (List.pairwise_map.mp distinct).imp fun differ row first second => differ ?_
      exact Owner.part.inj ((mem_committedChunks.mp first).2.1.symm.trans
        (mem_committedChunks.mp second).2.1)
  refine (List.perm_ext_iff_of_nodup (db.chunks.nodup.of_map.filter _) disjoint).mpr fun row => ?_
  simp only [List.mem_filter, List.mem_flatMap, mem_committedChunks, Table.mem_rows_iff,
    Bool.and_eq_true, decide_eq_true_eq, List.any_eq_true]
  constructor
  · rintro ⟨found, committed, p, member, owner⟩
    exact ⟨p, member, found, owner, committed⟩
  · rintro ⟨p, member, found, owner, committed⟩
    exact ⟨found, committed, p, member, owner⟩

theorem length_listedChunks (distinct : (parts.map (·.id)).Nodup)
    (counted : ∀ p ∈ parts, p.chunkCount = (chunksOf (.part p.id) db).length ∧
      ∀ c ∈ chunksOf (.part p.id) db, c.state = .committed) :
    (listedChunks db parts).length = (parts.map (·.chunkCount)).sum := by
  rw [(perm_listedChunks distinct).length_eq, List.length_flatMap]
  refine congrArg List.sum (List.map_congr_left fun p member => ?_)
  obtain ⟨count, committed⟩ := counted p member
  rw [count, committedChunks, (List.perm_insertionSort _ _).length_eq]
  exact congrArg List.length (List.filter_eq_self.mpr fun c owned => by simp [committed c owned])

/-- Wrapping makes a sum of nonnegative numbers smaller. -/
theorem foldl_wrap_le (parts : List PartRow) {total : Int} (above : -2 ^ 31 ≤ total) :
    parts.foldl (fun total p => (total + p.chunkCount).bmod (2 ^ 32)) total ≤
      total + (parts.map (·.chunkCount)).sum := by
  induction parts generalizing total with
  | nil => simp
  | cons p rest ih =>
    have wrapped : -2 ^ 31 ≤ (total + p.chunkCount).bmod (2 ^ 32) ∧
        (total + p.chunkCount).bmod (2 ^ 32) ≤ total + p.chunkCount := by
      rw [Int.bmod_def]
      split <;> omega
    rw [List.foldl_cons, List.map_cons, List.sum_cons]
    have later := ih wrapped.1
    omega

/-- If as many chunks are taken over as the listed parts declare, they are those of the listed
parts: a part that was completed after the list was made has no chunk among them. -/
theorem Listed.chunks_eq (listed : Listed r parts rows) (unmoved : Unmoved db rows)
    (sealed : Sealed db) (progress : db.view.progressing r.uploadID)
    (compared : ((assembledChunks (assemblyCatalog db r) r.uploadID rows).length : Int) =
      totalChunks parts) : db.chunks.rows.filter (takes r rows) = listedChunks db parts := by
  have counted (p : PartRow) (member : p ∈ parts) :=
    unmoved.counted sealed progress (listed.found p member) (listed.complete p member).1
      (listed.complete p member).2
  have below : (listedChunks db parts).Sublist (db.chunks.rows.filter (takes r rows)) := by
    refine List.monotone_filter_right _ fun c chosen => ?_
    simp only [Bool.and_eq_true, decide_eq_true_eq, List.any_eq_true] at chosen
    obtain ⟨committed, p, member, owner⟩ := chosen
    simp [takes, partOf, committed, owner, listed.found p member, listed.complete p member]
  refine (below.eq_of_length_le ?_).symm
  have most := @foldl_wrap_le parts 0 (by omega)
  rw [unmoved.assembledChunks_eq, (List.perm_insertionSort _ _).length_eq] at compared
  rw [length_listedChunks listed.distinct counted]
  simp only [totalChunks] at compared
  omega

end Comparison

section Assembly

variable {db : Database} {rows rows' : Rows} {locks : RowKey → Bool} {r : AssemblyRequest}
  {parts : List PartRow} {session : MultipartUploadRow} {chunks : List ChunkRow} {cat : Catalog}

/-- What holds however the others finish parts in between. -/
abbrev Ensures (db : Database) (cat : Catalog) {α : Type} (p : Program α)
    (Q : α → (RowKey → Bool) → Rows → Prop) (locks : RowKey → Bool) (rows : Rows) : Prop :=
  p.Ensures (indexes cat) (PartFinished db) (fun _ _ _ => True) Q locks rows

/-- The object has these chunks, numbered by their position. -/
def Owns (r : AssemblyRequest) (chunks : List ChunkRow) (rows : Rows) : Prop :=
  ∀ c row, (rows (.chunk c) = some row ∧ row.owner = .object r.objectID) ↔
    row.id = c ∧ row ∈ chunks.map (ChunkRow.reparent r.objectID (chunks.map (·.id)))

theorem Owns.rely (owns : Owns r chunks rows)
    (between : Rely (PartFinished db) locks rows rows') : Owns r chunks rows' := by
  intro c row
  have same : rows' (.chunk c) = rows (.chunk c) := (between (.chunk c)).1
  rw [same]
  exact owns c row

def SparesChunks : (k : RowKey) → k.Version → k.Version → Prop
  | .chunk _, old, new => new = old
  | _, _, _ => True

/-- Objects are left alone, and so is which chunks they own and how. -/
def SparesObjects : (k : RowKey) → k.Version → k.Version → Prop
  | .object _, old, new => new = old
  | .chunk _, old, new => ∃ c c', old = some c ∧ new = some c' ∧ (∀ o, c.owner ≠ .object o) ∧
      ∀ o, c'.owner ≠ .object o
  | _, _, _ => True

theorem Owns.spares_chunks (owns : Owns r chunks rows) {k : RowKey} {v : k.Version}
    (spares : SparesChunks k (rows k) v) : Owns r chunks (Function.update rows k v) := by
  intro c row
  cases k with
  | chunk c' =>
    have same : Function.update rows (.chunk c') v = rows :=
      Function.update_eq_self_iff.mpr spares
    rw [same]
    exact owns c row
  | _ => simpa using owns c row

theorem Owns.spares_objects (owns : Owns r chunks rows) {k : RowKey} {v : k.Version}
    (spares : SparesObjects k (rows k) v) : Owns r chunks (Function.update rows k v) := by
  intro c row
  rw [← owns c row]
  cases k with
  | chunk c' =>
    by_cases same : c = c'
    · subst same
      obtain ⟨x, x', before, rfl, owner, owner'⟩ := spares
      rw [Function.update_self, before]
      constructor
      · rintro ⟨found, mine⟩
        obtain rfl := Option.some.inj found
        exact absurd mine (owner' _)
      · rintro ⟨found, mine⟩
        obtain rfl := Option.some.inj found
        exact absurd mine (owner _)
    · rw [Function.update_of_ne (by simpa using same)]
  | _ => simp

theorem ensures_supersede (owns : Owns r chunks rows) :
    Ensures db cat (supersedeCurrentVersion cat r.now session.bucket session.key r.objectID)
      (fun _ _ rows => Owns r chunks rows) locks rows := by
  refine Txn.Writes.ensures (K := SparesChunks) (fun _ _ _ owns between => owns.rely between)
    (fun _ _ _ owns spares => owns.spares_chunks spares) (fun _ _ _ _ => trivial) ?_ owns
  exact writes_supersedeCurrentVersion (fun _ _ _ _ => trivial) (fun _ _ _ _ => trivial)
    fun _ _ => trivial

/-- The object is stored as it is returned, with the totals that were computed. -/
structure Described (r : AssemblyRequest) (parts : List PartRow) (obj : Object) (rows : Rows) :
    Prop where
  stored : (rows (.object r.objectID)).map scanObject = some obj
  natural : 0 ≤ totalSize parts ∧ 0 ≤ totalChunks parts
  count : obj.chunkCount = (totalChunks parts).toNat
  size : obj.sizeBytes = (totalSize parts).toNat

theorem Described.rely {obj : Object} (described : Described r parts obj rows)
    (between : Rely (PartFinished db) locks rows rows') : Described r parts obj rows' := by
  have same : rows' (.object r.objectID) = rows (.object r.objectID) :=
    (between (.object r.objectID)).1
  exact ⟨same ▸ described.stored, described.natural, described.count, described.size⟩

theorem Described.update {obj : Object} (described : Described r parts obj rows) {k : RowKey}
    {v : k.Version} (spares : SparesObjects k (rows k) v) :
    Described r parts obj (Function.update rows k v) := by
  refine ⟨?_, described.natural, described.count, described.size⟩
  cases k with
  | object id =>
    have same : Function.update rows (.object id) v = rows :=
      Function.update_eq_self_iff.mpr spares
    rw [same]
    exact described.stored
  | _ => simpa using described.stored

theorem ensures_promoteObject (owns : Owns r chunks rows) (etag : String) :
    Ensures db cat (promoteObject r.now r.objectID (totalSize parts) (totalChunks parts) etag)
      (fun obj _ rows => Owns r chunks rows ∧ Described r parts obj rows) locks rows := by
  intro rows₁ first
  cases found : rows₁ (.object r.objectID) with
  | none => simp only [found, Option.isSome_none, Bool.false_eq_true, if_false]; trivial
  | some row =>
    simp only [found, Option.isSome_some, if_true]
    intro rows₂ second
    have found₂ : rows₂ (.object r.objectID) = some row :=
      Eq.trans (second (.object r.objectID)).1 found
    rw [found₂]
    by_cases natural : 0 ≤ totalSize parts ∧ 0 ≤ totalChunks parts
    · simp only [natural, and_self, if_true, updateObject]
      refine fun _ => ⟨trivial, fun rows₃ third => ?_⟩
      have owns₂ := (owns.rely first).rely second
      refine ⟨(owns₂.spares_chunks (k := .object r.objectID) trivial).rely third,
        Described.rely ⟨?_, natural, rfl, rfl⟩ third⟩
      rw [Function.update_self]
      rfl
    · simp only [natural, if_false]

theorem ensures_closeSession {obj : Object}
    (start : Owns r chunks rows ∧ Described r parts obj rows) :
    Ensures db cat (closeSession cat r)
      (fun _ _ rows => Owns r chunks rows ∧ Described r parts obj rows) locks rows := by
  refine Txn.Writes.ensures (K := SparesObjects)
    (fun _ _ _ holds between => ⟨holds.1.rely between, holds.2.rely between⟩)
    (fun _ _ _ holds spares => ⟨holds.1.spares_objects spares, holds.2.update spares⟩)
    (fun _ _ _ _ => trivial) ?_ start
  refine writes_closeSession (fun _ _ _ _ => trivial) (fun _ _ _ _ => trivial) ?_ ?_
  · exact fun _ c owner => ⟨c, c.orphan, rfl, rfl, owner, owner⟩
  · exact fun _ _ => trivial

/-- Publishing the object leaves it the chunks that it has. -/
theorem ensures_publish (owns : Owns r chunks rows) :
    Ensures db cat (publish cat r session parts)
      (fun obj _ rows => Owns r chunks rows ∧ Described r parts obj rows) locks rows := by
  refine Txn.Ensures.bind PartFinished.refl ((ensures_supersede owns).mono fun _ _ _ owns => ?_)
  refine Txn.Ensures.bind PartFinished.refl
    ((ensures_promoteObject owns _).mono fun obj _ _ holds => ?_)
  refine Txn.Ensures.bind PartFinished.refl
    ((ensures_closeSession holds).mono fun _ _ _ holds => ?_)
  exact fun rows' between => ⟨holds.1.rely between, holds.2.rely between⟩

/-- The re-parenting statement has written all the chunks but those it still has to go
through. -/
structure Reparenting (db : Database) (r : AssemblyRequest) (ids : List UUID)
    (found : List RowKey) (touched : List ((k : RowKey) × k.Version)) (rows : Rows) : Prop where
  length : touched.length + found.length = ids.length
  distinct : found.Nodup
  chosen : ∀ k ∈ found, ∃ c ∈ ids, k = .chunk c
  chunks : ∀ c, rows (.chunk c) = (db.view.chunks c).map fun row =>
    if c ∈ ids ∧ .chunk c ∉ found then row.reparent r.objectID ids else row

section Reparenting

variable {ids : List UUID} {found : List RowKey} {touched : List ((k : RowKey) × k.Version)}

theorem Reparenting.start (unmoved : Unmoved db rows) (distinct : ids.Nodup) :
    Reparenting db r ids (ids.map .chunk) [] rows where
  length := by simp
  distinct := distinct.map fun _ _ same => by simpa using same
  chosen k member := by
    obtain ⟨c, listed, rfl⟩ := List.mem_map.mp member
    exact ⟨c, listed, rfl⟩
  chunks c := by
    rw [unmoved.chunks c]
    cases db.view.chunks c <;> simp

theorem Reparenting.rely (reparenting : Reparenting db r ids found touched rows)
    (between : Rely (PartFinished db) locks rows rows') :
    Reparenting db r ids found touched rows' :=
  { reparenting with
    chunks := fun c => Eq.trans (between (.chunk c)).1 (reparenting.chunks c) }

/-- The next chunk is still as it was, and so it is written. -/
theorem Reparenting.write {k : RowKey} (present : ∀ c ∈ ids, db.view.chunks c ≠ none)
    (reparenting : Reparenting db r ids (k :: found) touched rows) :
    ∃ v, updateChunk (fun _ => true) (ChunkRow.reparent r.objectID ids) k (rows k) = .write v ∧
      Reparenting db r ids found (touched ++ [⟨k, v⟩]) (Function.update rows k v) := by
  obtain ⟨c, listed, rfl⟩ := reparenting.chosen _ List.mem_cons_self
  obtain ⟨row, before⟩ := Option.ne_none_iff_exists'.mp (present c listed)
  obtain ⟨first, later⟩ := List.nodup_cons.mp reparenting.distinct
  have now : rows (.chunk c) = some row := by
    rw [reparenting.chunks c, before]
    simp
  refine ⟨some (row.reparent r.objectID ids), by simp [updateChunk, now], ?_, later,
    fun k member => reparenting.chosen k (List.mem_cons_of_mem _ member), fun c' => ?_⟩
  · have length := reparenting.length
    simp only [List.length_cons, List.length_append, List.length_nil] at length ⊢
    omega
  · by_cases same : c' = c
    · subst same
      simp [before, listed, first]
    · rw [Function.update_of_ne (by simpa using same), reparenting.chunks c']
      simp [same]

end Reparenting

/-- Once all of them have been written, the object owns them. -/
theorem Reparenting.owns {touched : List ((k : RowKey) × k.Version)}
    (reparenting : Reparenting db r (chunks.map (·.id)) [] touched rows)
    (present : ∀ c ∈ chunks, db.view.chunks c.id = some c)
    (unowned : ∀ c row, db.view.chunks c = some row → row.owner ≠ .object r.objectID) :
    Owns r chunks rows := by
  intro c row
  rw [reparenting.chunks c]
  constructor
  · rintro ⟨found, mine⟩
    obtain ⟨old, before, rfl⟩ := Option.map_eq_some_iff.mp found
    split at mine
    · next listed =>
        obtain ⟨x, member, named⟩ := List.mem_map.mp listed.1
        obtain rfl : x = old := Option.some.inj ((present x member).symm.trans (named ▸ before))
        rw [if_pos listed]
        exact ⟨named, List.mem_map_of_mem member⟩
    · exact absurd mine (unowned c old before)
  · rintro ⟨rfl, listed⟩
    obtain ⟨x, member, rfl⟩ := List.mem_map.mp listed
    have taken : x.id ∈ chunks.map (·.id) := List.mem_map_of_mem member
    refine ⟨?_, rfl⟩
    rw [present x member, Option.map_some, if_pos ⟨taken, List.not_mem_nil⟩]

/-- What an assembly may assume of the database that it started from. -/
structure Assembling (db : Database) (r : AssemblyRequest) : Prop where
  consistent : db.view.Consistent
  sealed : Sealed db
  progress : db.view.progressing r.uploadID

section Snapshot

variable (unmoved : Unmoved db rows)

include unmoved

theorem Unmoved.present {c : ChunkRow}
    (member : c ∈ assembledChunks (assemblyCatalog db r) r.uploadID rows) :
    db.view.chunks c.id = some c := by
  rw [unmoved.assembledChunks_eq] at member
  exact Table.find?_of_mem (List.mem_filter.mp ((List.mem_insertionSort _).mp member)).1

theorem Unmoved.nodup_ids :
    ((assembledChunks (assemblyCatalog db r) r.uploadID rows).map (·.id)).Nodup := by
  rw [unmoved.assembledChunks_eq]
  exact ((List.perm_insertionSort _ _).map _).nodup_iff.mpr
    ((List.filter_sublist.map _).nodup db.chunks.nodup)

end Snapshot

/-- What the object has and is once it is published. -/
def Published (db : Database) (r : AssemblyRequest) (parts : List PartRow) (obj : Object)
    (rows : Rows) : Prop :=
  (((listedChunks db parts).insertionSort (precedes db)).length : Int) = totalChunks parts ∧
    Owns r ((listedChunks db parts).insertionSort (precedes db)) rows ∧
    Described r parts obj rows

/-- The statement that re-parents takes over the chunks of the listed parts, or the assembly
fails. -/
theorem ensures_reparentChunks (assembling : Assembling db r) (unmoved : Unmoved db rows)
    (listed : Listed r parts rows) (fresh : db.view.objects r.objectID = none) :
    Ensures db (assemblyCatalog db r) (reparentChunks (assemblyCatalog db r) r session parts)
      (fun obj _ rows => Published db r parts obj rows) locks rows := by
  intro rows₁ first
  have unmoved₁ := unmoved.rely first
  dsimp only
  generalize taken : assembledChunks (assemblyCatalog db r) r.uploadID rows₁ = chunks
  have present (c : ChunkRow) (member : c ∈ chunks) : db.view.chunks c.id = some c :=
    unmoved₁.present (taken ▸ member)
  have nonempty (c : UUID) (member : c ∈ chunks.map (·.id)) : db.view.chunks c ≠ none := by
    obtain ⟨x, listed, rfl⟩ := List.mem_map.mp member
    simp [present x listed]
  have keys : chunks.map (fun c => RowKey.chunk c.id) = (chunks.map (·.id)).map .chunk := by
    rw [List.map_map]
    rfl
  rw [keys]
  refine AmendEnsures.of_invariant (I := Reparenting db r (chunks.map (·.id)))
    (fun _ _ _ _ _ reparenting between => reparenting.rely between)
    (fun k found touched rows reparenting leaves => ?_)
    (fun k found touched rows v reparenting writes => ⟨trivial, ?_⟩)
    (fun touched locks rows reparenting => ?_) (.start unmoved₁ (taken ▸ unmoved₁.nodup_ids))
  · obtain ⟨v, verdict, -⟩ := reparenting.write nonempty
    cases verdict.symm.trans leaves
  · obtain ⟨w, verdict, later⟩ := reparenting.write nonempty
    cases verdict.symm.trans writes
    exact later
  · split
    · next compared =>
        have length : touched.length = chunks.length := by simpa using reparenting.length
        rw [length] at compared
        have exact_ := (listed.rely first).chunks_eq unmoved₁ assembling.sealed
          assembling.progress (taken ▸ compared)
        obtain rfl : chunks = (listedChunks db parts).insertionSort (precedes db) := by
          rw [← taken, unmoved₁.assembledChunks_eq, exact_]
        have owns := reparenting.owns present fun _ _ => assembling.consistent.unowned fresh
        exact (ensures_publish owns).mono fun obj _ _ holds => ⟨compared, holds⟩
    · trivial

theorem ensures_assemble (assembling : Assembling db r) (unmoved : Unmoved db rows)
    (objects : ∀ id, rows (.object id) = db.view.objects id) (listed : Listed r parts rows) :
    Ensures db (assemblyCatalog db r) (assemble (assemblyCatalog db r) r session parts)
      (fun obj _ rows => Published db r parts obj rows) locks rows := by
  intro rows₁ first rows₂ second rows₃ third
  have fresh (id : UUID) : rows₃ (.object id) = db.view.objects id :=
    (Eq.trans (third (.object id)).1 (Eq.trans (second (.object id)).1
      (first (.object id)).1)).trans (objects id)
  have unmoved₃ := ((unmoved.rely first).rely second).rely third
  have listed₃ := ((listed.rely first).rely second).rely third
  cases found : rows₃ (.object r.objectID) with
  | some row => trivial
  | none =>
    refine fun _ => ⟨trivial, ensures_reparentChunks assembling ?_ ?_ (found ▸ (fresh _).symm)⟩
    · exact ⟨fun id => by simpa using unmoved₃.uploads id,
        fun id => by simpa using unmoved₃.parts id, fun c => by simpa using unmoved₃.chunks c⟩
    · exact ⟨fun p member => by simpa using listed₃.found p member, listed₃.complete,
        listed₃.distinct⟩

/-- What has been published is what was to be assembled. -/
theorem Published.assembledFrom {obj : Object} (published : Published db r parts obj rows)
    (complete : ∀ p ∈ parts, p.uploadID = r.uploadID ∧ p.state = .complete)
    (distinct : (parts.map (·.id)).Nodup)
    (accepted : r.expected = [] ∨ manifestMatches r.expected parts) :
    AssembledFrom db r obj parts rows := by
  obtain ⟨compared, owns, described⟩ := published
  have total : Std.Total (precedes db) := ⟨fun a b => by simp only [precedes]; omega⟩
  have trans : IsTrans ChunkRow (precedes db) := ⟨fun a b c => by simp only [precedes]; omega⟩
  have perm : ((listedChunks db parts).insertionSort (precedes db)).Perm
      (parts.flatMap (committedChunks db)) :=
    (List.perm_insertionSort _ _).trans (perm_listedChunks distinct)
  have ids : (((listedChunks db parts).insertionSort (precedes db)).map (·.id)).Nodup :=
    ((List.perm_insertionSort _ _).map _).nodup_iff.mpr
      ((List.filter_sublist.map _).nodup db.chunks.nodup)
  refine ⟨described.stored, complete, fun named => ?_,
    ⟨_, perm, List.pairwise_insertionSort _ _, ?_⟩, ?_, fun small => ?_⟩
  · exact manifestMatches_iff.mp (accepted.resolve_left named)
  · rw [← map_reparent_eq_mapIdx ids]
    exact owns
  · rw [described.count, ← compared, perm.length_eq, Int.toNat_natCast]
  · rw [described.size, totalSize_eq small, Int.toNat_natCast]

theorem ensures_acceptParts (assembling : Assembling db r) (unmoved : Unmoved db rows)
    (objects : ∀ id, rows (.object id) = db.view.objects id) (listed : Listed r parts rows) :
    Ensures db (assemblyCatalog db r) (acceptParts (assemblyCatalog db r) r session parts)
      (fun obj _ rows => AssembledFrom db r obj parts rows) locks rows := by
  rw [acceptParts]
  split
  · next accepted =>
      exact (ensures_assemble assembling unmoved objects listed).mono fun obj _ _ published =>
        published.assembledFrom listed.complete listed.distinct accepted.2
  · trivial

theorem ensures_listParts (assembling : Assembling db r) (unmoved : Unmoved db rows)
    (objects : ∀ id, rows (.object id) = db.view.objects id) :
    Ensures db (assemblyCatalog db r) (listParts (assemblyCatalog db r) r session)
      (fun x _ rows => AssembledFrom db r x.1 x.2 rows) locks rows := by
  intro rows₁ first
  have unmoved₁ := unmoved.rely first
  have objects₁ (id : UUID) : rows₁ (.object id) = db.view.objects id :=
    Eq.trans (first (.object id)).1 (objects id)
  have accept {parts : List PartRow} {rows : Rows} (unmoved : Unmoved db rows)
      (objects : ∀ id, rows (.object id) = db.view.objects id) (listed : Listed r parts rows) :
      Ensures db (assemblyCatalog db r) (do
        let obj ← acceptParts (assemblyCatalog db r) r session parts
        pure (obj, parts)) (fun x _ rows => AssembledFrom db r x.1 x.2 rows) locks rows := by
    refine Txn.Ensures.bind PartFinished.refl
      ((ensures_acceptParts assembling unmoved objects listed).mono fun obj _ _ holds => ?_)
    exact fun rows' between => holds.of_same (between (.object _)).1 fun c => (between (.chunk c)).1
  dsimp only
  split
  · intro rows₂ second
    dsimp only
    split
    · trivial
    · exact accept (unmoved₁.rely second)
        (fun id => Eq.trans (second (.object id)).1 (objects₁ id)) (unmoved₁.listed.rely second)
  · exact accept unmoved₁ objects₁ unmoved₁.listed

/-- However parts are completed in between, an assembly that comes to its end has assembled what
it has listed. -/
theorem ensures_completeMultipartUpload (consistent : db.view.Consistent) (sealed : Sealed db) :
    Ensures db (assemblyCatalog db r) (completeMultipartUpload (assemblyCatalog db r) r)
      (fun x _ rows => AssembledFrom db r x.1 x.2 rows) locks (rowsOf db.view) := by
  intro rows₁ first
  have unmoved₁ := unmoved_rowsOf.rely first
  cases found : rows₁ (.upload r.uploadID) with
  | none => trivial
  | some session =>
    dsimp only
    split
    · next progress =>
        have before : db.view.uploads r.uploadID = some session :=
          (unmoved₁.uploads _).symm.trans found
        refine ensures_listParts ⟨consistent, sealed, ?_⟩ unmoved₁
          fun id => (first (.object id)).1
        simp [View.progressing, before, progress]
    · trivial

end Assembly

section Race

variable {ι : Type}

abbrev AssemblyRace (ι : Type) :=
  System (Option ι) RowKey.Version Statement StoreError (Option (Object × List PartRow))

def assemblyPrograms (db : Database) (r : AssemblyRequest) (requests : ι → PartCompletion) :
    Option ι → Program (Option (Object × List PartRow))
  | none => do
    let x ← completeMultipartUpload (assemblyCatalog db r) r
    pure (some x)
  | some i => do
    completePart (assemblyCatalog db r) (requests i)
    pure none

def assemblyRace (db : Database) (r : AssemblyRequest) (requests : ι → PartCompletion) :
    AssemblyRace ι :=
  .start (assemblyPrograms db r requests) (rowsOf db.view)

/-- What the transactions guarantee to each other until the assembly commits. -/
def untilCommit (db : Database) : Option ι → (k : RowKey) → k.Version → k.Version → Prop
  | none => fun _ _ _ => True
  | some _ => PartFinished db

/-- What they guarantee at any time. -/
def anyTime : Option ι → (k : RowKey) → k.Version → k.Version → Prop
  | none => fun _ _ _ => True
  | some _ => fun k _ _ => ∃ id, k = .part id

/-- What the assembly has done when it commits. -/
def atCommit (db : Database) (r : AssemblyRequest) :
    Option ι → Option (Object × List PartRow) → (RowKey → Bool) → Rows → Prop
  | none, x, _, rows => ∃ obj parts, x = some (obj, parts) ∧ AssembledFrom db r obj parts rows
  | some _, _, _, _ => True

variable {db : Database} {r : AssemblyRequest} {requests : ι → PartCompletion}

theorem sound_untilCommit (consistent : db.view.Consistent) (sealed : Sealed db) :
    (assemblyRace db r requests).Sound (indexes (assemblyCatalog db r)) (fun _ => PartFinished db)
      (untilCommit db) (atCommit db r) := by
  refine .start fun t => ?_
  cases t with
  | none =>
    refine Txn.Ensures.bind PartFinished.refl
      ((ensures_completeMultipartUpload consistent sealed).mono fun x _ _ holds => ?_)
    exact fun rows' between => ⟨x.1, x.2, rfl,
      holds.of_same (between (.object _)).1 fun c => (between (.chunk c)).1⟩
  | some i =>
    refine Txn.Ensures.bind PartFinished.refl
      ((ensures_completePart unmoved_rowsOf (requests i)).mono fun _ _ _ _ => ?_)
    exact fun _ _ => trivial

theorem writes_completePart (cat : Catalog) (c : PartCompletion) :
    (completePart cat c).Writes fun k _ _ => ∃ id, k = .part id := by
  intro row
  cases row with
  | none => trivial
  | some row =>
    dsimp only
    split
    · intro rows
      dsimp only
      split
      · refine ⟨fun _ k old v h => ?_, fun _ => trivial⟩
        split at h
        · cases k with
          | part id => exact ⟨id, rfl⟩
          | _ => cases h
        · cases h
      · trivial
    · trivial

theorem sound_anyTime :
    (assemblyRace db r requests).Sound (indexes (assemblyCatalog db r)) (fun _ _ _ _ => True)
      anyTime fun _ _ _ _ => True := by
  refine .start fun t => ?_
  cases t with
  | none =>
    refine Txn.Writes.ensures (K := fun _ _ _ => True) (fun _ _ _ _ _ => trivial)
      (fun _ _ _ _ _ => trivial) (fun _ _ _ _ => trivial) ?_ trivial
    exact Txn.writes_of_forall (fun _ _ _ => trivial) _
  | some i =>
    refine Txn.Writes.ensures (fun _ _ _ _ _ => trivial) (fun _ _ _ _ _ => trivial)
      (fun _ _ _ related => related) ?_ trivial
    exact Txn.writes_bind (writes_completePart _ _) fun _ => trivial

theorem untilCommit_trans (t : Option ι) (k : RowKey) (u v w : k.Version)
    (first : untilCommit db t k u v) (second : untilCommit db t k v w) :
    untilCommit db t k u w := by
  cases t with
  | none => trivial
  | some i => exact PartFinished.trans k u v w first second

theorem anyTime_trans (t : Option ι) (k : RowKey) (u v w : k.Version) (first : anyTime t k u v)
    (_ : anyTime t k v w) : anyTime t k u w := by
  cases t with
  | none => trivial
  | some i => exact first

/-- The assembly has not committed, and everybody keeps what they guarantee until then. -/
structure Awaiting (db : Database) (r : AssemblyRequest) (s : AssemblyRace ι) : Prop where
  sound : s.Sound (indexes (assemblyCatalog db r)) (fun _ => PartFinished db) (untilCommit db)
    (atCommit db r)
  pending : ∀ x, s.activity none ≠ .ended (.ok x)

/-- The assembly has committed, and what it has assembled is there. -/
def Assembled (db : Database) (r : AssemblyRequest) (s : AssemblyRace ι) : Prop :=
  ∃ obj parts, s.activity none = .ended (.ok (some (obj, parts))) ∧
    AssembledFrom db r obj parts s.store.committed

variable [DecidableEq ι] [Fintype ι] {s : AssemblyRace ι} {t : Option ι}

theorem Awaiting.step (awaiting : Awaiting db r s) :
    Awaiting db r (s.step (indexes (assemblyCatalog db r)) t) ∨
      Assembled db r (s.step (indexes (assemblyCatalog db r)) t) := by
  refine System.step_cases (R := fun s' => Awaiting db r s' ∨ Assembled db r s')
    (Or.inl awaiting) fun store act turn => ?_
  obtain ⟨committed, unended⟩ | ⟨x, done, rfl, rfl⟩ := turn.committed
  · refine Or.inl ⟨awaiting.sound.turn PartFinished.refl (untilCommit_trans t) turn committed, ?_⟩
    by_cases mine : t = none
    · subst mine
      simpa only [Function.update_self] using unended
    · simpa only [Function.update_of_ne (Ne.symm mine)] using awaiting.pending
  · cases t with
    | none =>
      obtain ⟨obj, parts, rfl, assembled⟩ := awaiting.sound.post PartFinished.refl done
      refine Or.inr ⟨obj, parts, ?_, assembled⟩
      simp only [Function.update_self]
    | some i =>
      refine Or.inl ⟨awaiting.sound.commit (fun _ => PartFinished.refl)
        (fun _ => PartFinished.trans) (fun _ _ k old new finished => ?_) done, ?_⟩
      · exact finished
      simpa only [Function.update_of_ne (Option.some_ne_none i).symm] using awaiting.pending

/-- The completions that commit later change rows of parts only. -/
theorem Assembled.step (sound : s.Sound (indexes (assemblyCatalog db r)) (fun _ _ _ _ => True)
      anyTime fun _ _ _ _ => True) (assembled : Assembled db r s) :
    Assembled db r (s.step (indexes (assemblyCatalog db r)) t) := by
  refine System.step_cases assembled fun store act turn => ?_
  obtain ⟨obj, parts, ended, assembled⟩ := assembled
  cases t with
  | none =>
    rw [ended] at turn
    nomatch turn
  | some i =>
    refine ⟨obj, parts, ?_, ?_⟩
    · simpa only [Function.update_of_ne (Option.some_ne_none i).symm] using ended
    obtain ⟨committed, -⟩ | ⟨x, done, rfl, rfl⟩ := turn.committed
    · change AssembledFrom db r obj parts store.committed
      rw [committed]
      exact assembled
    · have unwritten {k : RowKey} (other : ∀ id, k ≠ .part id) :
          s.store.own (some i) k = none := by
        by_contra version
        obtain ⟨v, version⟩ := Option.ne_none_iff_exists'.mp version
        obtain ⟨id, same⟩ := sound.guarantee (some i) k v version
        exact other id same
      exact assembled.of_same (ReadCommitted.read_of_own_none (unwritten fun _ h => by cases h))
        fun c => ReadCommitted.read_of_own_none (unwritten fun _ h => by cases h)

/-- Along every run, the assembly has not committed or what it has assembled is there. -/
theorem awaiting_or_assembled (requests : ι → PartCompletion)
    (consistent : db.view.Consistent) (sealed : Sealed db) (schedule : List (Option ι)) :
    let s := run (System.step (indexes (assemblyCatalog db r))) (assemblyRace db r requests)
      schedule
    s.Sound (indexes (assemblyCatalog db r)) (fun _ _ _ _ => True) anyTime (fun _ _ _ _ => True) ∧
      (Awaiting db r s ∨ Assembled db r s) := by
  refine run_preserved (P := fun s : AssemblyRace ι =>
    s.Sound (indexes (assemblyCatalog db r)) (fun _ _ _ _ => True) anyTime (fun _ _ _ _ => True) ∧
      (Awaiting db r s ∨ Assembled db r s)) (fun s t ⟨sound, phase⟩ => ⟨?_, ?_⟩) ⟨sound_anyTime, ?_⟩
    schedule
  · exact sound.step (fun _ _ _ => trivial) (fun _ _ _ _ _ _ _ => trivial) (anyTime_trans t)
      fun _ _ _ _ _ _ => trivial
  · exact phase.elim Awaiting.step fun assembled => Or.inr (assembled.step sound)
  · exact Or.inl ⟨sound_untilCommit consistent sealed, fun _ ended => by cases ended⟩

/-- One session is completed while any number of parts are: whatever the interleaving, an
assembly that succeeds has taken over the chunks of the parts that it has listed, in order, and
no others. Their number is the object's; the object's size is what the parts declare, as long
as an `int64` can hold it. -/
theorem completeMultipartUpload_interleaved {calls : List Call}
    (reached : run Metadata.step Database.empty calls = db) {schedule : List (Option ι)}
    (after : run (System.step (indexes (assemblyCatalog db r))) (assemblyRace db r requests)
      schedule = s) {obj : Object} {parts : List PartRow}
    (done : (s.activity none).ended? = some (.ok (some (obj, parts)))) :
    AssembledFrom db r obj parts s.store.committed := by
  subst reached after
  have ended := Activity.ended?_eq_some.mp done
  obtain ⟨-, awaiting | ⟨obj', parts', ended', assembled⟩⟩ := awaiting_or_assembled
    requests (consistent_run consistent_empty calls) (sealed_run calls) schedule
  · exact absurd ended (awaiting.pending _)
  · rw [ended] at ended'
    cases ended'
    exact assembled

end Race

/-- Part 1 has a chunk of 8 bytes and declares 9; part 2, which is empty, is not finished. -/
def oneUnfinished : List Call :=
  [⟨0, .upsertNode "n1" "n1:9000" .healthy {} 0⟩, ⟨1, .createMultipartUpload 1 "b" "k" "" 8⟩,
    ⟨2, .beginPart 11 1 1⟩, ⟨3, .reserveChunk 100 ⟨none, some 11⟩ 0 8⟩,
    ⟨4, .recordChunkTargets 100 ["n1"]⟩, ⟨5, .commitChunk 100 5 8 ["n1"] [] 1⟩,
    ⟨6, .completePart 11 9 1 "e"⟩, ⟨7, .beginPart 12 1 2⟩]

/-- Part 2 is finished once the assembly has listed the parts. -/
def finishedBetween : List (Option Unit) :=
  [none, none] ++ List.replicate 6 (some ()) ++ List.replicate 40 none

def finishedDuring : AssemblyRace Unit :=
  run (System.step (indexes (assemblyCatalog (run Metadata.step Database.empty oneUnfinished)
      ⟨9, 50, 1, []⟩)))
    (assemblyRace (run Metadata.step Database.empty oneUnfinished) ⟨9, 50, 1, []⟩
      fun _ => ⟨8, 12, 0, 0, "f"⟩) finishedBetween

/-- The object that has been assembled, and the parts that had been listed. -/
def assembly? {ι : Type} (s : AssemblyRace ι) : Option (Object × List PartRow) :=
  ((s.activity none).ended?.bind Except.toOption).join

theorem ended?_of_assembly? {ι : Type} {s : AssemblyRace ι} {x : Object × List PartRow}
    (h : assembly? s = some x) : (s.activity none).ended? = some (.ok (some x)) := by
  unfold assembly? at h
  cases ended : (s.activity none).ended? with
  | none => simp [ended] at h
  | some result =>
    cases result with
    | error e => simp [ended, Except.toOption] at h
    | ok y => simpa [ended, Except.toOption] using h

theorem completeMultipartUpload_interleaved_finishedDuring :
    ∃ obj parts, parts.map PartRow.id = [11] ∧ AssembledFrom
      (run Metadata.step Database.empty oneUnfinished) ⟨9, 50, 1, []⟩ obj parts
      finishedDuring.store.committed := by
  have listed : (assembly? finishedDuring).map (fun x => x.2.map PartRow.id) = some [11] := by
    decide +kernel
  obtain ⟨⟨obj, parts⟩, done, ids⟩ := Option.map_eq_some_iff.mp listed
  exact ⟨obj, parts, ids, @completeMultipartUpload_interleaved Unit _ _ _ _ _ finishedDuring
    oneUnfinished rfl finishedBetween rfl obj parts (ended?_of_assembly? done)⟩

/-- What a part declares need not be the size of its chunks. -/
theorem assembled_size_differs :
    ∃ obj parts, (finishedDuring.activity none).ended? = some (.ok (some (obj, parts))) ∧
      obj.sizeBytes = 9 ∧ (parts.flatMap (committedChunks
        (run Metadata.step Database.empty oneUnfinished))).map (·.sizeBytes) = [8] := by
  have sizes : (assembly? finishedDuring).map (fun x => (x.1.sizeBytes, (x.2.flatMap
      (committedChunks (run Metadata.step Database.empty oneUnfinished))).map (·.sizeBytes))) =
        some (9, [8]) := by
    decide +kernel
  obtain ⟨⟨obj, parts⟩, done, same⟩ := Option.map_eq_some_iff.mp sizes
  exact ⟨obj, parts, ended?_of_assembly? done, (Prod.mk.inj same).1, (Prod.mk.inj same).2⟩

end FlexStore.Metadata.Concurrent
