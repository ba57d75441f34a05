import FlexStore.Metadata.Declared
import FlexStore.Metadata.Publication
import FlexStore.Metadata.Reclamation
import Mathlib.Data.List.Forall2

/-!
# Completing a multipart session

`CompleteMultipartUpload` is compared with what it is for: a session is `Ready` for a
manifest, and what it leaves is `Assembled`, stated on the parts and chunks it found
and without a word about how it renumbers them. The unique index on the COMPLETE parts
makes the order by part number strict, so the order of the window function is the one
part after the other.

The totals are added up in fixed-width arithmetic, which is the only other way in which
a session that is ready can be refused.
-/

namespace FlexStore.Metadata

open Relational Transition View

/-- The entry names the part and, if it gives an ETag, the part's, up to quotes around it. -/
def CompletedPartRef.Names (want : CompletedPartRef) (got : PartRow) : Prop :=
  want.partNumber = got.partNumber ∧
    (want.etag ≠ "" → trimQuotes want.etag = nullString got.etag)

/-- The session can be completed: it is IN_PROGRESS, has a COMPLETE part, and either no
manifest is given and no part is UPLOADING, or the manifest lists the COMPLETE parts. -/
def Ready (db : Database) (uploadID : UUID) (expected : List CompletedPartRef) : Prop :=
  (db.uploads.find? uploadID).any (·.state = .inProgress) ∧ completeParts uploadID db ≠ [] ∧
    ((expected = [] ∧ ∀ p ∈ db.parts.rows, p.uploadID = uploadID → p.state ≠ .uploading) ∨
      (expected ≠ [] ∧ List.Forall₂ CompletedPartRef.Names expected (completeParts uploadID db)))

instance {want : CompletedPartRef} {got : PartRow} : Decidable (want.Names got) :=
  inferInstanceAs (Decidable (_ ∧ _))

instance {db : Database} {uploadID : UUID} {expected : List CompletedPartRef} :
    Decidable (Ready db uploadID expected) :=
  inferInstanceAs (Decidable (_ ∧ _ ∧ _))

/-- The COMMITTED chunks of a part in index order. -/
def committedChunks (db : Database) (p : PartRow) : List ChunkRow :=
  ((chunksOf (.part p.id) db).filter (·.state = .committed)).insertionSort
    fun a b => a.index ≤ b.index

/-- The COMMITTED chunks of the COMPLETE parts, part after part. -/
def orderedChunks (uploadID : UUID) (db : Database) : List ChunkRow :=
  (completeParts uploadID db).flatMap (committedChunks db)

def ofSession (db : Database) (uploadID : UUID) (row : ChunkRow) : Bool :=
  (partOf db row).any (·.uploadID = uploadID)

/-- What a completed session leaves: the object has the ordered chunks, numbered from zero,
with their copies as they were, and the session's other chunks are garbage. -/
structure Assembled (db db' : Database) (objectID uploadID : UUID) (obj : Object) : Prop where
  stored : (db'.objects.find? objectID).map scanObject = some obj
  state : obj.state = .complete
  chunks : (chunksOf (.object objectID) db').Perm ((orderedChunks uploadID db).mapIdx fun i c =>
    { c with owner := .object objectID, index := i })
  count : obj.chunkCount = (orderedChunks uploadID db).length
  size : obj.sizeBytes = ((completeParts uploadID db).map (·.sizeBytes)).sum
  copies : ∀ c ∈ orderedChunks uploadID db, ∀ n,
    db'.replicas.find? (c.id, n) = db.replicas.find? (c.id, n)
  orphans : ∀ c ∈ db.chunks.rows, ofSession db uploadID c → c ∉ orderedChunks uploadID db →
    db'.chunks.find? c.id = some { c with state := .orphaned }
  garbage : ∀ c ∈ db.chunks.rows, ofSession db uploadID c → c ∉ orderedChunks uploadID db →
    ∀ r ∈ db'.replicas.rows, r.chunkID = c.id →
      r.state = .deleting ∧ db'.queued r.chunkID r.nodeID

variable {db db' : Database} {op : Op} {r : Reply} {uploadID objectID : UUID}
variable {expected : List CompletedPartRef} {now : Time}

section Acceptance

theorem manifestMatches_iff {parts : List PartRow} : manifestMatches expected parts ↔
    List.Forall₂ CompletedPartRef.Names expected parts := by
  rw [List.forall₂_iff_zip, manifestMatches, Bool.and_eq_true, decide_eq_true_eq,
    List.all_eq_true]
  refine and_congr_right fun _ => ⟨fun all want got member => ?_, fun all pair member => ?_⟩
  · have agrees := all (want, got) member
    simp only [CompletedPartRef.agrees, Bool.and_eq_true, Bool.or_eq_true,
      decide_eq_true_eq] at agrees
    exact ⟨agrees.1, fun given => agrees.2.resolve_left given⟩
  · obtain ⟨want, got⟩ := pair
    obtain ⟨number, etag⟩ := all member
    simp only [CompletedPartRef.agrees, Bool.and_eq_true, Bool.or_eq_true, decide_eq_true_eq]
    exact ⟨number, or_iff_not_imp_left.mpr etag⟩

/-- The conditions on the parts that a completion checks. -/
theorem acceptParts_iff : acceptParts uploadID expected db = .ok (completeParts uploadID db) ↔
    completeParts uploadID db ≠ [] ∧
      ((expected = [] ∧ ∀ p ∈ db.parts.rows, p.uploadID = uploadID → p.state ≠ .uploading) ∨
        (expected ≠ [] ∧
          List.Forall₂ CompletedPartRef.Names expected (completeParts uploadID db))) := by
  have idle : (¬db.parts.rows.any fun p => p.uploadID = uploadID && p.state = .uploading) ↔
      ∀ p ∈ db.parts.rows, p.uploadID = uploadID → p.state ≠ .uploading := by
    simp only [List.any_eq_true, not_exists, not_and, Bool.and_eq_true, decide_eq_true_eq, ne_eq]
  simp only [acceptParts, bind_eq_ok, require_eq_ok, pure_eq_ok, exists_const, and_true,
    manifestMatches_iff, idle]
  by_cases given : expected = []
  · simp [given, and_comm]
  · simp [given]

end Acceptance

/-- A session has one COMPLETE part for each part number. -/
def PartNumbersUnique (db : Database) : Prop :=
  ∀ a b x y, db.view.parts a = some x → db.view.parts b = some y → x.state = .complete →
    y.state = .complete → x.uploadID = y.uploadID → x.partNumber = y.partNumber → a = b

theorem partNumbersUnique_step {call : Call} (holds : PartNumbersUnique db) :
    PartNumbersUnique (step db call) := by
  refine step_cases (R := PartNumbersUnique) holds fun reply db' h => ?_
  have change := exec_change h
  -- A part that has just become COMPLETE has met the unique index.
  have alone {a b : UUID} {x y : PartRow} {size count : Int} {etag : String}
      (completes : call.op = .completePart a size count etag) (first : db.view.parts a = some x)
      (second : db.view.parts b = some y) (complete : y.state = .complete)
      (session : x.uploadID = y.uploadID) (number : x.partNumber = y.partNumber) : a = b := by
    obtain ⟨now, op⟩ := call
    obtain rfl : op = .completePart a size count etag := completes
    simp only [exec, silent_eq_ok] at h
    have row : x.id = a := (Table.mem_of_find? first).2
    have other : y.id = b := (Table.mem_of_find? second).2
    have rival := completePart_alone h.1 first (Table.mem_of_find? second).1
    by_contra differ
    refine rival ?_
    simp [rivalPart, session, number, complete, row, other, Ne.symm differ]
  intro a b x y first second complete complete' session number
  have move := change.part_move a
  have move' := change.part_move b
  rw [first] at move
  rw [second] at move'
  generalize before : db.view.parts a = old at move
  generalize before' : db.view.parts b = old' at move'
  cases move with
  | begun state => simp [state] at complete
  | failed => simp at complete
  | same =>
    cases move' with
    | begun state => simp [state] at complete'
    | failed => simp at complete'
    | same => exact holds _ _ _ _ before before' complete complete' session number
    | completed _ _ _ _ call' =>
      exact (alone call' before' before complete session.symm number.symm).symm
  | completed _ _ _ _ call' =>
    cases move' with
    | begun state => simp [state] at complete'
    | failed => simp at complete'
    | same => exact alone call' before before' complete' session number
    | completed _ _ _ _ call'' =>
      have same := call'.symm.trans call''
      simp only [Op.completePart.injEq] at same
      exact same.1

theorem partNumbersUnique_run (calls : List Call) :
    PartNumbersUnique (run step Database.empty calls) := by
  refine run_preserved (P := PartNumbersUnique) (fun _ _ => partNumbersUnique_step) ?_ calls
  intro a b x y found
  simp [Database.view, Database.empty] at found

section Order

/-- So the COMPLETE parts of a session ascend strictly. -/
theorem completeParts_ascending (unique : PartNumbersUnique db) :
    (completeParts uploadID db).Pairwise fun p q => p.partNumber < q.partNumber := by
  have total : Std.Total fun p q : PartRow => p.partNumber ≤ q.partNumber :=
    ⟨fun p q => Int.le_total _ _⟩
  have trans : IsTrans PartRow fun p q => p.partNumber ≤ q.partNumber :=
    ⟨fun _ _ _ => Int.le_trans⟩
  have sorted : (completeParts uploadID db).Pairwise fun p q => p.partNumber ≤ q.partNumber :=
    List.pairwise_insertionSort _ _
  have ids : (completeParts uploadID db).Pairwise fun p q => p.id ≠ q.id :=
    List.pairwise_map.mp
      (((List.perm_insertionSort _ _).map _).nodup_iff.mpr (Table.nodup_select _ _))
  refine (sorted.and ids).imp_of_mem fun {p q} first second ordered => ?_
  obtain ⟨found, session, complete⟩ := mem_completeParts.mp first
  obtain ⟨found', session', complete'⟩ := mem_completeParts.mp second
  refine lt_of_le_of_ne ordered.1 fun same => ordered.2 ?_
  exact unique _ _ _ _ found found' complete complete' (session.trans session'.symm) same

theorem mem_committedChunks {p : PartRow} {c : ChunkRow} : c ∈ committedChunks db p ↔
    db.view.chunks c.id = some c ∧ c.owner = .part p.id ∧ c.state = .committed := by
  simp [committedChunks, mem_chunksOf, and_assoc]

/-- The order of the window function is that of part after part. -/
theorem assembledChunks_eq (consistent : db.view.Consistent) (unique : PartNumbersUnique db) :
    assembledChunks uploadID db = orderedChunks uploadID db := by
  let number := fun c : ChunkRow => ((partOf db c).map (·.partNumber)).getD 0
  let before := fun a b : ChunkRow => number a < number b ∨ number a = number b ∧ a.index ≤ b.index
  have numbered {p : PartRow} {c : ChunkRow} (listed : p ∈ completeParts uploadID db)
      (member : c ∈ committedChunks db p) : number c = p.partNumber := by
    have found : db.parts.find? p.id = some p := (mem_completeParts.mp listed).1
    simp [number, partOf, (mem_committedChunks.mp member).2.1, found]
  have total : Std.Total before := ⟨fun a b => by simp only [before]; omega⟩
  have trans : IsTrans ChunkRow before := ⟨fun a b c => by simp only [before]; omega⟩
  have perm : (assembledChunks uploadID db).Perm (orderedChunks uploadID db) :=
    assembledChunks_perm_committed.trans
      (List.Perm.flatMap_left _ fun _ _ => (List.perm_insertionSort _ _).symm)
  have ordered : (orderedChunks uploadID db).Pairwise before := by
    have total : Std.Total fun a b : ChunkRow => a.index ≤ b.index := ⟨fun _ _ => Nat.le_total _ _⟩
    have trans : IsTrans ChunkRow fun a b => a.index ≤ b.index := ⟨fun _ _ _ => Nat.le_trans⟩
    refine List.pairwise_flatMap.mpr ⟨fun p listed => ?_, ?_⟩
    · refine (List.pairwise_insertionSort _ _).imp_of_mem fun {a b} first second below => ?_
      exact Or.inr ⟨(numbered listed first).trans (numbered listed second).symm, below⟩
    · refine (completeParts_ascending unique).imp_of_mem fun {p q} first second below a member b
        member' => Or.inl ?_
      rw [numbered first member, numbered second member']
      exact below
  refine perm.eq_of_pairwise ?_ (List.pairwise_insertionSort before _) ordered
  intro a b first second below above
  obtain ⟨p, listed, member⟩ := List.mem_flatMap.mp (perm.mem_iff.mp first)
  obtain ⟨q, listed', member'⟩ := List.mem_flatMap.mp second
  obtain ⟨found, owner, -⟩ := mem_committedChunks.mp member
  obtain ⟨found', owner', -⟩ := mem_committedChunks.mp member'
  obtain ⟨row, session, complete⟩ := mem_completeParts.mp listed
  obtain ⟨row', session', complete'⟩ := mem_completeParts.mp listed'
  have level : number a = number b ∧ a.index = b.index := by
    simp only [before] at below above
    omega
  have part : p.id = q.id := by
    refine unique _ _ _ _ row row' complete complete' (session.trans session'.symm) ?_
    rw [← numbered listed member, ← numbered listed' member', level.1]
  have same : a.id = b.id :=
    consistent.index found found' (by rw [owner, owner', part]) level.2
  rw [same, found'] at found
  exact (Option.some.inj found).symm

end Order

section Success

/-- The chunks that an assembly takes over get different positions. -/
theorem nodup_reparent (consistent : db.view.Consistent)
    (fresh : db.view.objects objectID = none) {ids : List UUID} {objects : Table ObjectRow.id} :
    ((chunksOf (.object objectID) (reparentChunks objectID ids { db with objects })).map
      (·.index)).Nodup := by
  refine nodup_chunksOf.map_on fun x first y second same => ?_
  obtain ⟨found, owner⟩ := mem_chunksOf.mp first
  obtain ⟨found', owner'⟩ := mem_chunksOf.mp second
  have taken {x : ChunkRow} (found : (reparentChunks objectID ids { db with objects }).view.chunks
      x.id = some x) (owner : x.owner = .object objectID) :
      x.id ∈ ids ∧ x.index = ids.idxOf x.id := by
    rw [reparentChunks, view_updateChunks] at found
    obtain ⟨old, before, rfl⟩ := Option.map_eq_some_iff.mp found
    by_cases member : old.id ∈ ids
    · simp [member]
    · have mine : old.owner = .object objectID := by simpa [member] using owner
      have held : db.view.chunks old.id = some old := by
        simp only [member, decide_false, Bool.false_eq_true, if_false] at before
        exact before
      exact absurd mine (consistent.unowned fresh held)
  obtain ⟨member, position⟩ := taken found owner
  obtain ⟨member', position'⟩ := taken found' owner'
  have id : x.id = y.id := by
    refine List.idxOf_inj member |>.mp ?_
    rw [← position, ← position', same]
  rw [id] at found
  exact Option.some.inj (found.symm.trans found')

/-- In an open session as many chunks are taken over as the COMPLETE parts declared. -/
theorem length_assembledChunks (sealed : Sealed db) (progress : db.view.progressing uploadID) :
    (assembledChunks uploadID db).length =
      ((completeParts uploadID db).map (·.chunkCount)).sum := by
  rw [(assembledChunks_perm sealed progress).length_eq, List.length_flatMap]
  refine congrArg List.sum (List.map_congr_left fun p listed => ?_)
  have declared := sealed.count _ (status_of_mem_completeParts progress listed)
  rw [View.declared, (mem_completeParts.mp listed).1] at declared
  exact (Option.some.inj declared).symm

/-- A session that is ready is completed, unless its totals are too large. -/
theorem completeMultipartUpload_of_ready (consistent : db.view.Consistent) (sealed : Sealed db)
    (fresh : db.objects.find? objectID = none)
    (small : ((completeParts uploadID db).map (·.sizeBytes)).sum < 2 ^ 63)
    (few : ((completeParts uploadID db).map (·.chunkCount)).sum < 2 ^ 31)
    (ready : Ready db uploadID expected) :
    ∃ obj db', completeMultipartUpload now objectID uploadID expected db = .ok (obj, db') := by
  obtain ⟨open_, parts⟩ := ready
  obtain ⟨session, found, progress⟩ := (Option.any_eq_true _ _).mp open_
  have counted : (((assembledChunks uploadID db).map (·.id)).length : Int) =
      totalChunks (completeParts uploadID db) := by
    rw [totalChunks_eq few, List.length_map, length_assembledChunks sealed open_]
  have inserted : db.objects.insert? (newObject now objectID session.bucket session.key
      session.contentType session.chunkSize db) = some (db.objects.append _ fresh) :=
    Table.insert?_eq_some.mpr ⟨fresh, rfl⟩
  have new : (reparentChunks objectID ((assembledChunks uploadID db).map (·.id)) { db with
      objects := db.objects.append (newObject now objectID session.bucket session.key
        session.contentType session.chunkSize db) fresh }).view.objects objectID =
      some (newObject now objectID session.bucket session.key session.contentType
        session.chunkSize db) :=
    (congrFun (Table.find?_append_eq _ _ fresh) objectID).trans (Function.update_self _ _ _)
  have sized : 0 ≤ totalSize (completeParts uploadID db) := by rw [totalSize_eq small]; omega
  have natural : 0 ≤ totalChunks (completeParts uploadID db) := by rw [totalChunks_eq few]; omega
  obtain ⟨obj, promoted, promotion⟩ := promoteObject_superseded now
    (multipartETag ((completeParts uploadID db).map fun p => nullString p.etag)) new rfl rfl
    sized natural
  simp only [completeMultipartUpload, bind_eq_ok, lookup_eq_ok, require_eq_ok, pure_eq_ok]
  exact ⟨_, _, session, found, (), of_decide_eq_true progress, _, acceptParts_iff.mpr parts, _,
    inserted, (), nodup_reparent consistent fresh, (), counted, (obj, promoted), promotion, rfl⟩

end Success

theorem ready_of_ok {obj : Object}
    (h : completeMultipartUpload now objectID uploadID expected db = .ok (obj, db')) :
    Ready db uploadID expected := by
  simp only [completeMultipartUpload, bind_eq_ok, lookup_eq_ok, require_eq_ok] at h
  obtain ⟨session, found, -, progress, parts, accepted, -⟩ := h
  obtain rfl := acceptParts_ok accepted
  exact ⟨by simp [found, progress], acceptParts_iff.mp accepted⟩

section Effect

/-- Numbering by position in the list of ids is numbering from zero. -/
theorem map_reparent_eq_mapIdx {chunks : List ChunkRow} (distinct : (chunks.map (·.id)).Nodup) :
    chunks.map (ChunkRow.reparent objectID (chunks.map (·.id))) =
      chunks.mapIdx fun i c => { c with owner := .object objectID, index := i } := by
  refine List.ext_getElem (by simp) fun i first second => ?_
  have bound : i < chunks.length := by simpa using first
  have position : (chunks.map (·.id)).idxOf chunks[i].id = i := by
    have placed := distinct.idxOf_getElem i (by simpa using bound)
    rwa [List.getElem_map] at placed
  simp [position]

theorem find?_condemnReplicas {chunk : UUID → Bool} {c : UUID} (spared : chunk c = false)
    (n : NodeID) :
    (condemnReplicas now chunk db).replicas.find? (c, n) = db.replicas.find? (c, n) := by
  have rows : (condemnReplicas now chunk db).replicas.find? (c, n) =
      (db.replicas.find? (c, n)).map fun r =>
        if chunk r.chunkID then { r with state := .deleting, updatedAt := now } else r := by
    simp only [condemnReplicas, Database.setReplicaState, Database.updateReplicas,
      Database.writeReplicas, Database.enqueueDeletions]
    exact Table.find?_updateWhere ..
  rw [rows]
  cases found : db.replicas.find? (c, n) with
  | none => rfl
  | some r =>
    obtain ⟨-, rfl, -⟩ := replica_of_find? found
    simp [spared]

theorem find?_foldl_enqueueObjectChunkDeletions (db : Database) {ids : List UUID} {c : UUID}
    {owner : Owner} (mine : (db.view.chunks c).any (·.owner = owner))
    (spared : ∀ id ∈ ids, owner ≠ .object id) (n : NodeID) :
    (ids.foldl (enqueueObjectChunkDeletions now) db).replicas.find? (c, n) =
      db.replicas.find? (c, n) := by
  induction ids generalizing db with
  | nil => rfl
  | cons id rest ih =>
    have chunks : (enqueueObjectChunkDeletions now db id).view.chunks = db.view.chunks := by
      rw [view_enqueueObjectChunkDeletions]
      rfl
    rw [List.foldl_cons, ih _ (by rw [chunks]; exact mine)
      fun k member => spared k (List.mem_cons_of_mem id member)]
    refine find?_condemnReplicas ?_ n
    obtain ⟨row, found, same⟩ := (Option.any_eq_true _ _).mp mine
    have held : db.chunks.find? c = some row := found
    have other : row.owner ≠ .object id := by
      rw [of_decide_eq_true same]
      exact spared id List.mem_cons_self
    simp [Database.ownedBy, held, other]

/-- Superseding leaves the copies of every other owner alone. -/
theorem find?_supersedeCurrentVersion (now : Time) (bucket key : String) {c : UUID}
    (mine : (db.view.chunks c).any (·.owner = .object objectID)) (n : NodeID) :
    (supersedeCurrentVersion now bucket key objectID db).replicas.find? (c, n) =
      db.replicas.find? (c, n) := by
  unfold supersedeCurrentVersion
  refine (find?_foldl_enqueueObjectChunkDeletions _ (by exact mine) ?_ n).trans rfl
  intro id member same
  obtain ⟨row, found, superseded⟩ :=
    (Option.any_eq_true _ _).mp (Table.mem_map_key_select.mp member)
  obtain rfl : objectID = id := Owner.object.inj same
  simp [supersededBy, (Table.mem_of_find? found).2] at superseded

theorem chunks_supersedeCurrentVersion (now : Time) (bucket key : String) (newID : UUID)
    (db : Database) :
    (supersedeCurrentVersion now bucket key newID db).view.chunks = db.view.chunks := by
  rw [view_supersedeCurrentVersion]
  rfl

/-- The rows of the copies of the chunks that an assembly takes over are not touched. -/
theorem find?_completeMultipartUpload {obj : Object} {c : UUID}
    (h : completeMultipartUpload now objectID uploadID expected db = .ok (obj, db'))
    (taken : c ∈ (assembledChunks uploadID db).map (·.id)) (n : NodeID) :
    db'.replicas.find? (c, n) = db.replicas.find? (c, n) := by
  simp only [completeMultipartUpload, bind_eq_ok, require_eq_ok, lookup_eq_ok, pure_eq_ok,
    Prod.exists, Prod.mk.injEq] at h
  obtain ⟨session, -, -, -, parts, -, objects, -, -, -, -, -, obj, promoted, promotion, rfl, rfl⟩ :=
    h
  obtain ⟨x, listed, rfl⟩ := List.mem_map.mp taken
  have mine : ((reparentChunks objectID ((assembledChunks uploadID db).map (·.id))
      { db with objects }).view.chunks x.id).any (·.owner = .object objectID) := by
    have before : { db with objects }.view.chunks x.id = some x := find?_of_assembled listed
    rw [reparentChunks, view_updateChunks]
    simp only [View.mapChunks, before, Option.map_some, Option.any_some, taken, decide_true,
      if_true]
  have kept := find?_supersedeCurrentVersion now session.bucket session.key mine n
  simp only [promoteObject, bind_eq_ok, require_eq_ok, lookup_eq_ok, pure_eq_ok,
    Prod.mk.injEq] at promotion
  obtain ⟨row, -, -, -, -, -, rfl, rfl⟩ := promotion
  refine (find?_condemnReplicas ?_ n).trans kept
  obtain ⟨chunk, found, owner⟩ := (Option.any_eq_true _ _).mp mine
  rw [← chunks_supersedeCurrentVersion now session.bucket session.key objectID] at found
  have held := found
  simp only [Database.view] at held
  simp only [inUpload, held, Option.any_some, of_decide_eq_true owner]

theorem ofSession_eq {c : ChunkRow} :
    ofSession db uploadID c = db.view.partWith (·.uploadID = uploadID) c.owner := by
  cases owner : c.owner with
  | object => simp [ofSession, partOf, owner, View.partWith]
  | part id =>
    simp only [ofSession, partOf, owner, View.partWith]
    rfl

/-- A chunk of the session that an assembly does not take over is ORPHANED and its copies are
condemned. -/
theorem Change.left_over {uploadID objectID : UUID} {c : ChunkRow}
    (change : Change db db' (.completeMultipartUpload objectID uploadID expected) r)
    (found : db.view.chunks c.id = some c) (mine : ofSession db uploadID c)
    (left : c ∉ assembledChunks uploadID db) :
    db'.view.chunks c.id = some c.orphan ∧
      ∀ n, db'.view.slots c.id n = (db.view.slots c.id n).condemn := by
  have stays : c.id ∉ (assembledChunks uploadID db).map (·.id) := by
    intro listed
    obtain ⟨x, member, same⟩ := List.mem_map.mp listed
    have row := find?_of_assembled member
    rw [same, found] at row
    exact left (Option.some.inj row ▸ member)
  cases change with
  | assembled _ _ _ now session row _ _ _ middle _ _ fresh new _ _ _ _ promoted view =>
    rw [ofSession_eq] at mine
    have named : row.id = objectID := by rw [new]; rfl
    have rows : db'.view.chunks c.id = ((db.view.assemble row ((assembledChunks uploadID db).map
        (·.id))).chunks c.id).map fun x =>
        if db.view.partWith (·.uploadID = uploadID) x.owner then x.orphan else x := by
      rw [view, promoted]
      rfl
    have orphan : db'.view.chunks c.id = some c.orphan := by
      rw [rows]
      simp only [View.assemble, View.mapChunks, found, Option.map_some, stays, decide_false,
        Bool.false_eq_true, if_false, mine, if_true]
    refine ⟨orphan, fun n => ?_⟩
    have deaths := View.Deaths.assembled fresh named rfl promoted view
    rw [deaths.slots c.id n, if_pos]
    simp [View.ownedBy, orphan, mine]
  | registered _ _ _ call => cases call
  | bookkeeping quiet | failed quiet | sessionsAborted quiet | trimmed quiet | purged quiet
  | sessionsPurged quiet => cases quiet.2

end Effect

/-- What a successful completion leaves. -/
theorem assembled_of_ok {obj : Object} (consistent : db.view.Consistent)
    (unique : PartNumbersUnique db) (queued : DeletingQueued db)
    (small : ((completeParts uploadID db).map (·.sizeBytes)).sum < 2 ^ 63)
    (h : completeMultipartUpload now objectID uploadID expected db = .ok (obj, db')) :
    Assembled db db' objectID uploadID obj := by
  have order : assembledChunks uploadID db = orderedChunks uploadID db :=
    assembledChunks_eq consistent unique
  have called : exec ⟨now, .completeMultipartUpload objectID uploadID expected⟩ db =
      .ok (.object obj, db') := answer_eq_ok.mpr ⟨obj, h, rfl⟩
  have change := exec_change called
  obtain ⟨session, row, size, count, etag, middle, -, -, fresh, -, sized, -, -, -, counted, rfl,
    promoted, view⟩ := completeMultipartUpload_ok h
  have finished : db'.view.objects objectID =
      some (row.finish now size.toNat count.toNat etag) := by
    rw [view, promoted]
    exact Function.update_self ..
  have after : db'.view.status (.object objectID) = .sealed := by
    simp [View.status, finished, ObjectRow.finish, ObjectState.status]
  have left {c : ChunkRow} (held : c ∈ db.chunks.rows) (mine : ofSession db uploadID c)
      (other : c ∉ orderedChunks uploadID db) :=
    change.left_over (Table.find?_of_mem held) mine (order ▸ other)
  refine ⟨?_, rfl, ?_, ?_, ?_, fun c taken n => ?_, fun c held mine other => ?_,
    fun c held mine other r listed copy => ?_⟩
  · exact congrArg (Option.map scanObject) finished
  · rw [← order, ← map_reparent_eq_mapIdx nodup_assembledChunks]
    exact change.assembled_chunks consistent fresh after
  · rw [← order]
    change count.toNat = _
    omega
  · change size.toNat = _
    rw [sized, totalSize_eq small, Int.toNat_natCast]
  · rw [← order] at taken
    exact find?_completeMultipartUpload h (List.mem_map_of_mem taken) n
  · exact (left held mine other).1
  · have slot := (left held mine other).2 r.nodeID
    have held : (db.view.slots c.id r.nodeID).condemn.replica = some r.state := by
      rw [← slot]
      exact replicaState_eq_some.mpr ⟨r, listed, copy, rfl, rfl⟩
    obtain ⟨deleting, job⟩ := Slot.condemn_garbage (queued c.id r.nodeID) held
    rw [← slot] at job
    rw [copy]
    exact ⟨deleting, job⟩

/-- In every reachable state a session is completed exactly if it is ready; the object then has
the chunks of its COMPLETE parts, part after part, and the rest of the session is garbage. A
refused completion changes nothing. -/
theorem completeMultipartUpload_exact (calls : List Call) (now : Time) (objectID uploadID : UUID)
    (expected : List CompletedPartRef) {db : Database}
    (named : Guarded step (fun db call => call.op.misnamesJob db = false) Database.empty calls)
    (reached : run step Database.empty calls = db) (fresh : db.objects.find? objectID = none)
    (small : ((completeParts uploadID db).map (·.sizeBytes)).sum < 2 ^ 63)
    (few : ((completeParts uploadID db).map (·.chunkCount)).sum < 2 ^ 31) :
    (completeParts uploadID db).Pairwise (fun p q => p.partNumber < q.partNumber) ∧
      ((∃ obj db', completeMultipartUpload now objectID uploadID expected db = .ok (obj, db')) ↔
        Ready db uploadID expected) ∧
      (∀ obj db', completeMultipartUpload now objectID uploadID expected db = .ok (obj, db') →
        Assembled db db' objectID uploadID obj) ∧
      ∀ e, completeMultipartUpload now objectID uploadID expected db = .error e →
        step db ⟨now, .completeMultipartUpload objectID uploadID expected⟩ = db := by
  subst reached
  have consistent := consistent_run consistent_empty calls
  have unique := partNumbersUnique_run calls
  refine ⟨completeParts_ascending unique, ⟨?_, ?_⟩, fun obj db' h => ?_, fun e refused => ?_⟩
  · rintro ⟨obj, db', h⟩
    exact ready_of_ok h
  · exact completeMultipartUpload_of_ready consistent (sealed_run calls) fresh small few
  · exact assembled_of_ok consistent unique (deletingQueued_run named) small h
  · simp only [step, exec, answer, refused, Except.map]

/-- Part 2 is uploaded first and once more after part 1. -/
def repeatedPart : List Call :=
  [⟨0, .upsertNode "n1" "n1:9000" .healthy {} 0⟩, ⟨0, .createMultipartUpload 1 "b" "k" "" 8⟩,
    ⟨1, .beginPart 11 1 2⟩, ⟨2, .reserveChunk 100 ⟨none, some 11⟩ 0 3⟩,
    ⟨3, .recordChunkTargets 100 ["n1"]⟩, ⟨4, .commitChunk 100 5 3 ["n1"] [] 1⟩,
    ⟨5, .completePart 11 3 1 "e"⟩,
    ⟨6, .beginPart 12 1 1⟩, ⟨7, .reserveChunk 101 ⟨none, some 12⟩ 0 4⟩,
    ⟨8, .recordChunkTargets 101 ["n1"]⟩, ⟨9, .commitChunk 101 6 4 ["n1"] [] 1⟩,
    ⟨10, .completePart 12 4 1 "f"⟩,
    ⟨11, .beginPart 13 1 2⟩, ⟨12, .reserveChunk 102 ⟨none, some 13⟩ 0 5⟩,
    ⟨13, .recordChunkTargets 102 ["n1"]⟩, ⟨14, .commitChunk 102 7 5 ["n1"] [] 1⟩,
    ⟨15, .completePart 13 5 1 "g"⟩]

theorem completeMultipartUpload_exact_repeatedPart :
    (orderedChunks 1 (run step Database.empty repeatedPart)).map (·.id) = [101, 102] ∧
      ∃ obj db', completeMultipartUpload 16 50 1 [⟨1, ""⟩, ⟨2, "\"g\""⟩]
          (run step Database.empty repeatedPart) = .ok (obj, db') ∧
        Assembled (run step Database.empty repeatedPart) db' 50 1 obj := by
  obtain ⟨-, success, assembled, -⟩ := completeMultipartUpload_exact repeatedPart 16 50 1
    [⟨1, ""⟩, ⟨2, "\"g\""⟩] (by decide +kernel) rfl (by decide +kernel) (by decide +kernel)
    (by decide +kernel)
  obtain ⟨obj, db', h⟩ := success.mpr (by decide +kernel)
  exact ⟨by decide +kernel, obj, db', h, assembled obj db' h⟩

/-- Two parts of half the largest size. -/
def hugeParts : List Call :=
  [⟨0, .createMultipartUpload 1 "b" "k" "" 8⟩, ⟨1, .beginPart 11 1 1⟩, ⟨2, .beginPart 12 1 2⟩,
    ⟨3, .completePart 11 (2 ^ 62) 0 "e"⟩, ⟨4, .completePart 12 (2 ^ 62) 0 "f"⟩]

/-- The session is ready, and its total wraps to a negative number, which the table refuses. -/
theorem completeMultipartUpload_refuses_hugeParts :
    Ready (run step Database.empty hugeParts) 1 [] ∧
      completeMultipartUpload 5 50 1 [] (run step Database.empty hugeParts) =
        .error (.constraint .check) :=
  ⟨by decide +kernel, by rfl⟩

end FlexStore.Metadata
