import FlexStore.Metadata.Scan
import FlexStore.Relational.Counting

/-!
# Durability accounting

Two calls that look at the counters of all chunks. The verifier recounts them, and finds
nothing to correct in a state that the store's own calls have reached. Trimming selects its
chunks by the counter and its victims by their rank among the rows, so a counter that is
wrong decides which chunks are looked at and never how many copies remain.
-/

namespace FlexStore.Metadata

open Relational Transition

/-- The verifier sets every counter to the number of AVAILABLE rows and returns how many were
wrong, and after any calls of the store that is none. -/
theorem verifyDurabilityCounters_exact (db : Database) :
    (∀ c, (db.chunks.find? c).isSome →
        (verifyDurabilityCounters db).2.availableReplicas c = db.countAvailable c) ∧
      (verifyDurabilityCounters db).2.replicas = db.replicas ∧
      (verifyDurabilityCounters db).1 =
        {c | (db.chunks.find? c).isSome ∧ db.availableReplicas c ≠ db.countAvailable c}.ncard ∧
      ∀ calls, (verifyDurabilityCounters (run step Database.empty calls)).1 = 0 := by
  refine ⟨fun c present => if_pos present, rfl, ?_, fun calls => ?_⟩
  · refine (Table.count_eq_ncard db.chunks _).trans (congrArg Set.ncard (Set.ext fun c => ?_))
    rw [Set.mem_ofPred_eq, Set.mem_ofPred_eq]
    cases found : db.chunks.find? c with
    | none => simp
    | some row =>
      obtain ⟨-, rfl⟩ := Table.mem_of_find? found
      simp
  · refine List.countP_eq_zero.mpr fun row _ => ?_
    simp [counted_run calls row.id]

section Ranking

variable {db : Database} {c : UUID} {n m : NodeID}

def usedBytes (db : Database) (n : NodeID) : Int :=
  ((db.nodes.find? n).map (·.stats.usedBytes)).getD 0

/-- The order in which trimming ranks the nodes of a chunk: `used_bytes`, then `id`. -/
def Emptier (db : Database) (n m : NodeID) : Prop :=
  usedBytes db n < usedBytes db m ∨ usedBytes db n = usedBytes db m ∧ n ≤ m

theorem pairwise_rankedNodes (db : Database) (c : UUID) :
    (rankedNodes db c).Pairwise (Emptier db) := by
  have total : Std.Total fun a b : ReplicaRow => usedBytes db a.nodeID < usedBytes db b.nodeID ∨
      usedBytes db a.nodeID = usedBytes db b.nodeID ∧ a.nodeID ≤ b.nodeID := by
    refine ⟨fun a b => ?_⟩
    rcases Int.lt_trichotomy (usedBytes db a.nodeID) (usedBytes db b.nodeID) with
      less | same | more
    · exact Or.inl (Or.inl less)
    · refine (String.le_total a.nodeID b.nodeID).imp (fun below => ?_) fun below => ?_
      · exact Or.inr ⟨same, below⟩
      · exact Or.inr ⟨same.symm, below⟩
    · exact Or.inr (Or.inl more)
  have trans : IsTrans ReplicaRow fun a b => usedBytes db a.nodeID < usedBytes db b.nodeID ∨
      usedBytes db a.nodeID = usedBytes db b.nodeID ∧ a.nodeID ≤ b.nodeID := by
    refine ⟨fun a b c first second => ?_⟩
    rcases first with less | ⟨same, below⟩
    · exact Or.inl (by omega)
    · rcases second with less | ⟨same', below'⟩
      · exact Or.inl (by omega)
      · exact Or.inr ⟨same.trans same', String.le_trans below below'⟩
  have sorted := List.pairwise_insertionSort (fun a b : ReplicaRow =>
    usedBytes db a.nodeID < usedBytes db b.nodeID ∨
      usedBytes db a.nodeID = usedBytes db b.nodeID ∧ a.nodeID ≤ b.nodeID)
    (db.replicas.select fun r => r.chunkID = c && r.state = .available &&
      (db.nodes.find? r.nodeID).isSome)
  exact List.pairwise_map.mpr sorted

theorem nodup_rankedNodes (db : Database) (c : UUID) : (rankedNodes db c).Nodup := by
  refine ((List.perm_insertionSort _ _).map _).nodup_iff.mpr ?_
  refine (List.nodup_map_iff_inj_on (Table.nodup_select _ _).of_map).mpr
    fun a listed b other same => ?_
  obtain ⟨member, selected⟩ := List.mem_filter.mp listed
  obtain ⟨member', selected'⟩ := List.mem_filter.mp other
  simp only [Bool.and_eq_true, decide_eq_true_eq] at selected selected'
  exact Table.eq_of_key member member' (Prod.ext (selected.1.1.trans selected'.1.1.symm) same)

/-- With the foreign key, the ranked nodes are those of the AVAILABLE rows. -/
theorem mem_rankedNodes_iff (consistent : db.view.Consistent) :
    n ∈ rankedNodes db c ↔ db.replicaState c n = some .available := by
  refine ⟨mem_rankedNodes, fun held => ?_⟩
  obtain ⟨r, member, rfl, rfl, state⟩ := replicaState_eq_some.mp held
  refine List.mem_map.mpr
    ⟨r, (List.mem_insertionSort _).mpr (List.mem_filter.mpr ⟨member, ?_⟩), rfl⟩
  have present := consistent.copy (c := r.chunkID) (n := r.nodeID) (by simp [Database.view, held])
  simp only [View.referenced, Database.view, Bool.and_eq_true] at present
  simp [state, present.2]

theorem countAvailable_eq_ncard (db : Database) (c : UUID) :
    db.countAvailable c = {n | db.replicaState c n = some .available}.ncard := by
  have image : {k : UUID × NodeID | (db.replicas.find? k).any fun r => r.chunkID = c &&
      r.state = .available} = Prod.mk c '' {n | db.replicaState c n = some .available} := by
    ext ⟨c', n⟩
    simp only [Set.mem_ofPred_eq, Set.mem_image, Prod.mk.injEq, Option.any_eq_true,
      Bool.and_eq_true, decide_eq_true_eq]
    constructor
    · rintro ⟨r, found, rfl, state⟩
      obtain ⟨member, rfl, rfl⟩ := replica_of_find? found
      exact ⟨_, replicaState_eq_some.mpr ⟨r, member, rfl, rfl, state⟩, rfl, rfl⟩
    · rintro ⟨n, held, rfl, rfl⟩
      obtain ⟨r, found, state⟩ := Option.map_eq_some_iff.mp held
      exact ⟨r, found, (replica_of_find? found).2.1, state⟩
  refine (Table.count_eq_ncard db.replicas _).trans ?_
  rw [image, Set.ncard_image_of_injective _ (Prod.mk_right_injective c)]

end Ranking

/-- The chunks that trimming selects: COMMITTED, with a live owner, and with a counter above
the replication factor. -/
def OverReplicated (replicationFactor : Int) (db : Database) (c : UUID) : Prop :=
  ∃ row, db.chunks.find? c = some row ∧ accounted db row ∧
    replicationFactor < db.availableReplicas c

/-- The nodes of a chunk that are ranked beyond the replication factor. -/
def excessNodes (replicationFactor : Int) (db : Database) (c : UUID) : List NodeID :=
  (rankedNodes db c).drop replicationFactor.toNat

section Trim

variable {now : Time} {replicationFactor : Int} {db : Database} {id c : UUID} {n : NodeID}
  {ids : List UUID}

/-- Neither of the two reasons to leave a chunk alone. -/
theorem not_spared (present : (db.chunks.find? id).isSome)
    (over_ : replicationFactor < db.availableReplicas id) :
    ¬((db.chunks.find? id).isNone ∨ db.availableReplicas id - replicationFactor ≤ 0) := by
  rw [Option.isNone_iff_eq_none, ← Option.not_isSome_iff_eq_none]
  have excess : 0 < db.availableReplicas id - replicationFactor := Int.sub_pos.mpr over_
  exact not_or.mpr ⟨not_not.mpr present, Int.not_le.mpr excess⟩

theorem trimChunk_of_over (present : (db.chunks.find? id).isSome)
    (over_ : replicationFactor < db.availableReplicas id) :
    trimChunk now replicationFactor db id =
      let demoted := db.setReplicaState now
        (fun r => r.chunkID = id && r.nodeID ∈ excessNodes replicationFactor db id) .deleting
      demoted.enqueueDeletions now
        (demoted.replicas.select fun r => r.chunkID = id && r.state = .deleting) :=
  if_neg (not_spared present over_)

theorem view_trimChunk_of_over (present : (db.chunks.find? id).isSome)
    (over_ : replicationFactor < db.availableReplicas id) :
    let demoted := db.view.mapReplicas fun c n old =>
      if c = id && n ∈ excessNodes replicationFactor db id then .deleting else old
    (trimChunk now replicationFactor db id).view =
      demoted.enqueue fun c n => (demoted.slots c n).replica.any fun s =>
        c = id && s = .deleting := by
  dsimp only
  rw [trimChunk_of_over present over_]
  dsimp only
  rw [view_enqueueDeletions fun c _ s => c = id && s = .deleting,
    view_setReplicaState fun c n _ => c = id && n ∈ excessNodes replicationFactor db id]

/-- What trimming one chunk does to the copies: those beyond the replication factor become
DELETING, and whatever is DELETING then is queued. -/
theorem slots_trimChunk (present : (db.chunks.find? id).isSome)
    (over_ : replicationFactor < db.availableReplicas id) :
    (trimChunk now replicationFactor db id).replicaState c n =
        (if c = id ∧ n ∈ excessNodes replicationFactor db id then some .deleting
          else db.replicaState c n) ∧
      (trimChunk now replicationFactor db id).queued c n = (db.queued c n || decide (c = id ∧
        (trimChunk now replicationFactor db id).replicaState c n = some .deleting)) := by
  have slot := congrFun₂ (congrArg View.slots (@view_trimChunk_of_over now _ _ _ present over_)) c n
  have state := congrArg Slot.replica slot
  have job := congrArg Slot.queued slot
  simp only [Database.view, View.enqueue, View.mapReplicas] at state job
  rw [← state] at job
  refine ⟨?_, ?_⟩
  · rw [state]
    by_cases chosen : c = id ∧ n ∈ excessNodes replicationFactor db id
    · obtain ⟨rfl, listed⟩ := chosen
      have available : db.replicaState c n = some .available :=
        mem_rankedNodes (List.mem_of_mem_drop listed)
      simp [listed, available]
    · have spared : (decide (c = id) && decide (n ∈ excessNodes replicationFactor db id)) =
          false := by simpa using chosen
      rw [if_neg chosen]
      simp [spared]
  · rw [job]
    congr 1
    rw [Bool.eq_iff_iff]
    simp [Option.any_eq_true, and_comm]

/-- Trimming one chunk does not touch the others. -/
theorem trimChunk_others (other : c ≠ id) :
    rankedNodes (trimChunk now replicationFactor db id) c = rankedNodes db c ∧
      (trimChunk now replicationFactor db id).availableReplicas c = db.availableReplicas c := by
  unfold trimChunk
  split
  · exact ⟨rfl, rfl⟩
  · refine ⟨congrArg (fun rows => (List.insertionSort _ rows).map _) ?_, if_neg ?_⟩
    · refine Table.select_updateWhere (by intro _; rfl) fun r chosen => ?_
      simp only [Bool.and_eq_true, decide_eq_true_eq] at chosen
      have apart : r.chunkID ≠ c := fun same => other (same.symm.trans chosen.1)
      simp [apart]
    · simp only [Bool.not_eq_true, List.any_eq_false, Bool.and_eq_true, decide_eq_true_eq]
      rintro r - ⟨⟨rfl, -⟩, same⟩
      exact other same.symm

theorem chunks_trimChunk : (trimChunk now replicationFactor db id).chunks = db.chunks := by
  unfold trimChunk
  split <;> rfl

theorem accounted_trimChunk :
    accounted (trimChunk now replicationFactor db id) = accounted db := by
  unfold trimChunk
  split <;> rfl

theorem accounted_foldl_trimChunk :
    (ids.foldl (trimChunk now replicationFactor) db).chunks = db.chunks ∧
      accounted (ids.foldl (trimChunk now replicationFactor) db) = accounted db := by
  induction ids generalizing db with
  | nil => exact ⟨rfl, rfl⟩
  | cons id rest ih =>
    obtain ⟨chunks, owners⟩ := @ih (trimChunk now replicationFactor db id)
    exact ⟨chunks.trans chunks_trimChunk, owners.trans accounted_trimChunk⟩

/-- After the first chunk the others are still to be trimmed. -/
theorem all_trimChunk {rest : List UUID} (distinct : (id :: rest).Nodup)
    (all : ∀ c ∈ id :: rest,
      (db.chunks.find? c).isSome ∧ replicationFactor < db.availableReplicas c) :
    ∀ c ∈ rest, ((trimChunk now replicationFactor db id).chunks.find? c).isSome ∧
      replicationFactor < (trimChunk now replicationFactor db id).availableReplicas c := by
  intro c listed
  have apart : c ≠ id := by
    rintro rfl
    exact (List.nodup_cons.mp distinct).1 listed
  rw [chunks_trimChunk, (trimChunk_others apart).2]
  exact all c (List.mem_cons_of_mem id listed)

/-- The loop over the selected chunks trims each of them as if it were alone. -/
theorem slots_foldl_trimChunk (distinct : ids.Nodup)
    (all : ∀ c ∈ ids, (db.chunks.find? c).isSome ∧ replicationFactor < db.availableReplicas c)
    (c : UUID) (n : NodeID) :
    (ids.foldl (trimChunk now replicationFactor) db).replicaState c n =
        (if c ∈ ids ∧ n ∈ excessNodes replicationFactor db c then some .deleting
          else db.replicaState c n) ∧
      (ids.foldl (trimChunk now replicationFactor) db).queued c n =
        (db.queued c n || decide (c ∈ ids ∧
          (ids.foldl (trimChunk now replicationFactor) db).replicaState c n =
            some .deleting)) := by
  induction ids generalizing db with
  | nil => simp
  | cons id rest ih =>
    obtain ⟨first, later⟩ := List.nodup_cons.mp distinct
    obtain ⟨present, over_⟩ := all id List.mem_cons_self
    obtain ⟨held, job⟩ := @ih (trimChunk now replicationFactor db id) later
      (all_trimChunk distinct all)
    obtain ⟨held', job'⟩ := @slots_trimChunk now _ _ _ c n present over_
    rw [List.foldl_cons, held, job]
    by_cases mine : c = id
    · subst mine
      rw [job', held, held']
      simp [first]
    · have same : excessNodes replicationFactor (trimChunk now replicationFactor db id) c =
          excessNodes replicationFactor db c := by
        rw [excessNodes, (trimChunk_others mine).1, excessNodes]
      rw [same, job', held', held, same, held']
      simp [mine]

/-- The copies that the loop changes are the ones beyond the replication factor. -/
theorem foldl_trimChunk_changes (distinct : ids.Nodup)
    (all : ∀ c ∈ ids, (db.chunks.find? c).isSome ∧ replicationFactor < db.availableReplicas c) :
    (ids.foldl (trimChunk now replicationFactor) db).replicaState c n ≠ db.replicaState c n ↔
      c ∈ ids ∧ n ∈ excessNodes replicationFactor db c := by
  rw [(slots_foldl_trimChunk distinct all c n).1]
  split
  · rename_i excess
    have available : db.replicaState c n = some .available :=
      mem_rankedNodes (List.mem_of_mem_drop excess.2)
    rw [available]
    exact iff_of_true nofun excess
  · rename_i kept
    exact iff_of_false (not_not.mpr rfl) kept

theorem demotedRows_of_over (present : (db.chunks.find? id).isSome)
    (over_ : replicationFactor < db.availableReplicas id) :
    demotedRows replicationFactor db id =
      (Prod.mk id '' {n | n ∈ excessNodes replicationFactor db id}).ncard := by
  have counted : demotedRows replicationFactor db id = db.replicas.count fun r =>
      r.chunkID = id && r.nodeID ∈ excessNodes replicationFactor db id :=
    if_neg (not_spared present over_)
  rw [counted, Table.count_eq_ncard]
  congr 1
  ext ⟨c, n⟩
  simp only [Set.mem_ofPred_eq, Set.mem_image, Prod.mk.injEq, Option.any_eq_true,
    Bool.and_eq_true, decide_eq_true_eq]
  constructor
  · rintro ⟨r, found, rfl, listed⟩
    obtain ⟨-, rfl, rfl⟩ := replica_of_find? found
    exact ⟨_, listed, rfl, rfl⟩
  · rintro ⟨n, listed, rfl, rfl⟩
    obtain ⟨r, found, -⟩ := Option.map_eq_some_iff.mp
      (mem_rankedNodes (List.mem_of_mem_drop listed))
    obtain ⟨-, chunk, node⟩ := replica_of_find? found
    refine ⟨r, found, chunk, ?_⟩
    rwa [node]

/-- The loop counts the demoted copies. -/
theorem foldl_trimNext_fst (distinct : ids.Nodup)
    (all : ∀ c ∈ ids, (db.chunks.find? c).isSome ∧ replicationFactor < db.availableReplicas c)
    (trimmed : Nat) :
    (ids.foldl (trimNext now replicationFactor) (trimmed, db)).1 = trimmed +
      {k : UUID × NodeID | k.1 ∈ ids ∧ k.2 ∈ excessNodes replicationFactor db k.1}.ncard := by
  induction ids generalizing db trimmed with
  | nil => simp
  | cons id rest ih =>
    obtain ⟨first, later⟩ := List.nodup_cons.mp distinct
    obtain ⟨present, over_⟩ := all id List.mem_cons_self
    have split_ : {k : UUID × NodeID | k.1 ∈ id :: rest ∧
          k.2 ∈ excessNodes replicationFactor db k.1} =
        Prod.mk id '' {n | n ∈ excessNodes replicationFactor db id} ∪
          {k | k.1 ∈ rest ∧ k.2 ∈ excessNodes replicationFactor
            (trimChunk now replicationFactor db id) k.1} := by
      ext ⟨c, n⟩
      simp only [Set.mem_ofPred_eq, Set.mem_union, Set.mem_image, Prod.mk.injEq, List.mem_cons]
      by_cases mine : c = id
      · subst mine
        simp [first]
      · simp [mine, Ne.symm mine, excessNodes, (trimChunk_others mine).1]
    have finite : {k : UUID × NodeID | k.1 ∈ id :: rest ∧
        k.2 ∈ excessNodes replicationFactor db k.1}.Finite := by
      refine (Table.finite_keys db.replicas (·.state = .available)).subset ?_
      rintro ⟨c, n⟩ ⟨-, listed⟩
      obtain ⟨r, found, state⟩ := Option.map_eq_some_iff.mp
        (mem_rankedNodes (List.mem_of_mem_drop listed))
      exact Option.any_eq_true _ _ |>.mpr ⟨r, found, decide_eq_true state⟩
    rw [split_] at finite
    rw [List.foldl_cons, trimNext, ih later, demotedRows_of_over present over_, Nat.add_assoc,
      split_, Set.ncard_union_eq ?_ (finite.subset Set.subset_union_left)
        (finite.subset Set.subset_union_right)]
    · rw [Set.disjoint_left]
      rintro _ ⟨n, -, rfl⟩ ⟨listed, -⟩
      exact first listed
    · exact all_trimChunk distinct all

theorem nodup_overReplicatedChunks (replicationFactor : Int) (limit : Nat) (db : Database) :
    (overReplicatedChunks replicationFactor limit db).Nodup := by
  refine List.Nodup.sublist ((List.take_sublist limit _).map _) ?_
  exact ((List.perm_insertionSort _ _).map _).nodup_iff.mpr (Table.nodup_select _ _)

theorem overReplicated_of_mem {limit : Nat}
    (listed : c ∈ overReplicatedChunks replicationFactor limit db) :
    OverReplicated replicationFactor db c := by
  obtain ⟨row, taken, rfl⟩ := List.mem_map.mp listed
  obtain ⟨member, selected⟩ := List.mem_filter.mp
    ((List.mem_insertionSort _).mp (List.mem_of_mem_take taken))
  obtain ⟨live, over_⟩ := Bool.and_eq_true_iff.mp selected
  exact ⟨row, Table.find?_of_mem member, live, of_decide_eq_true over_⟩

/-- A limit that does not cut the selection off selects all of them. -/
theorem mem_overReplicatedChunks {limit : Nat} (enough : (db.chunks.count fun row =>
      accounted db row && replicationFactor < db.availableReplicas row.id) ≤ limit) :
    c ∈ overReplicatedChunks replicationFactor limit db ↔
      OverReplicated replicationFactor db c := by
  refine ⟨overReplicated_of_mem, ?_⟩
  rintro ⟨row, found, live, over_⟩
  obtain ⟨member, rfl⟩ := Table.find?_eq_some.mp found
  refine List.mem_map.mpr ⟨row, ?_, rfl⟩
  rw [List.take_of_length_le, List.mem_insertionSort]
  · exact List.mem_filter.mpr ⟨member, by simp [live, over_]⟩
  · rw [List.length_insertionSort]
    rwa [Table.count, List.countP_eq_length_filter] at enough

end Trim

/-- What trimming to a replication factor does to the copies of the chunks it selects, and
that it does nothing else to any copy. -/
structure TrimmedTo (replicationFactor : Int) (db db' : Database) : Prop where
  remaining {c : UUID} : OverReplicated replicationFactor db c →
    db'.countAvailable c = min (db.countAvailable c) replicationFactor.toNat
  survivors {c : UUID} {n m : NodeID} : OverReplicated replicationFactor db c →
    db'.replicaState c n = some .available →
    db'.replicaState c m ≠ db.replicaState c m → Emptier db n m
  demoted {c : UUID} {n : NodeID} : db'.replicaState c n ≠ db.replicaState c n →
    OverReplicated replicationFactor db c ∧ db.replicaState c n = some .available ∧
      db'.replicaState c n = some .deleting ∧ db'.queued c n

section Trimmed

variable {now : Time} {replicationFactor : Int} {limit : Nat} {db : Database}

theorem ncard_mem {l : List NodeID} (distinct : l.Nodup) : {n | n ∈ l}.ncard = l.length := by
  rw [← List.coe_toFinset, Set.ncard_coe_finset, List.toFinset_card_of_nodup distinct]

theorem countAvailable_eq_length (consistent : db.view.Consistent) (c : UUID) :
    db.countAvailable c = (rankedNodes db c).length := by
  rw [countAvailable_eq_ncard, ← ncard_mem (nodup_rankedNodes db c)]
  simp only [mem_rankedNodes_iff consistent]

/-- The ranks of a chunk's AVAILABLE copies: up to the replication factor, or beyond it. -/
theorem mem_take_rankedNodes (consistent : db.view.Consistent) {c : UUID} {n : NodeID} :
    n ∈ (rankedNodes db c).take replicationFactor.toNat ↔
      db.replicaState c n = some .available ∧ n ∉ excessNodes replicationFactor db c := by
  rw [← mem_rankedNodes_iff consistent, excessNodes]
  have distinct := nodup_rankedNodes db c
  rw [← List.take_append_drop replicationFactor.toNat (rankedNodes db c)] at distinct
  constructor
  · intro early
    exact ⟨List.mem_of_mem_take early, List.disjoint_of_nodup_append distinct early⟩
  · rintro ⟨listed, early⟩
    rw [← List.take_append_drop replicationFactor.toNat (rankedNodes db c)] at listed
    exact (List.mem_append.mp listed).resolve_right early

theorem trimmedTo_foldl {ids : List UUID} (consistent : db.view.Consistent) (distinct : ids.Nodup)
    (all : ∀ c, c ∈ ids ↔ OverReplicated replicationFactor db c) :
    TrimmedTo replicationFactor db (ids.foldl (trimChunk now replicationFactor) db) := by
  have present (c : UUID) (listed : c ∈ ids) :
      (db.chunks.find? c).isSome ∧ replicationFactor < db.availableReplicas c := by
    obtain ⟨row, found, -, over_⟩ := (all c).mp listed
    exact ⟨by simp [found], over_⟩
  have slots := @slots_foldl_trimChunk now replicationFactor db ids distinct present
  have keeps {c n} (listed : c ∈ ids) :
      (ids.foldl (trimChunk now replicationFactor) db).replicaState c n = some .available ↔
        n ∈ (rankedNodes db c).take replicationFactor.toNat := by
    rw [mem_take_rankedNodes consistent, (slots c n).1]
    by_cases excess : n ∈ excessNodes replicationFactor db c
    · simp [listed, excess]
    · simp [excess]
  refine ⟨fun {c} selected => ?_, fun {c n m} selected kept changed => ?_, fun {c n} changed => ?_⟩
  · rw [countAvailable_eq_ncard, countAvailable_eq_length consistent]
    simp only [keeps ((all c).mpr selected)]
    rw [ncard_mem ((nodup_rankedNodes db c).sublist (List.take_sublist _ _)), List.length_take,
      Nat.min_comm]
  · have sorted := pairwise_rankedNodes db c
    rw [← List.take_append_drop replicationFactor.toNat (rankedNodes db c)] at sorted
    exact (List.pairwise_append.mp sorted).2.2 n ((keeps ((all c).mpr selected)).mp kept) m
      ((foldl_trimChunk_changes distinct present).mp changed).2
  · obtain ⟨listed, excess⟩ := (foldl_trimChunk_changes distinct present).mp changed
    obtain ⟨held, job⟩ := slots c n
    rw [if_pos ⟨listed, excess⟩] at held
    refine ⟨(all c).mp listed, mem_rankedNodes (List.mem_of_mem_drop excess), held, ?_⟩
    rw [job]
    simp [listed, held]

/-- Nothing is over-replicated after a trim that found correct counters. -/
theorem TrimmedTo.not_overReplicated {db' : Database} (trimmed : TrimmedTo replicationFactor db db')
    (positive : 1 ≤ replicationFactor) (chunks : db'.chunks = db.chunks)
    (owners : accounted db' = accounted db) (counted : Counted db) (counted' : Counted db')
    (c : UUID) : ¬ OverReplicated replicationFactor db' c := by
  rintro ⟨row, found, live, over_⟩
  rw [chunks] at found
  rw [owners] at live
  rw [counted'] at over_
  by_cases selected : OverReplicated replicationFactor db c
  · rw [trimmed.remaining selected] at over_
    omega
  · refine selected ⟨row, found, live, ?_⟩
    have kept (n : NodeID) : db'.replicaState c n = db.replicaState c n := by
      by_contra changed
      exact selected (trimmed.demoted changed).1
    rw [counted, countAvailable_eq_ncard]
    simpa only [countAvailable_eq_ncard, kept] using over_

/-- One call with a limit that covers the selection trims every selected chunk to the
replication factor whatever the counters say, keeps the copies on the emptiest nodes, and
returns how many it demoted. With correct counters the next call finds nothing to do. -/
theorem trimOverReplicatedChunks_exact (consistent : db.view.Consistent)
    (positive : 1 ≤ replicationFactor) (enough : (db.chunks.count fun row =>
      accounted db row && replicationFactor < db.availableReplicas row.id) ≤ limit) :
    let call := trimOverReplicatedChunks now replicationFactor limit db
    TrimmedTo replicationFactor db call.2 ∧
      call.1 = {k : UUID × NodeID |
        call.2.replicaState k.1 k.2 ≠ db.replicaState k.1 k.2}.ncard ∧
      (Counted db → ∀ now' limit',
        trimOverReplicatedChunks now' replicationFactor limit' call.2 = (0, call.2)) := by
  dsimp only
  have distinct := nodup_overReplicatedChunks replicationFactor limit db
  have all (c : UUID) := @mem_overReplicatedChunks replicationFactor db c limit enough
  have present (c : UUID) (listed : c ∈ overReplicatedChunks replicationFactor limit db) :
      (db.chunks.find? c).isSome ∧ replicationFactor < db.availableReplicas c := by
    obtain ⟨row, found, -, over_⟩ := (all c).mp listed
    exact ⟨by simp [found], over_⟩
  rw [trimOverReplicatedChunks_snd]
  have trimmed := @trimmedTo_foldl now _ _ _ consistent distinct all
  refine ⟨trimmed, ?_, fun counted now' limit' => ?_⟩
  · rw [trimOverReplicatedChunks, foldl_trimNext_fst distinct present, Nat.zero_add]
    congr 1
    ext ⟨c, n⟩
    exact (foldl_trimChunk_changes distinct present).symm
  · obtain ⟨chunks, owners⟩ := @accounted_foldl_trimChunk now replicationFactor db
      (overReplicatedChunks replicationFactor limit db)
    have counted' := (spares_foldl (spares_trimChunk now replicationFactor)
      (overReplicatedChunks replicationFactor limit db) db).2.2.2 trivial counted
    have none_left : overReplicatedChunks replicationFactor limit' _ = [] :=
      List.eq_nil_iff_forall_not_mem.mpr fun c listed =>
        trimmed.not_overReplicated positive chunks owners counted counted' c
          (overReplicated_of_mem listed)
    rw [trimOverReplicatedChunks, none_left]
    rfl

end Trimmed

/-- A chunk with three copies whose counter has drifted to five. -/
def driftedHigh : Database :=
  { run step Database.empty
      [⟨0, .upsertNode "n1" "n1:9000" .healthy {} 0⟩, ⟨0, .upsertNode "n2" "n2:9000" .healthy {} 0⟩,
        ⟨0, .upsertNode "n3" "n3:9000" .healthy {} 0⟩, ⟨1, .beginUpload 1 "b" "k" "" 8⟩,
        ⟨2, .reserveChunk 10 ⟨some 1, none⟩ 0 8⟩, ⟨3, .commitChunk 10 5 8 ["n1", "n2", "n3"] [] 1⟩,
        ⟨4, .completeUpload 1 8 1 "e"⟩] with
    availableReplicas := fun _ => 5 }

theorem trimOverReplicatedChunks_driftedHigh :
    let call := trimOverReplicatedChunks 5 2 1 driftedHigh
    call.1 = 1 ∧ TrimmedTo 2 driftedHigh call.2 ∧
      call.1 = {k : UUID × NodeID |
        call.2.replicaState k.1 k.2 ≠ driftedHigh.replicaState k.1 k.2}.ncard ∧
      (Counted driftedHigh → ∀ now' limit',
        trimOverReplicatedChunks now' 2 limit' call.2 = (0, call.2)) :=
  ⟨by decide, trimOverReplicatedChunks_exact (consistent_run consistent_empty _) (by decide)
    (by decide)⟩

end FlexStore.Metadata
