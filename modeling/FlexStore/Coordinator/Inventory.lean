import FlexStore.Coordinator.Reconciler
import FlexStore.Relational.Counting
import FlexStore.Relational.Paging
import Mathlib.Computability.StateTransition

/-!
# A whole reconciliation

One reconciliation of a node with nothing else running and every call succeeding: the steps
of the reconciler one after another, with the answers that the node's disk gives. It reads
the STALE replicas page by page while it takes them out of the set that it pages over. The
cursor is a chunk id, so what happens behind it does not matter, and every such replica is
visited exactly once.

The cursor starts at the nil UUID and the query asks for greater ids, so a chunk with that
id would never be visited.
-/

namespace FlexStore.Coordinator.Reconcile

open Relational Transition FlexStore.Metadata Storage Digest Go

/-- The chunk files of a node and the inventory that it lists. -/
structure Disk where
  files : UUID → Option Bytes
  inventory : List UUID
  listed : ∀ {id}, id ∈ inventory ↔ (files id).isSome

/-- The next step of a reconciliation, with what the node answers. -/
def nextEvent (cfg : ReconcileConfig) (disk : Disk) (now : Time) : Stage → Option Event
  | .claimed => some .known
  | .listing _ => some (.inventory (some disk.inventory))
  | .orphans _ (_ :: _) => some (.orphan now)
  | .orphans _ [] => some .page
  | .paging _ _ => some .page
  | .verifying _ (rep :: _) _ =>
    some (.verify now (some (checkChunk (disk.files rep.chunkID) cfg.verifyChecksums)))
  | .verifying _ [] _ => none
  | .done => none
  | .failing => none

/-- The replica that the next step visits. -/
def Stage.visits : Stage → List UUID
  | .verifying _ (rep :: _) _ => [rep.chunkID]
  | _ => []

/-- A reconciliation on its own: the time of each step to come, the state, and the replicas
visited so far. -/
structure Solo where
  clock : Nat → Time
  state : State
  visited : List UUID

/-- One step, as long as there is one. -/
def soloStep (cfg : ReconcileConfig) (disk : Disk) (x : Solo) : Option Solo :=
  x.state.inspection.bind fun i =>
    (nextEvent cfg disk (x.clock 0) i.stage).map fun e =>
      { clock := fun k => x.clock (k + 1)
        state := act cfg x.state e
        visited := x.visited ++ i.stage.visits }

/-- What the file of a chunk says about its copy: none, a good one, or a bad one. -/
def verdict (disk : Disk) (db : Database) (c : UUID) : Option ReplicaState :=
  (disk.files c).map fun bytes =>
    if (db.chunks.find? c).any fun row =>
      bytes.length = row.sizeBytes && row.checksum = some (sha256 bytes)
    then .available else .corrupt

/-- What a reconciliation is to do to the copies on a node, and to nothing else. -/
structure Reconciled (disk : Disk) (n : NodeID) (db db' : Database) (result : ReconcileResult) :
    Prop where
  noneStale : ∀ c, db'.replicaState c n ≠ some .stale
  settled : ∀ c, db.replicaState c n = some .stale → db'.replicaState c n = verdict disk db c
  unchanged : ∀ c m, ¬(m = n ∧ db.replicaState c n = some .stale) →
    db'.replicas.find? (c, m) = db.replicas.find? (c, m)
  queued : ∀ c m, db'.queued c m ↔ db.queued c m ∨ m = n ∧
    (c ∈ disk.inventory ∧ unaccounted c n db ∨
      db.replicaState c n = some .stale ∧ verdict disk db c = some .corrupt)
  verified : result.verified =
    {c | db.replicaState c n = some .stale ∧ verdict disk db c = some .available}.ncard
  phantoms : result.phantomsFound =
    {c | db.replicaState c n = some .stale ∧ verdict disk db c = none}.ncard
  corrupt : result.corruptFound =
    {c | db.replicaState c n = some .stale ∧ verdict disk db c = some .corrupt}.ncard

/-- The bookkeeping of a reconciliation in progress: the first `orphans` of the inventory have
been looked at and the replicas of the chunks `done` have been visited. -/
structure Account (disk : Disk) (n : NodeID) (db : Database) (orphans : List UUID)
    (done : List ChunkRow) (db' : Database) (result : ReconcileResult) : Prop where
  chunks : db'.chunks = db.chunks
  settled : ∀ row ∈ done, db'.replicaState row.id n = verdict disk db row.id
  unchanged : ∀ c m, ¬(m = n ∧ c ∈ done.map (·.id)) →
    db'.replicas.find? (c, m) = db.replicas.find? (c, m)
  queued : ∀ c m, db'.queued c m ↔ db.queued c m ∨ m = n ∧
    (c ∈ orphans ∧ unaccounted c n db ∨
      c ∈ done.map (·.id) ∧ verdict disk db c = some .corrupt)
  verified : result.verified = done.countP fun row => verdict disk db row.id = some .available
  phantoms : result.phantomsFound = done.countP fun row => verdict disk db row.id = none
  corrupt : result.corruptFound = done.countP fun row => verdict disk db row.id = some .corrupt

section Account

variable {disk : Disk} {n : NodeID} {db db' : Database} {orphans : List UUID}

variable {row : ChunkRow}
  {done : List ChunkRow} {result : ReconcileResult}

theorem Account.start (disk : Disk) (n : NodeID) (db : Database) (seen : Nat) :
    Account disk n db [] [] db { chunksSeen := seen } where
  chunks := rfl
  settled := by simp
  unchanged := by simp
  queued := by simp
  verified := rfl
  phantoms := rfl
  corrupt := rfl

/-- One file of the inventory that no row of the snapshot is for. -/
theorem Account.orphan (account : Account disk n db orphans [] db' result) (now : Time)
    (id : UUID) :
    Account disk n db (orphans ++ [id]) [] (queueOrphanDeletion now id n db').2
      { result with
        orphansFound := result.orphansFound + (queueOrphanDeletion now id n db').1.toNat } := by
  have same : unaccounted id n db' = unaccounted id n db := by
    rw [unaccounted, account.unchanged id n (by simp), account.chunks, unaccounted]
  have effect (c : UUID) (m : NodeID) : (queueOrphanDeletion now id n db').2.queued c m ↔
      db'.queued c m ∨ m = n ∧ c = id ∧ unaccounted id n db := by
    rw [queueOrphanDeletion, same]
    split
    next orphan =>
      rw [Database.queued, DeletionQueue.holds_enqueue, Bool.or_eq_true, decide_eq_true_eq]
      simp only [orphan, true_and, Database.queued, @eq_comm _ id, @eq_comm _ n, and_comm]
    next known => simp [known]
  have frame : (queueOrphanDeletion now id n db').2.chunks = db'.chunks ∧
      (queueOrphanDeletion now id n db').2.replicas = db'.replicas := by
    unfold queueOrphanDeletion
    split <;> exact ⟨rfl, rfl⟩
  refine ⟨frame.1.trans account.chunks, by simp, fun c m other => ?_, fun c m => ?_,
    account.verified, account.phantoms, account.corrupt⟩
  · rw [frame.2, account.unchanged c m other]
  · rw [effect, account.queued, List.mem_append, List.mem_singleton]
    by_cases mine : c = id
    · subst mine
      tauto
    · simp [mine]

/-- One STALE replica, once it is clear what becomes of it. -/
theorem Account.visit (account : Account disk n db orphans done db' result) {db'' : Database}
    {result' : ReconcileResult} (chunks : db''.chunks = db'.chunks)
    (settled : db''.replicaState row.id n = verdict disk db row.id)
    (unchanged : ∀ c m, ¬(m = n ∧ c = row.id) →
      db''.replicas.find? (c, m) = db'.replicas.find? (c, m))
    (queued : ∀ c m, db''.queued c m ↔ db'.queued c m ∨ m = n ∧ c = row.id ∧
      verdict disk db row.id = some .corrupt) (verified : result'.verified = result.verified +
      if verdict disk db row.id = some .available then 1 else 0)
    (phantoms : result'.phantomsFound = result.phantomsFound +
      if verdict disk db row.id = none then 1 else 0)
    (corrupt : result'.corruptFound = result.corruptFound +
      if verdict disk db row.id = some .corrupt then 1 else 0) :
    Account disk n db orphans (done ++ [row]) db'' result' := by
  refine ⟨chunks.trans account.chunks, fun other listed => ?_, fun c m spared => ?_,
    fun c m => ?_, ?_, ?_, ?_⟩
  · by_cases mine : other.id = row.id
    · rw [mine, settled]
    · have early : other ∈ done := by
        refine (List.mem_append.mp listed).resolve_right fun last => mine ?_
        rw [List.mem_singleton.mp last]
      rw [Database.replicaState, unchanged _ _ (by simp [mine])]
      exact account.settled other early
  · have apart : ¬(m = n ∧ c ∈ done.map (·.id)) ∧ ¬(m = n ∧ c = row.id) := by
      rw [List.map_append, List.mem_append] at spared
      simp only [List.map_cons, List.map_nil, List.mem_singleton] at spared
      tauto
    rw [unchanged c m apart.2, account.unchanged c m apart.1]
  · rw [queued, account.queued, List.map_append, List.mem_append]
    simp only [List.map_cons, List.map_nil, List.mem_singleton]
    by_cases mine : c = row.id
    · subst mine
      tauto
    · simp [mine]
  · rw [verified, account.verified, List.countP_append, List.countP_singleton]
    simp
  · rw [phantoms, account.phantoms, List.countP_append, List.countP_singleton]
    simp
  · rw [corrupt, account.corrupt, List.countP_append, List.countP_singleton]
    simp

/-- With the checksum, a file verifies if and only if it is a good copy. -/
theorem verifyReplica_iff {cfg : ReconcileConfig} (verifies : cfg.verifyChecksums)
    (found : db.chunks.find? row.id = some row) {bytes : Bytes}
    (file : disk.files row.id = some bytes) :
    verdict disk db row.id = some (if verifyReplica cfg ⟨row.id, row.checksum, row.sizeBytes⟩
      (checkChunk (disk.files row.id) cfg.verifyChecksums) then .available else .corrupt) := by
  rw [verdict, file, found, verifies, Option.map_some, checkChunk, verifyReplica, verifies]
  congr 1
  cases sum : row.checksum with
  | none => simp [sum]
  | some digest => simp [sum, @eq_comm _ (sha256 bytes)]

/-- A statement on one replica leaves the other rows as they are. -/
theorem find?_updateReplicas_other {c : UUID} {p : ReplicaRow → Bool} {f : ReplicaRow → ReplicaRow}
    {keep : ∀ r, (f r).key = r.key} (only : ∀ r, p r → r.chunkID = c ∧ r.nodeID = n) {c' : UUID}
    {m : NodeID} (other : ¬(m = n ∧ c' = c)) :
    (db.updateReplicas p f keep).replicas.find? (c', m) = db.replicas.find? (c', m) := by
  refine (Table.find?_updateWhere db.replicas p f keep (c', m)).trans ?_
  cases found : db.replicas.find? (c', m) with
  | none => rfl
  | some r =>
    obtain ⟨-, rfl, rfl⟩ := replica_of_find? found
    have spared : ¬p r := fun chosen => other (only r chosen).symm
    simp [spared]

theorem find?_dropReplica (c c' : UUID) (m : NodeID) :
    (dropReplica c n db).replicas.find? (c', m) =
      if m = n ∧ c' = c then none else db.replicas.find? (c', m) := by
  refine (Table.find?_deleteWhere db.replicas _ (c', m)).trans ?_
  cases found : db.replicas.find? (c', m) with
  | none => simp
  | some r =>
    obtain ⟨-, rfl, rfl⟩ := replica_of_find? found
    by_cases mine : r.nodeID = n ∧ r.chunkID = c
    · simp [mine]
    · rw [if_neg mine, Option.filter_some, if_pos]
      have spared : r.chunkID = c → r.nodeID ≠ n := fun chunk node => mine ⟨node, chunk⟩
      simpa [imp_iff_not_or] using spared

/-- A report about a replica of a known chunk, with a text that the store can keep. -/
theorem markReplicaCorrupt_known (now : Time) (n : NodeID) (detail : String)
    (short : truncate detail 500 = .ok detail) (found : db.chunks.find? row.id = some row) :
    ∃ remaining db', markReplicaCorrupt now row.id n detail db = .ok (remaining, db') ∧
      db'.chunks = db.chunks ∧
      db'.replicas = (demoteCorrupt now row.id n detail db).replicas ∧
      ∀ c m, db'.queued c m ↔ db.queued c m ∨ row.id = c ∧ n = m := by
  have same : (demoteCorrupt now row.id n detail db).chunks.find? row.id = some row := found
  refine ⟨(demoteCorrupt now row.id n detail db).availableReplicas row.id,
    { demoteCorrupt now row.id n detail db with
      deletions := db.deletions.enqueue now row.id n }, ?_, rfl, rfl, fun c m => ?_⟩
  · simp only [markReplicaCorrupt, bind_eq_ok, lookup_eq_ok, pure_eq_ok]
    exact ⟨detail, short, row, same, rfl⟩
  · simp [Database.queued, DeletionQueue.holds_enqueue]

/-- The steps of the reconciler settle a STALE replica as its file says. -/
theorem Account.replica (account : Account disk n db orphans done db' result) (now : Time)
    {cfg : ReconcileConfig} (verifies : cfg.verifyChecksums) {job : ReconcileJob}
    (node : job.nodeID = n) (stage : Stage) (found : db.chunks.find? row.id = some row)
    (stale : db'.replicaState row.id n = some .stale) {onDisk : List UUID}
    (listed : ∀ id, id ∈ onDisk ↔ (disk.files id).isSome) (rest : List StaleReplicaOnNode)
    (short : Bool) :
    ∃ db'' result', reconcileReplica cfg now
        (some (checkChunk (disk.files row.id) cfg.verifyChecksums)) ⟨job, result, stage⟩ onDisk
        ⟨row.id, row.checksum, row.sizeBytes⟩ rest short db' =
      (db'', ⟨job, result', nextReplica onDisk ⟨row.id, row.checksum, row.sizeBytes⟩ rest short⟩) ∧
      Account disk n db orphans (done ++ [row]) db'' result' := by
  subst node
  unfold reconcileReplica
  cases file : disk.files row.id with
  | none =>
    have absent : row.id ∉ onDisk := by simp [listed, file]
    have gone : verdict disk db row.id = none := by simp [verdict, file]
    refine ⟨_, _, if_pos absent,
      account.visit rfl ?_ (fun c m other => ?_) (fun c m => ?_) ?_ ?_ ?_⟩
    · rw [gone, Database.replicaState, find?_dropReplica, if_pos ⟨rfl, rfl⟩]
      rfl
    · rw [find?_dropReplica, if_neg other]
    · simp only [gone, reduceCtorEq, and_false, or_false]
      rfl
    all_goals simp [gone]
  | some bytes =>
    have present : row.id ∈ onDisk := by simp [listed, file]
    have told := verifyReplica_iff verifies found file
    rw [if_neg (not_not.mpr present)]
    dsimp only
    rw [file] at told
    split
    next good =>
      rw [if_pos good] at told
      obtain ⟨r, inTable, chunk, node, state⟩ := replicaState_eq_some.mp stale
      have promoted : (promoteVerifiedReplica now row.id job.nodeID db').1 = true :=
        List.any_eq_true.mpr ⟨r, inTable, by simp [chunk, node, state]⟩
      refine ⟨_, _, rfl, account.visit rfl ?_ (fun c m other => ?_) (fun c m => ?_) ?_ ?_ ?_⟩
      · have slot := congrFun₂ (congrArg View.slots
          (view_promoteVerifiedReplica now row.id job.nodeID db')) row.id job.nodeID
        refine (congrArg Slot.replica slot).trans ?_
        rw [told]
        simp [View.mapReplicas, Database.view, stale]
      · refine find?_updateReplicas_other (fun r chosen => ?_) other
        simp only [Bool.and_eq_true, decide_eq_true_eq] at chosen
        exact chosen.1
      · simp only [told, Option.some.injEq, reduceCtorEq, and_false, or_false]
        rfl
      all_goals simp [told, promoted]
    next bad =>
      rw [if_neg bad] at told
      obtain ⟨remaining, after, marked, chunks, rows, queue⟩ := markReplicaCorrupt_known now
        job.nodeID "failed verification during reconciliation" rfl
        (show db'.chunks.find? row.id = some row by rw [account.chunks, found])
      rw [marked]
      refine ⟨_, _, rfl, account.visit chunks ?_ (fun c m other => ?_) (fun c m => ?_) ?_ ?_ ?_⟩
      · have slot := congrFun₂ (congrArg View.slots (view_demoteCorrupt now row.id job.nodeID
          "failed verification during reconciliation" db')) row.id job.nodeID
        rw [told, Database.replicaState, rows]
        refine (congrArg Slot.replica slot).trans ?_
        simp [View.mapReplicas, Database.view, stale]
      · rw [rows]
        refine find?_updateReplicas_other (fun r chosen => ?_) other
        simp only [Bool.and_eq_true, decide_eq_true_eq] at chosen
        exact chosen.1
      · rw [queue, told]
        simp [@eq_comm _ c, @eq_comm _ m, and_comm]
      all_goals simp [told]

end Account

/-- The chunks with a STALE copy on the node, in the order of their ids. -/
def staleChunks (n : NodeID) (db : Database) : List ChunkRow :=
  db.chunks.ordered (fun c => (db.replicas.find? (c.id, n)).any (·.state = .stale)) (·.id)

/-- What a page says about a chunk. -/
def staleReplica (row : ChunkRow) : StaleReplicaOnNode := ⟨row.id, row.checksum, row.sizeBytes⟩

section Steps

open StateTransition

variable {cfg : ReconcileConfig} {disk : Disk} {job : ReconcileJob} {db db' : Database}
  {orphans onDisk : List UUID} {done rest : List ChunkRow} {result : ReconcileResult}
  {clock : Nat → Time} {visited : List UUID}

theorem mem_staleChunks {n : NodeID} {row : ChunkRow} : row ∈ staleChunks n db ↔
    db.chunks.find? row.id = some row ∧ db.replicaState row.id n = some .stale := by
  rw [staleChunks, Table.mem_ordered, Table.mem_rows_iff, Database.replicaState,
    Option.map_eq_some_iff, Option.any_eq_true]
  simp

/-- The ids of the inventory that no row is for are worked off one by one. -/
theorem reaches_orphans {left : List UUID}
    (account : Account disk job.nodeID db orphans [] db' result) :
    ∃ clock' db'' result', Reaches (soloStep cfg disk)
        ⟨clock, ⟨db', some ⟨job, result, .orphans onDisk left⟩⟩, visited⟩
        ⟨clock', ⟨db'', some ⟨job, result', .orphans onDisk []⟩⟩, visited⟩ ∧
      Account disk job.nodeID db (orphans ++ left) [] db'' result' := by
  induction left generalizing orphans db' result clock with
  | nil => exact ⟨clock, db', result, .refl, by rwa [List.append_nil]⟩
  | cons id left ih =>
    obtain ⟨clock', db'', result', reaches, account'⟩ :=
      @ih _ (orphans ++ [id]) _ (fun k => clock (k + 1)) (account.orphan (clock 0) id)
    refine ⟨clock', db'', result', .head ?_ reaches, by simpa using account'⟩
    simp [soloStep, nextEvent, act, advance, Stage.visits]

/-- A row ahead of the visited ones has another id than they. -/
theorem unvisited_of_split {n : NodeID} {row : ChunkRow} (ahead : row ∈ rest)
    (split : staleChunks n db = done ++ rest) : row.id ∉ done.map (·.id) := by
  have distinct : (staleChunks n db).Nodup := Table.nodup_ordered _ _ _
  rw [split] at distinct
  have known {other : ChunkRow} (listed : other ∈ done ++ rest) :
      db.chunks.find? other.id = some other := by
    rw [← split] at listed
    exact (mem_staleChunks.mp listed).1
  intro visited
  obtain ⟨other, early, same⟩ := List.mem_map.mp visited
  have found := known (List.mem_append_left _ early)
  rw [same, known (List.mem_append_right _ ahead)] at found
  obtain rfl := Option.some.inj found
  exact List.disjoint_of_nodup_append distinct early ahead

/-- The next row of a page is visited. -/
theorem step_visit (verifies : cfg.verifyChecksums)
    (listed : ∀ id, id ∈ onDisk ↔ (disk.files id).isSome) {row : ChunkRow}
    (account : Account disk job.nodeID db orphans done db' result)
    (split : staleChunks job.nodeID db = done ++ (row :: rest)) (clock : Nat → Time)
    (left : List ChunkRow) (short : Bool) :
    ∃ db'' result', soloStep cfg disk ⟨clock, ⟨db', some ⟨job, result,
          .verifying onDisk ((row :: left).map staleReplica) short⟩⟩, done.map (·.id)⟩ =
        some ⟨fun k => clock (k + 1), ⟨db'', some ⟨job, result',
          nextReplica onDisk (staleReplica row) (left.map staleReplica) short⟩⟩,
          (done ++ [row]).map (·.id)⟩ ∧
      Account disk job.nodeID db orphans (done ++ [row]) db'' result' := by
  have member : row ∈ staleChunks job.nodeID db := by
    rw [split]
    exact List.mem_append_right _ List.mem_cons_self
  obtain ⟨found, stale⟩ := mem_staleChunks.mp member
  have unvisited := unvisited_of_split List.mem_cons_self split
  have still : db'.replicaState row.id job.nodeID = some .stale := by
    rw [Database.replicaState, account.unchanged _ _ fun visited => unvisited visited.2]
    exact stale
  obtain ⟨db'', result', effect, account'⟩ := account.replica (clock 0) verifies rfl
    (.verifying onDisk ((row :: left).map staleReplica) short) found still listed
    (left.map staleReplica) short
  refine ⟨db'', result', ?_, account'⟩
  have stepped : act cfg ⟨db', some ⟨job, result,
      .verifying onDisk ((row :: left).map staleReplica) short⟩⟩
        (.verify (clock 0) (some (checkChunk (disk.files row.id) cfg.verifyChecksums))) =
      ⟨db'', some ⟨job, result',
        nextReplica onDisk (staleReplica row) (left.map staleReplica) short⟩⟩ := by
    exact congrArg (fun out : Database × Inspection => (⟨out.1, some out.2⟩ : State)) effect
  rw [List.map_append, ← stepped]
  rfl

/-- A page that has been read is worked off row by row. -/
theorem reaches_verified (verifies : cfg.verifyChecksums)
    (listed : ∀ id, id ∈ onDisk ↔ (disk.files id).isSome) {page : List ChunkRow} {last : ChunkRow}
    {short : Bool} (account : Account disk job.nodeID db orphans done db' result)
    (split : staleChunks job.nodeID db = done ++ (page ++ [last] ++ rest)) :
    ∃ clock' db'' result', Reaches (soloStep cfg disk)
        ⟨clock, ⟨db', some ⟨job, result,
          .verifying onDisk ((page ++ [last]).map staleReplica) short⟩⟩, done.map (·.id)⟩
        ⟨clock', ⟨db'', some ⟨job, result', if short then .done else .paging onDisk last.id⟩⟩,
          (done ++ (page ++ [last])).map (·.id)⟩ ∧
      Account disk job.nodeID db orphans (done ++ (page ++ [last])) db'' result' := by
  induction page generalizing db' done result clock with
  | nil =>
    obtain ⟨db'', result', step, account'⟩ :=
      step_visit verifies listed account split clock [] short
    exact ⟨_, db'', result', .single step, account'⟩
  | cons first page ih =>
    obtain ⟨middle, result', step, account'⟩ :=
      step_visit verifies listed account split clock (page ++ [last]) short
    have more : nextReplica onDisk (staleReplica first) ((page ++ [last]).map staleReplica)
        short = .verifying onDisk ((page ++ [last]).map staleReplica) short := if_pos (by simp)
    rw [more] at step
    obtain ⟨clock', db'', result'', reaches, account''⟩ :=
      @ih middle (done ++ [first]) result' (fun k => clock (k + 1)) account'
        (by simpa using split)
    rw [List.append_assoc] at reaches account''
    exact ⟨clock', db'', result'', .head step reaches, account''⟩

/-- The next page is the next part of the list, although the replicas visited so far are no
longer STALE. -/
theorem staleReplicasOnNode_of_split {after limit : Nat}
    (account : Account disk job.nodeID db orphans done db' result)
    (split : staleChunks job.nodeID db = done ++ rest) (behind : ∀ a ∈ done, a.id ≤ after)
    (ahead : ∀ b ∈ rest, after < b.id) :
    staleReplicasOnNode job.nodeID after limit db' = (rest.take limit).map staleReplica := by
  refine congrArg (List.map staleReplica) ?_
  change db'.chunks.page (fun c => (db'.replicas.find? (c.id, job.nodeID)).any (·.state = .stale))
    (·.id) after limit = _
  rw [account.chunks]
  refine Table.page_of_split (fun a first b second same => Table.eq_of_key first second same) split
    behind ahead fun row _ above => ?_
  rw [account.unchanged row.id job.nodeID]
  rintro ⟨-, visited⟩
  obtain ⟨other, early, same⟩ := List.mem_map.mp visited
  have below := behind other early
  rw [same] at below
  exact absurd above (Nat.not_lt.mpr below)

/-- From a page on, the reconciliation visits what is left and comes to its end. -/
theorem reaches_done (verifies : cfg.verifyChecksums) (positive : 1 ≤ cfg.pageSize)
    (listed : ∀ id, id ∈ onDisk ↔ (disk.files id).isSome) {after : UUID}
    (account : Account disk job.nodeID db orphans done db' result)
    (split : staleChunks job.nodeID db = done ++ rest) (behind : ∀ a ∈ done, a.id ≤ after)
    (ahead : ∀ b ∈ rest, after < b.id) :
    ∃ clock' db'' result', Reaches (soloStep cfg disk)
        ⟨clock, ⟨db', some ⟨job, result, readPage cfg job onDisk after db'⟩⟩, done.map (·.id)⟩
        ⟨clock', ⟨db'', some ⟨job, result', .done⟩⟩, (staleChunks job.nodeID db).map (·.id)⟩ ∧
      Account disk job.nodeID db orphans (staleChunks job.nodeID db) db'' result' := by
  -- Every page that is read takes at least one row off the rest.
  induction size : rest.length using Nat.strong_induction_on
    generalizing rest db' done result clock after with
  | _ size ih =>
  subst size
  have read := @staleReplicasOnNode_of_split disk job db db' orphans done rest result after
    cfg.pageSize account split behind ahead
  rcases List.eq_nil_or_concat (rest.take cfg.pageSize) with none_left | ⟨page, last, taken⟩
  · obtain rfl : rest = [] := by
      refine (List.take_eq_nil_iff.mp none_left).resolve_left ?_
      omega
    have stage : readPage cfg job onDisk after db' = .done := by
      rw [readPage, read, none_left]
      rfl
    rw [List.append_nil] at split
    rw [stage, split]
    exact ⟨clock, db', result, .refl, account⟩
  · rw [List.concat_eq_append] at taken
    rw [taken] at read
    have stage : readPage cfg job onDisk after db' = .verifying onDisk
        ((page ++ [last]).map staleReplica) ((page ++ [last]).length < cfg.pageSize) := by
      rw [readPage, read, List.length_map]
      exact if_neg (by simp)
    have divided : rest = page ++ [last] ++ rest.drop cfg.pageSize := by
      rw [← taken, List.take_append_drop]
    rw [stage]
    obtain ⟨clock', middle, result', reaches, account'⟩ :=
      @reaches_verified cfg disk job db db' orphans onDisk done (rest.drop cfg.pageSize) result
        clock verifies listed page last (decide ((page ++ [last]).length < cfg.pageSize)) account
        (by rw [← divided, split])
    by_cases short : (page ++ [last]).length < cfg.pageSize
    · have finished : rest.drop cfg.pageSize = [] := by
        have := congrArg List.length taken
        rw [List.length_take] at this
        rw [List.drop_eq_nil_iff]
        omega
      rw [finished, List.append_nil] at divided
      rw [if_pos (decide_eq_true short)] at reaches
      rw [split, divided]
      exact ⟨clock', middle, result', reaches, account'⟩
    · rw [if_neg (by simpa using short)] at reaches
      have again : staleChunks job.nodeID db =
          done ++ (page ++ [last]) ++ rest.drop cfg.pageSize := by
        rw [List.append_assoc, ← divided, split]
      obtain ⟨behind', ahead'⟩ := Table.ahead_of_ordered
        (fun a first b second same => Table.eq_of_key first second same)
        (show _ = (done ++ page) ++ [last] ++ _ by rw [List.append_assoc done]; exact again)
      have fewer : (rest.drop cfg.pageSize).length < rest.length := by
        have total := congrArg List.length divided
        simp only [List.length_append, List.length_singleton] at total
        omega
      rw [List.append_assoc] at behind'
      obtain ⟨clock'', db'', result'', reaches', account''⟩ :=
        @ih _ fewer middle (done ++ (page ++ [last])) (rest.drop cfg.pageSize) result'
          (fun k => clock' (k + 1)) last.id account' again behind' ahead' rfl
      refine ⟨clock'', db'', result'', reaches.trans (.head ?_ reaches'), account''⟩
      simp [soloStep, nextEvent, act, advance, Stage.visits]

theorem reaches_end (verifies : cfg.verifyChecksums) (positive : 1 ≤ cfg.pageSize)
    (named : db.chunks.find? 0 = none) (clock : Nat → Time) :
    ∃ clock' db' result', Reaches (soloStep cfg disk)
        ⟨clock, ⟨db, some ⟨job, {}, .claimed⟩⟩, []⟩
        ⟨clock', ⟨db', some ⟨job, result', .done⟩⟩, (staleChunks job.nodeID db).map (·.id)⟩ ∧
      Account disk job.nodeID db (disk.inventory.dedup.filter
          (· ∉ (chunkIDsKnownOnNode job.nodeID db).map (·.1)))
        (staleChunks job.nodeID db) db' result' := by
  have listed (id : UUID) : id ∈ disk.inventory.dedup ↔ (disk.files id).isSome := by
    rw [List.mem_dedup, disk.listed]
  obtain ⟨middleClock, middle, result, first, account⟩ :=
    @reaches_orphans cfg disk job db db [] disk.inventory.dedup _ (fun k => clock (k + 2)) []
      (disk.inventory.dedup.filter (· ∉ (chunkIDsKnownOnNode job.nodeID db).map (·.1)))
      (Account.start disk job.nodeID db disk.inventory.length)
  have nonzero (row : ChunkRow) (member : row ∈ staleChunks job.nodeID db) : 0 < row.id := by
    refine Nat.pos_of_ne_zero fun zero => ?_
    have found := (mem_staleChunks.mp member).1
    rw [zero, named] at found
    cases found
  obtain ⟨clock', db', result', second, account'⟩ :=
    @reaches_done cfg disk job db middle _ disk.inventory.dedup [] _ result
      (fun k => middleClock (k + 1)) verifies positive listed 0 account rfl (by simp) nonzero
  refine ⟨clock', db', result', .head rfl (.head ?_ (first.trans (.head rfl second))), account'⟩
  simp [soloStep, nextEvent, act, advance, Stage.visits]

end Steps

theorem countP_eq_ncard {rows : List ChunkRow} (distinct : (rows.map (·.id)).Nodup)
    (p : UUID → Prop) [DecidablePred p] :
    (rows.countP fun row => p row.id) = {c | c ∈ rows.map (·.id) ∧ p c}.ncard := by
  have mapped : (rows.countP fun row => p row.id) = ((rows.map (·.id)).filter (p ·)).length := by
    rw [← List.countP_eq_length_filter, List.countP_map]
    rfl
  rw [mapped, ← List.toFinset_card_of_nodup (distinct.filter _), ← Set.ncard_coe_finset]
  congr 1
  ext c
  simp

section Result

variable {disk : Disk} {n : NodeID} {db db' : Database} {orphans : List UUID}
  {result : ReconcileResult}

/-- With the foreign key, the visited chunks are those with a STALE copy on the node. -/
theorem mem_ids_staleChunks (consistent : db.view.Consistent) {c : UUID} :
    c ∈ (staleChunks n db).map (·.id) ↔ db.replicaState c n = some .stale := by
  rw [List.mem_map]
  constructor
  · rintro ⟨row, member, rfl⟩
    exact (mem_staleChunks.mp member).2
  · intro stale
    have present := consistent.copy (c := c) (n := n) (by simp [Database.view, stale])
    simp only [View.referenced, Database.view, Bool.and_eq_true] at present
    obtain ⟨row, found⟩ := Option.isSome_iff_exists.mp present.1
    obtain ⟨-, rfl⟩ := Table.mem_of_find? found
    exact ⟨row, mem_staleChunks.mpr ⟨found, stale⟩, rfl⟩

theorem nodup_ids_staleChunks (n : NodeID) (db : Database) :
    ((staleChunks n db).map (·.id)).Nodup :=
  ((List.perm_insertionSort _ _).map _).nodup_iff.mpr (Table.nodup_select _ _)

theorem verdict_ne_stale (disk : Disk) (db : Database) (c : UUID) :
    verdict disk db c ≠ some .stale := by
  unfold verdict
  cases disk.files c with
  | none => simp
  | some bytes =>
    rw [Option.map_some]
    split <;> simp

/-- The bookkeeping at the end is the result. -/
theorem Account.reconciled (consistent : db.view.Consistent)
    (account : Account disk n db orphans (staleChunks n db) db' result)
    (looked : ∀ c, c ∈ orphans ∧ unaccounted c n db ↔ c ∈ disk.inventory ∧ unaccounted c n db) :
    Reconciled disk n db db' result := by
  have visited {c : UUID} := @mem_ids_staleChunks n db consistent c
  have settled (c : UUID) (stale : db.replicaState c n = some .stale) :
      db'.replicaState c n = verdict disk db c := by
    obtain ⟨row, member, rfl⟩ := List.mem_map.mp (visited.mpr stale)
    exact account.settled row member
  have unchanged (c : UUID) (m : NodeID) (other : ¬(m = n ∧ db.replicaState c n = some .stale)) :
      db'.replicas.find? (c, m) = db.replicas.find? (c, m) := by
    refine account.unchanged c m ?_
    rwa [visited]
  have counts (p : UUID → Prop) [DecidablePred p] :
      ((staleChunks n db).countP fun row => p row.id) =
        {c | db.replicaState c n = some .stale ∧ p c}.ncard := by
    rw [countP_eq_ncard (nodup_ids_staleChunks n db) p]
    simp only [visited]
  refine ⟨fun c => ?_, settled, unchanged, fun c m => ?_, ?_, ?_, ?_⟩
  · by_cases stale : db.replicaState c n = some .stale
    · rw [settled c stale]
      exact verdict_ne_stale disk db c
    · rwa [Database.replicaState, unchanged c n fun both => stale both.2]
  · rw [account.queued, looked, visited]
  · rw [account.verified]
    exact counts fun c => verdict disk db c = some .available
  · rw [account.phantoms]
    exact counts fun c => verdict disk db c = none
  · rw [account.corrupt]
    exact counts fun c => verdict disk db c = some .corrupt

end Result

/-- A reconciliation with nothing else running comes to its end, has then visited every STALE
replica of the node exactly once and settled it as its file says, has queued the files that
nothing accounts for, and has touched no other row. No chunk may have the nil UUID. -/
theorem reconcileNode_exact {cfg : ReconcileConfig} {disk : Disk} {job : ReconcileJob}
    {db : Database} (consistent : db.view.Consistent) (named : db.chunks.find? 0 = none)
    (positive : 1 ≤ cfg.pageSize) (verifies : cfg.verifyChecksums = true) (clock : Nat → Time) :
    ∃ final ∈ StateTransition.eval (soloStep cfg disk)
        ⟨clock, ⟨db, some ⟨job, {}, .claimed⟩⟩, []⟩,
      ∃ result, final.state.inspection = some ⟨job, result, .done⟩ ∧ final.visited.Nodup ∧
        (∀ c, c ∈ final.visited ↔ db.replicaState c job.nodeID = some .stale) ∧
        Reconciled disk job.nodeID db final.state.db result := by
  obtain ⟨clock', db', result, reaches, account⟩ :=
    @reaches_end cfg disk job db verifies positive named clock
  refine ⟨_, StateTransition.mem_eval.mpr ⟨reaches, rfl⟩, result, rfl,
    nodup_ids_staleChunks job.nodeID db, fun c => mem_ids_staleChunks consistent,
    account.reconciled consistent fun c => and_congr_left fun orphan => ?_⟩
  have absent : c ∉ (chunkIDsKnownOnNode job.nodeID db).map (·.1) := by
    intro known
    obtain ⟨_, listed, rfl⟩ := List.mem_map.mp known
    obtain ⟨r, selected, rfl⟩ := List.mem_map.mp listed
    obtain ⟨member, node⟩ := List.mem_filter.mp selected
    have found : db.replicas.find? (r.chunkID, r.nodeID) = some r := Table.find?_of_mem member
    rw [of_decide_eq_true node] at found
    simp [unaccounted, found] at orphan
  simp [absent]

/-- A node that was away and came back, with a STALE copy of one chunk. -/
def returned (chunkID : UUID) : Database :=
  run step Database.empty
    [⟨0, .upsertNode "n1" "n1:9000" .healthy {} 0⟩, ⟨1, .beginUpload 1 "b" "k" "" 8⟩,
      ⟨2, .reserveChunk chunkID ⟨some 1, none⟩ 0 8⟩, ⟨3, .commitChunk chunkID 5 8 ["n1"] [] 1⟩,
      ⟨4, .completeUpload 1 8 1 "e"⟩, ⟨5, .setNodeHealth "n1" .dead⟩,
      ⟨6, .upsertNode "n1" "n1:9000" .healthy {} 6⟩, ⟨6, .markReplicasStaleOnNode "n1"⟩]

def emptyDisk : Disk := ⟨fun _ => none, [], by simp⟩

theorem reconcileNode_exact_emptyDisk :
    (returned 10).replicaState 10 "n1" = some .stale ∧
    ∃ final ∈ StateTransition.eval (soloStep ⟨"r", 30, 1, true⟩ emptyDisk)
        ⟨fun k => 7 + k, ⟨returned 10, some ⟨⟨1, "n1", "n1:9000", 6⟩, {}, .claimed⟩⟩, []⟩,
      ∃ result, final.state.inspection = some ⟨⟨1, "n1", "n1:9000", 6⟩, result, .done⟩ ∧
        final.visited.Nodup ∧
        (∀ c, c ∈ final.visited ↔ (returned 10).replicaState c "n1" = some .stale) ∧
        Reconciled emptyDisk "n1" (returned 10) final.state.db result :=
  ⟨by decide, reconcileNode_exact (consistent_run consistent_empty _) (by decide) (by decide) rfl _⟩

/-- The copy of a chunk with the nil UUID is passed over and stays STALE. -/
theorem reconcileNode_nilChunk :
    ∃ final ∈ StateTransition.eval (soloStep ⟨"r", 30, 1, true⟩ emptyDisk)
        ⟨fun k => 7 + k, ⟨returned 0, some ⟨⟨1, "n1", "n1:9000", 6⟩, {}, .claimed⟩⟩, []⟩,
      final.visited = [] ∧ (returned 0).replicaState 0 "n1" = some .stale ∧
        final.state.db.replicaState 0 "n1" = some .stale ∧
        ∀ result, ¬Reconciled emptyDisk "n1" (returned 0) final.state.db result := by
  have stale : (returned 0).replicaState 0 "n1" = some .stale := by decide
  refine ⟨⟨fun k => 7 + (k + 3 : Nat), ⟨returned 0, some ⟨⟨1, "n1", "n1:9000", 6⟩, {}, .done⟩⟩, []⟩,
    StateTransition.mem_eval.mpr ⟨.head rfl (.head rfl (.head rfl .refl)), rfl⟩, rfl, stale, stale,
    fun result reconciled => reconciled.noneStale 0 stale⟩

end FlexStore.Coordinator.Reconcile
