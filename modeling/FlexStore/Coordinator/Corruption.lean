import FlexStore.Coordinator.Service
import FlexStore.Metadata.Scan

/-!
# Corruption reports

A report demotes the copy and then schedules a repair at once. It does so with a scan over
all chunks that may look at one of them, so the chunk that gets the job is the most
endangered one, not the one that was reported. Which chunk that is, and whether it has a
job already, decides what the caller is told.
-/

namespace FlexStore.Coordinator

open Relational Transition Metadata

/-- The chunks that the scan of a report looks at, in the state after the demotion. -/
def lookedAt (replicationFactor : Int) (chunkID : UUID) (demoted : Database) : List UUID :=
  if 0 < demoted.availableReplicas chunkID then scanned replicationFactor 1 demoted else []

/-- The second state has a job for the chunk that the first does not have. -/
def CreatedJob (chunkID : UUID) (db db' : Database) : Prop :=
  ∃ j ∈ db'.repairJobs.rows, j ∉ db.repairJobs.rows ∧ j.chunkID = chunkID

/-- The report leaves an active job for the chunk, and says that one was scheduled exactly if
the call created it. -/
def Replaced (chunkID : UUID) (db db' : Database) (scheduled : Bool) : Prop :=
  db'.busy chunkID ∧ (scheduled ↔ CreatedJob chunkID db db')

theorem not_createdJob_self {c : UUID} {db : Database} : ¬ CreatedJob c db db := by
  rintro ⟨j, member, unknown, -⟩
  exact unknown member

section Scan

variable {now : Time} {replicationFactor : Int} {limit : Nat} {db : Database} {c : UUID}

/-- What a scan does to the chunks it looks at: it creates a job for those without an active
one, so that all of them have one. -/
theorem enqueueRepairs_effect (now : Time) (replicationFactor : Int) (limit : Nat)
    (numbered : Numbered db) :
    let scan := enqueueRepairs now replicationFactor limit db
    (0 < scan.1 ↔ ∃ d ∈ scanned replicationFactor limit db, db.busy d = false) ∧
      (∀ c, CreatedJob c db scan.2 ↔
        c ∈ scanned replicationFactor limit db ∧ db.busy c = false) ∧
      ∀ c, scan.2.busy c ↔ db.busy c ∨ c ∈ scanned replicationFactor limit db := by
  obtain ⟨new, rows, chunks, issued, -⟩ := rows_foldl_enqueueRepair now numbered
    (nodup_scanned replicationFactor limit db)
  change (enqueueRepairs now replicationFactor limit db).2.repairJobs.rows = _ at rows
  have listed (c : UUID) : (∃ j ∈ new, j.chunkID = c) ↔
      c ∈ scanned replicationFactor limit db ∧ db.busy c = false := by
    rw [← List.mem_map, chunks, List.mem_filter, Bool.not_eq_true']
  refine ⟨?_, fun c => ?_, fun c => ?_⟩
  · change 0 < (enqueueRepairs now replicationFactor limit db).2.repairJobs.rows.length - _ ↔ _
    rw [rows, List.length_append, Nat.add_sub_cancel_left, List.length_pos_iff_exists_mem]
    constructor
    · rintro ⟨j, member⟩
      exact ⟨j.chunkID, (listed _).mp ⟨j, member, rfl⟩⟩
    · rintro ⟨d, waiting⟩
      obtain ⟨j, member, -⟩ := (listed d).mpr waiting
      exact ⟨j, member⟩
  · rw [← listed, CreatedJob, rows]
    constructor
    · rintro ⟨j, member, unknown, chunk⟩
      exact ⟨j, (List.mem_append.mp member).resolve_left unknown, chunk⟩
    · rintro ⟨j, member, chunk⟩
      refine ⟨j, List.mem_append_right _ member, fun known => ?_, chunk⟩
      have below := numbered j known
      have above := (issued j member).2.1
      omega
  · have active : (∃ j ∈ new, j.chunkID = c) ↔ ∃ j ∈ new, (j.chunkID = c && j.active) := by
      refine exists_congr fun j => and_congr_right fun member => ?_
      have alive : j.active := by
        rw [(issued j member).1]
        rfl
      simp [alive]
    have split_ : (enqueueRepairs now replicationFactor limit db).2.busy c ↔
        db.busy c ∨ ∃ j ∈ new, (j.chunkID = c && j.active) := by
      rw [Database.busy, rows, List.any_append, Bool.or_eq_true, List.any_eq_true (l := new)]
      rfl
    rw [split_, ← active, listed]
    cases db.busy c <;> simp

end Scan

/-- A demotion reads the counter and leaves the repair queue alone. -/
theorem markReplicaCorrupt_jobs {now : Time} {chunkID : UUID} {nodeID : NodeID}
    {detail : String} {db demoted : Database} {remaining : Int}
    (marked : markReplicaCorrupt now chunkID nodeID detail db = .ok (remaining, demoted)) :
    remaining = demoted.availableReplicas chunkID ∧ demoted.repairJobs = db.repairJobs ∧
      demoted.nextRepairJobID = db.nextRepairJobID := by
  simp only [markReplicaCorrupt, bind_eq_ok, lookup_eq_ok, pure_eq_ok, Prod.mk.injEq] at marked
  obtain ⟨text, -, row, -, rfl, rfl⟩ := marked
  exact ⟨rfl, rfl, rfl⟩

/-- A report that is accepted returns, and it does right by the chunk if and only if the scan
looks at this very chunk, or the chunk has an active job already and so has the chunk that
the scan looks at. -/
theorem reportCorruptReplica_replaced_iff {now : Time} {replicationFactor : Int} {chunkID : UUID}
    {nodeID : NodeID} {detail : String} {db demoted : Database} {remaining : Int}
    (numbered : Numbered db) (named : nodeID ≠ "")
    (marked : markReplicaCorrupt now chunkID nodeID detail db = .ok (remaining, demoted)) :
    ∃ scheduled db', reportCorruptReplica now (some replicationFactor) chunkID nodeID detail db =
        (.ok (remaining, scheduled), db') ∧
      (Replaced chunkID db db' scheduled ↔
        lookedAt replicationFactor chunkID demoted = [chunkID] ∨
          db.busy chunkID ∧ ∀ d ∈ lookedAt replicationFactor chunkID demoted, db.busy d) := by
  obtain ⟨counter, jobs, next⟩ := markReplicaCorrupt_jobs marked
  have same (c : UUID) : demoted.busy c = db.busy c := by rw [Database.busy, jobs, Database.busy]
  have numbered' : Numbered demoted := by rwa [Numbered, jobs, next]
  have new (db' : Database) : CreatedJob chunkID db db' ↔ CreatedJob chunkID demoted db' := by
    rw [CreatedJob, CreatedJob, jobs]
  unfold reportCorruptReplica lookedAt
  rw [if_neg named, Procedure.bind_of_ok (transaction_ok.mpr marked), counter]
  dsimp only
  by_cases usable : 0 < demoted.availableReplicas chunkID
  · obtain ⟨created, forChunk, busy⟩ := enqueueRepairs_effect now replicationFactor 1 numbered'
    rw [if_pos usable, if_pos usable]
    refine ⟨decide (0 < (enqueueRepairs now replicationFactor 1 demoted).1),
      (enqueueRepairs now replicationFactor 1 demoted).2, ?_, ?_⟩
    · rw [Procedure.bind_of_ok (transaction_ok.mpr rfl)]
      rfl
    · rw [Replaced, busy, decide_eq_true_iff, created, new, forChunk]
      simp only [← same]
      have one : (scanned replicationFactor 1 demoted).length ≤ 1 := by
        rw [scanned, List.length_map]
        exact List.length_take_le _ _
      generalize scanned replicationFactor 1 demoted = looked at one ⊢
      cases looked with
      | nil => simp
      | cons d rest =>
        obtain rfl : rest = [] := by simpa using one
        by_cases mine : chunkID = d
        · simp [mine]
        · simp [mine, Ne.symm mine]
  · rw [if_neg usable, if_neg usable]
    refine ⟨false, demoted, rfl, ?_⟩
    rw [Replaced, new, same]
    simp [not_createdJob_self]

/-- Two chunks of one object: the first has two copies, the second has three. -/
def twoChunks : Database :=
  run step Database.empty
    [⟨0, .upsertNode "n1" "n1:9000" .healthy {} 0⟩, ⟨0, .upsertNode "n2" "n2:9000" .healthy {} 0⟩,
      ⟨0, .upsertNode "n3" "n3:9000" .healthy {} 0⟩, ⟨1, .beginUpload 1 "b" "k" "" 8⟩,
      ⟨2, .reserveChunk 10 ⟨some 1, none⟩ 0 8⟩, ⟨2, .reserveChunk 11 ⟨some 1, none⟩ 1 8⟩,
      ⟨3, .commitChunk 10 5 8 ["n1", "n2"] [] 1⟩, ⟨3, .commitChunk 11 6 8 ["n1", "n2", "n3"] [] 1⟩,
      ⟨4, .completeUpload 1 16 2 "e"⟩]

theorem reportCorruptReplica_replaced_twoChunks :
    ∃ remaining demoted scheduled db',
      markReplicaCorrupt 5 10 "n2" "bad" twoChunks = .ok (remaining, demoted) ∧
      reportCorruptReplica 5 (some 3) 10 "n2" "bad" twoChunks =
        (.ok (remaining, scheduled), db') ∧
      (Replaced 10 twoChunks db' scheduled ↔
        lookedAt 3 10 demoted = [10] ∨
          twoChunks.busy 10 ∧ ∀ d ∈ lookedAt 3 10 demoted, twoChunks.busy d) := by
  obtain ⟨⟨remaining, demoted⟩, marked⟩ :
      ∃ out, markReplicaCorrupt 5 10 "n2" "bad" twoChunks = .ok out := ⟨_, rfl⟩
  obtain ⟨scheduled, db', returns, exact_⟩ :=
    @reportCorruptReplica_replaced_iff 5 3 _ _ _ _ _ _ (numbered_run _) (by decide) marked
  exact ⟨remaining, demoted, scheduled, db', marked, returns, exact_⟩

/-- A report about the second chunk gets the first one a job, says that a repair is
scheduled, and leaves the reported chunk without. -/
theorem reportCorruptReplica_otherChunk :
    (reportCorruptReplica 5 (some 3) 11 "n3" "bad" twoChunks).1 = .ok (2, true) ∧
      (reportCorruptReplica 5 (some 3) 11 "n3" "bad" twoChunks).2.busy 10 = true ∧
      (reportCorruptReplica 5 (some 3) 11 "n3" "bad" twoChunks).2.busy 11 = false ∧
      ¬Replaced 11 twoChunks (reportCorruptReplica 5 (some 3) 11 "n3" "bad" twoChunks).2 true := by
  have idle : (reportCorruptReplica 5 (some 3) 11 "n3" "bad" twoChunks).2.busy 11 = false := by
    decide
  refine ⟨by decide, by decide, idle, ?_⟩
  rintro ⟨busy, -⟩
  rw [idle] at busy
  cases busy

end FlexStore.Coordinator
