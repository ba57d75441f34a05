import FlexStore.Metadata.Scan

/-!
# Requeueing failed repairs

A topology change gives terminally failed jobs another chance. The statement leaves out the
chunks that have an active job, but it looks for those in the table as it was before the
statement. Scans create a new job for a chunk whose repair was given up, so one chunk can
have several FAILED jobs, and a statement that selects two of them makes both active.
-/

namespace FlexStore.Metadata

open Relational Transition

/-- The FAILED jobs of COMMITTED chunks that one call selects, the longest unchanged first. -/
def requeueable (limit : Nat) (db : Database) : List RepairJobRow :=
  ((db.repairJobs.select fun j =>
      j.state = .failed && (db.chunks.find? j.chunkID).any (·.state = .committed)).insertionSort
    fun a b => a.updatedAt ≤ b.updatedAt).take limit

/-- The call completes, every chunk has at most one active job afterwards, and the chunks of
the selected jobs have exactly one. -/
def Revives (now : Time) (limit : Nat) (db : Database) : Prop :=
  ∃ n db', requeueFailedRepairs now limit db = .ok (n, db') ∧
    (∀ c, (db'.repairJobs.count fun a => a.chunkID = c && a.active) ≤ 1) ∧
    ∀ j ∈ requeueable limit db,
      (db'.repairJobs.count fun a => a.chunkID = j.chunkID && a.active) = 1

section Requeue

variable {now : Time} {limit : Nat} {db : Database} {j : RepairJobRow}

def requeued (limit : Nat) (db : Database) (j : RepairJobRow) : Bool :=
  j.id ∈ (requeueable limit db).map (·.id) && !db.busy j.chunkID

def requeue (now : Time) (j : RepairJobRow) : RepairJobRow :=
  { j with state := .pending, attempts := 0, nextAttemptAt := now, finishedAt := none
           updatedAt := now }

theorem requeueFailedRepairs_eq (now : Time) (limit : Nat) (db : Database) :
    requeueFailedRepairs now limit db = (do
      let after := db.updateRepairJobs (requeued limit db) (requeue now)
      require (activeJobsUnique after.repairJobs) (.constraint .repairJobsActive)
      pure (db.repairJobs.count (requeued limit db), after)) := rfl

theorem mem_requeueable (listed : j ∈ requeueable limit db) :
    j ∈ db.repairJobs.rows ∧ j.state = .failed := by
  obtain ⟨member, selected⟩ := List.mem_filter.mp
    ((List.mem_insertionSort _).mp (List.mem_of_mem_take listed))
  exact ⟨member, of_decide_eq_true (Bool.and_eq_true_iff.mp selected).1⟩

theorem requeued_iff (member : j ∈ db.repairJobs.rows) :
    requeued limit db j ↔ j ∈ requeueable limit db ∧ db.busy j.chunkID = false := by
  rw [requeued, Bool.and_eq_true, decide_eq_true_eq, Bool.not_eq_true', List.mem_map]
  refine and_congr_left fun _ => ⟨?_, fun listed => ⟨j, listed, rfl⟩⟩
  rintro ⟨i, listed, same⟩
  rwa [← Table.eq_of_key (mem_requeueable listed).1 member same]

/-- The index as a fact about rows. -/
theorem activeJobsUnique_rows {t : Table RepairJobRow.id} : activeJobsUnique t ↔
    ∀ a ∈ t.rows, ∀ b ∈ t.rows, a.active → b.active → a.chunkID = b.chunkID → a = b := by
  rw [activeJobsUnique, List.nodup_map_iff_inj_on (t.nodup_select (·.active)).of_map]
  simp only [Table.select, List.mem_filter]
  exact ⟨fun unique a member b member' active active' => unique a ⟨member, active⟩ b
    ⟨member', active'⟩, fun unique a listed b listed' => unique a listed.1 b listed'.1 listed.2
      listed'.2⟩

theorem count_active_le_one {t : Table RepairJobRow.id} (unique : activeJobsUnique t) (c : UUID) :
    (t.count fun a => a.chunkID = c && a.active) ≤ 1 := by
  have once := List.nodup_iff_count_le_one.mp unique c
  rw [List.count_eq_countP, List.countP_map, Table.select, List.countP_filter] at once
  refine le_trans (le_of_eq (List.countP_congr fun j _ => ?_)) once
  simp

theorem mem_rows_requeue {j' : RepairJobRow} :
    j' ∈ (db.updateRepairJobs (requeued limit db) (requeue now)).repairJobs.rows ↔
      ∃ j ∈ db.repairJobs.rows, (if requeued limit db j then requeue now j else j) = j' :=
  List.mem_map

/-- A row is active afterwards if it was, or if it is one of the updated ones. -/
theorem active_requeue (member : j ∈ db.repairJobs.rows) :
    (if requeued limit db j then requeue now j else j).active ↔
      j.active ∨ j ∈ requeueable limit db ∧ db.busy j.chunkID = false := by
  rw [← requeued_iff member]
  by_cases chosen : requeued limit db j
  · simp [chosen, requeue, RepairJobRow.active]
  · simp [chosen]

theorem chunkID_requeue (j : RepairJobRow) :
    (if requeued limit db j then requeue now j else j).chunkID = j.chunkID := by
  split <;> rfl

theorem id_requeue (j : RepairJobRow) :
    (if requeued limit db j then requeue now j else j).id = j.id := by
  split <;> rfl

theorem busy_of_active (member : j ∈ db.repairJobs.rows) (active : j.active) :
    db.busy j.chunkID :=
  List.any_eq_true.mpr ⟨j, member, by simp [active]⟩

/-- The updated table satisfies the index if and only if no chunk gets two jobs at once. -/
theorem unique_requeue_iff (unique : activeJobsUnique db.repairJobs) :
    activeJobsUnique (db.updateRepairJobs (requeued limit db) (requeue now)).repairJobs ↔
      ∀ i ∈ requeueable limit db, ∀ j ∈ requeueable limit db, i.chunkID = j.chunkID →
        db.busy i.chunkID = false → i = j := by
  rw [activeJobsUnique_rows]
  constructor
  · intro after i listed j listed' same idle
    obtain ⟨member, -⟩ := mem_requeueable listed
    obtain ⟨member', -⟩ := mem_requeueable listed'
    have equal := after _ (mem_rows_requeue.mpr ⟨i, member, rfl⟩) _
      (mem_rows_requeue.mpr ⟨j, member', rfl⟩)
      ((active_requeue member).mpr (Or.inr ⟨listed, idle⟩))
      ((active_requeue member').mpr (Or.inr ⟨listed', same ▸ idle⟩))
      (by rwa [chunkID_requeue, chunkID_requeue])
    have key := congrArg RepairJobRow.id equal
    rw [id_requeue, id_requeue] at key
    exact Table.eq_of_key member member' key
  · rintro apart a listed b listed' active active' same
    obtain ⟨i, member, rfl⟩ := mem_rows_requeue.mp listed
    obtain ⟨j, member', rfl⟩ := mem_rows_requeue.mp listed'
    rw [chunkID_requeue, chunkID_requeue] at same
    suffices equal : i = j by rw [equal]
    rcases (active_requeue member).mp active with was | ⟨chosen, idle⟩ <;>
      rcases (active_requeue member').mp active' with was' | ⟨chosen', idle'⟩
    · exact activeJobsUnique_rows.mp unique i member j member' was was' same
    · rw [← same, busy_of_active member was] at idle'
      cases idle'
    · rw [same, busy_of_active member' was'] at idle
      cases idle
    · exact apart i chosen j chosen' same idle

/-- Afterwards the chunk of a selected job has an active one: its own, or the one that kept it
from being updated. -/
theorem exists_active_requeue (listed : j ∈ requeueable limit db) :
    0 < (db.updateRepairJobs (requeued limit db) (requeue now)).repairJobs.count
      fun a => a.chunkID = j.chunkID && a.active := by
  obtain ⟨member, -⟩ := mem_requeueable listed
  refine List.countP_pos_iff.mpr ?_
  cases busy : db.busy j.chunkID with
  | false =>
    refine ⟨_, mem_rows_requeue.mpr ⟨j, member, rfl⟩, ?_⟩
    simp [chunkID_requeue, (active_requeue member).mpr (Or.inr ⟨listed, busy⟩)]
  | true =>
    obtain ⟨a, present, holds⟩ := List.any_eq_true.mp busy
    obtain ⟨chunk, active⟩ := Bool.and_eq_true_iff.mp holds
    refine ⟨_, mem_rows_requeue.mpr ⟨a, present, rfl⟩, ?_⟩
    simp [chunkID_requeue, of_decide_eq_true chunk, (active_requeue present).mpr (Or.inl active)]

end Requeue

/-- In every reachable state, a call revives the repairs it selects if and only if no chunk
without an active job is selected twice. -/
theorem requeueFailedRepairs_revives_iff (calls : List Call) (now : Time) (limit : Nat) :
    Revives now limit (run step Database.empty calls) ↔
      ∀ i ∈ requeueable limit (run step Database.empty calls),
        ∀ j ∈ requeueable limit (run step Database.empty calls), i.chunkID = j.chunkID →
          (run step Database.empty calls).busy i.chunkID = false → i = j := by
  have unique := unique_run calls
  generalize run step Database.empty calls = db at unique ⊢
  rw [← @unique_requeue_iff now limit db unique, Revives, requeueFailedRepairs_eq]
  simp only [bind_eq_ok, require_eq_ok, pure_eq_ok, Prod.mk.injEq]
  constructor
  · rintro ⟨_, _, ⟨_, kept, -⟩, -⟩
    exact kept
  · intro kept
    refine ⟨_, _, ⟨(), kept, rfl, rfl⟩, count_active_le_one kept, fun j listed => ?_⟩
    exact Nat.le_antisymm (count_active_le_one kept _) (exists_active_requeue listed)

/-- A chunk with one copy whose repair fails for good twice, with a scan in between. -/
def failedTwice : List Call :=
  [⟨0, .upsertNode "n1" "n1:9000" .healthy {} 0⟩, ⟨1, .beginUpload 1 "b" "k" "" 8⟩,
    ⟨2, .reserveChunk 10 ⟨some 1, none⟩ 0 8⟩, ⟨3, .commitChunk 10 5 8 ["n1"] [] 1⟩,
    ⟨4, .completeUpload 1 8 1 "e"⟩,
    ⟨5, .enqueueRepairs 2 10⟩, ⟨6, .claimRepairJob "w" 30 2⟩, ⟨7, .failRepair 1 "no target" 1 1⟩,
    ⟨8, .enqueueRepairs 2 10⟩, ⟨9, .claimRepairJob "w" 30 2⟩, ⟨10, .failRepair 2 "no target" 1 1⟩]

/-- The call on both jobs runs into the index and revives neither. -/
theorem requeueFailedRepairs_failedTwice :
    (requeueable 10 (run step Database.empty failedTwice)).map (·.chunkID) = [10, 10] ∧
      (requeueFailedRepairs 11 10 (run step Database.empty failedTwice)).map Prod.fst =
        .error (.constraint .repairJobsActive) ∧
      ¬Revives 11 10 (run step Database.empty failedTwice) := by
  have fails : (requeueFailedRepairs 11 10 (run step Database.empty failedTwice)).map Prod.fst =
      .error (.constraint .repairJobsActive) := by decide
  refine ⟨by decide, fails, ?_⟩
  rintro ⟨n, db', done, -⟩
  rw [done] at fails
  cases fails

end FlexStore.Metadata
