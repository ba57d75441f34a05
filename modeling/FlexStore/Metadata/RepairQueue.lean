import FlexStore.Metadata.Queue

/-!
# The repair queue across calls

A repair job is followed by the columns that decide what happens to it next. `JobMove`
lists everything one store call can do to one job: a scan creates it, a worker leases it,
a finishing call closes it or puts it off, an expired lease and a change of topology bring
it back, and a purge removes it. Numbers come from a sequence and are never used again,
and no chunk has two active jobs.
-/

namespace FlexStore.Metadata

open Relational Transition

/-- The columns of a repair job that decide what happens to it next. -/
structure Job where
  chunkID : UUID
  state : JobState
  attempts : Nat
  leaseExpiresAt : Option Time
  deriving DecidableEq

def Job.active (j : Job) : Bool := j.state = .pending || j.state = .running

def RepairJobRow.job (r : RepairJobRow) : Job where
  chunkID := r.chunkID
  state := r.state
  attempts := r.attempts
  leaseExpiresAt := r.leaseExpiresAt

@[simp] theorem RepairJobRow.active_job (r : RepairJobRow) : r.job.active = r.active := rfl

def Database.job (db : Database) (id : Nat) : Option Job := (db.repairJobs.find? id).map (·.job)

/-- A PENDING or RUNNING job for the chunk exists. -/
def Database.busy (db : Database) (c : UUID) : Bool :=
  db.repairJobs.rows.any fun j => j.chunkID = c && j.active

/-- Every job has a number that the sequence has issued. -/
def Numbered (db : Database) : Prop := ∀ j ∈ db.repairJobs.rows, j.id < db.nextRepairJobID

/-- The under-replicated chunks a scan is about, the most endangered first. -/
def damaged (replicationFactor : Int) (db : Database) : List ChunkRow :=
  (db.chunks.select fun c => accounted db c &&
      db.availableReplicas c.id < replicationFactor && 0 < db.availableReplicas c.id).insertionSort
    fun a b => db.availableReplicas a.id < db.availableReplicas b.id ∨
      db.availableReplicas a.id = db.availableReplicas b.id ∧ a.id ≤ b.id

/-- The chunks that one scan looks at. -/
def scanned (replicationFactor : Int) (limit : Nat) (db : Database) : List UUID :=
  ((damaged replicationFactor db).take limit).map (·.id)

/-- The job number that a finishing call names. -/
def Op.finishes : Op → Option Nat
  | .completeRepair jobID .. => some jobID
  | .finishRepairAsNoop jobID .. => some jobID
  | .failRepair jobID .. => some jobID
  | _ => none

/-- What a call can do to the job with number `id`. -/
inductive JobMove (db db' : Database) (call : Call) (id : Nat) :
    Option Job → Option Job → Prop
  | kept (job : Option Job) : JobMove db db' call id job job
  | inserted (c : UUID) {replicationFactor : Int} {limit : Nat}
      (op : call.op = .enqueueRepairs replicationFactor limit)
      (selected : c ∈ scanned replicationFactor limit db) (idle : db.busy c = false)
      (fresh : db.nextRepairJobID ≤ id) (issued : id < db'.nextRepairJobID) :
      JobMove db db' call id none (some ⟨c, .pending, 0, none⟩)
  | reclaimed (j : Job) (op : call.op = .reclaimExpiredRepairLeases)
      (running : j.state = .running) (expired : j.leaseExpiresAt.any (· < call.now)) :
      JobMove db db' call id (some j)
        (some { j with state := .pending, leaseExpiresAt := none })
  | claimed (j : Job) {owner : String} {lease : Duration} {replicationFactor : Int}
      (op : call.op = .claimRepairJob owner lease replicationFactor)
      (pending : j.state = .pending) :
      JobMove db db' call id (some j) (some { j with
        state := .running
        attempts := j.attempts + 1
        leaseExpiresAt := some (call.now + lease) })
  | succeeded (j : Job) (op : call.op.finishes = some id) :
      JobMove db db' call id (some j)
        (some { j with state := .succeeded, leaseExpiresAt := none })
  | failed (j : Job) {cause : String} {backoff : Duration} {maxAttempts : Int}
      (op : call.op = .failRepair id cause backoff maxAttempts) :
      JobMove db db' call id (some j) (some { j with
        state := if maxAttempts ≤ j.attempts then .failed else .pending
        leaseExpiresAt := none })
  | requeued (j : Job) {limit : Nat} (op : call.op = .requeueFailedRepairs limit)
      (failed : j.state = .failed) :
      JobMove db db' call id (some j) (some { j with state := .pending, attempts := 0 })
  | purged (j : Job) {olderThan : Duration} {replicationFactor : Int} {limit : Nat}
      {pick : List Nat}
      (op : call.op = .purgeFinishedRepairJobs olderThan replicationFactor limit pick)
      (finished : j.state = .succeeded ∨ j.state = .failed ∧
        ((db.chunks.find? j.chunkID).isNone ∨
          replicationFactor ≤ db.availableReplicas j.chunkID)) :
      JobMove db db' call id (some j) none
  | cascaded (j : Job) (op : call.op.finishes = none)
      (gone : db'.chunks.find? j.chunkID = none) : JobMove db db' call id (some j) none

section Scan

variable {db : Database} {c : UUID}

def pendingJob (now : Time) (id : Nat) (chunkID : UUID) : RepairJobRow where
  id := id
  chunkID := chunkID
  state := .pending
  sourceNodeID := none
  targetNodeID := none
  attempts := 0
  lastError := none
  owner := none
  leaseExpiresAt := none
  nextAttemptAt := now
  createdAt := now
  updatedAt := now
  finishedAt := none

theorem Numbered.find?_next (numbered : Numbered db) :
    db.repairJobs.find? db.nextRepairJobID = none :=
  Table.find?_eq_none.mpr fun j member => Nat.ne_of_lt (numbered j member)

theorem repairJobs_enqueueRepair_of_busy (now : Time) (busy : db.busy c = true) :
    (enqueueRepair now db c).repairJobs = db.repairJobs :=
  if_pos busy

theorem rows_enqueueRepair_of_idle (now : Time) (numbered : Numbered db)
    (idle : db.busy c = false) :
    (enqueueRepair now db c).repairJobs.rows =
      db.repairJobs.rows ++ [pendingJob now db.nextRepairJobID c] := by
  have inserted : (enqueueRepair now db c).repairJobs =
      db.repairJobs.insertIgnore (pendingJob now db.nextRepairJobID c) :=
    if_neg (Bool.not_eq_true _ ▸ idle)
  rw [inserted]
  exact congrArg Table.rows (dif_pos numbered.find?_next)

theorem numbered_enqueueRepair (now : Time) (numbered : Numbered db) :
    Numbered (enqueueRepair now db c) := by
  intro j member
  change j.id < db.nextRepairJobID + 1
  cases idle : db.busy c with
  | true =>
    rw [repairJobs_enqueueRepair_of_busy now idle] at member
    exact Nat.lt_succ_of_lt (numbered j member)
  | false =>
    rw [rows_enqueueRepair_of_idle now numbered idle, List.mem_append,
      List.mem_singleton] at member
    rcases member with old | rfl
    · exact Nat.lt_succ_of_lt (numbered j old)
    · exact Nat.lt_succ_self _

/-- A scan appends one PENDING job for each idle chunk, in the order of the scan, under
numbers from the sequence. -/
theorem rows_foldl_enqueueRepair (now : Time) {ids : List UUID} (numbered : Numbered db)
    (distinct : ids.Nodup) :
    ∃ new : List RepairJobRow,
      (ids.foldl (enqueueRepair now) db).repairJobs.rows = db.repairJobs.rows ++ new ∧
      new.map (·.chunkID) = ids.filter (fun c => !db.busy c) ∧
      (∀ j ∈ new, j = pendingJob now j.id j.chunkID ∧ db.nextRepairJobID ≤ j.id ∧
        j.id < (ids.foldl (enqueueRepair now) db).nextRepairJobID) ∧
      db.nextRepairJobID ≤ (ids.foldl (enqueueRepair now) db).nextRepairJobID := by
  induction ids generalizing db with
  | nil => exact ⟨[], by simp⟩
  | cons c rest ih =>
    obtain ⟨unlisted, distinct⟩ := List.nodup_cons.mp distinct
    obtain ⟨new, rows, chunks, issued, grows⟩ :=
      ih (numbered_enqueueRepair now (c := c) numbered) distinct
    have next : (enqueueRepair now db c).nextRepairJobID = db.nextRepairJobID + 1 := rfl
    rw [next] at grows
    have later : ∀ j ∈ new, j = pendingJob now j.id j.chunkID ∧ db.nextRepairJobID ≤ j.id ∧
        j.id < ((c :: rest).foldl (enqueueRepair now) db).nextRepairJobID := by
      intro j member
      obtain ⟨row, above, below⟩ := issued j member
      exact ⟨row, Nat.le_of_succ_le above, below⟩
    cases idle : db.busy c with
    | true =>
      have same := repairJobs_enqueueRepair_of_busy now idle
      have busy : (enqueueRepair now db c).busy = db.busy := by
        funext x
        simp only [Database.busy, same]
      refine ⟨new, ?_, ?_, later, Nat.le_of_succ_le grows⟩
      · rw [List.foldl_cons, rows, same]
      · rw [chunks, busy, List.filter_cons, if_neg (by simp [idle])]
    | false =>
      have added := rows_enqueueRepair_of_idle now numbered idle
      have busy : ∀ x ∈ rest, (enqueueRepair now db c).busy x = db.busy x := by
        intro x member
        have other : c ≠ x := fun same => unlisted (same ▸ member)
        simp [Database.busy, added, pendingJob, other]
      refine ⟨pendingJob now db.nextRepairJobID c :: new, ?_, ?_, ?_,
        Nat.le_of_succ_le grows⟩
      · rw [List.foldl_cons, rows, added, List.append_assoc, List.singleton_append]
      · rw [List.map_cons, chunks, List.filter_cons, if_pos (by simp [idle])]
        refine congrArg _ (List.filter_congr fun x member => ?_)
        rw [busy x member]
      · intro j member
        rcases List.mem_cons.mp member with rfl | member
        · exact ⟨rfl, Nat.le_refl _, grows⟩
        · exact later j member

theorem nodup_scanned (replicationFactor : Int) (limit : Nat) (db : Database) :
    (scanned replicationFactor limit db).Nodup := by
  have keys := db.chunks.nodup_select fun c => accounted db c &&
    db.availableReplicas c.id < replicationFactor && 0 < db.availableReplicas c.id
  have sorted : ((damaged replicationFactor db).map (·.id)).Nodup :=
    (((List.perm_insertionSort _ _).map _).nodup_iff).mpr keys
  exact sorted.sublist ((List.take_sublist _ _).map _)

end Scan

section Moves

variable {now : Time} {replicationFactor : Int} {limit k : Nat}

variable {db db' : Database} {call : Call} {id : Nat} {r : Reply}

theorem jobMove_of_eq (same : db'.repairJobs = db.repairJobs) :
    JobMove db db' call id (db.job id) (db'.job id) := by
  rw [Database.job, Database.job, same]
  exact .kept _

theorem find?_updateRepairJobs (db : Database) (p : RepairJobRow → Bool)
    (f : RepairJobRow → RepairJobRow) (keep : ∀ j, (f j).id = j.id) (id : Nat) :
    (db.updateRepairJobs p f keep).repairJobs.find? id =
      (db.repairJobs.find? id).map fun j => if p j then f j else j :=
  Table.find?_updateWhere _ _ _ keep _

/-- A statement that updates rows moves each job as the update does. -/
theorem jobMove_update {base : Database} {p : RepairJobRow → Bool}
    {f : RepairJobRow → RepairJobRow} {keep : ∀ j, (f j).id = j.id}
    (same : base.repairJobs = db.repairJobs)
    (moves : ∀ j, db.repairJobs.find? id = some j → p j = true →
      JobMove db (base.updateRepairJobs p f keep) call id (some j.job) (some (f j).job)) :
    JobMove db (base.updateRepairJobs p f keep) call id (db.job id)
      ((base.updateRepairJobs p f keep).job id) := by
  rw [Database.job, Database.job, find?_updateRepairJobs, same]
  cases found : db.repairJobs.find? id with
  | none => exact .kept none
  | some j =>
    cases chosen : p j with
    | false => simpa [chosen] using .kept _
    | true => simpa [chosen] using moves j found chosen

theorem jobMove_enqueueRepairs (numbered : Numbered db) :
    JobMove db (enqueueRepairs now replicationFactor limit db).2
      ⟨now, .enqueueRepairs replicationFactor limit⟩ id (db.job id)
      ((enqueueRepairs now replicationFactor limit db).2.job id) := by
  obtain ⟨new, rows, chunks, issued, -⟩ := rows_foldl_enqueueRepair now numbered
    (nodup_scanned replicationFactor limit db)
  have found : (enqueueRepairs now replicationFactor limit db).2.repairJobs.find? id =
      (db.repairJobs.find? id).or (new.find? fun j => j.id = id) := by
    rw [Table.find?, Table.find?, ← List.find?_append, ← rows]
    rfl
  rw [Database.job, Database.job, found]
  cases old : db.repairJobs.find? id with
  | some j => exact .kept _
  | none =>
    cases fresh : new.find? fun j => j.id = id with
    | none => exact .kept none
    | some j =>
      have member := List.mem_of_find?_eq_some fresh
      obtain rfl : j.id = id := by simpa using List.find?_some fresh
      obtain ⟨row, above, below⟩ := issued j member
      have listed : j.chunkID ∈ new.map (·.chunkID) := List.mem_map_of_mem member
      rw [chunks, List.mem_filter] at listed
      rw [Option.none_or, Option.map_some, row]
      exact .inserted j.chunkID rfl listed.1 (by simpa using listed.2) above below

theorem le_next_enqueueRepairs (numbered : Numbered db) :
    db.nextRepairJobID ≤ (enqueueRepairs now replicationFactor limit db).2.nextRepairJobID := by
  obtain ⟨-, -, -, -, grows⟩ := rows_foldl_enqueueRepair now numbered
    (nodup_scanned replicationFactor limit db)
  exact grows

/-- Rows of chunks are removed, and the foreign key takes their jobs along. -/
structure Cascade (db db' : Database) : Prop where
  chunks : ∀ c, db.chunks.find? c = none → db'.chunks.find? c = none
  jobs : ∀ id, db'.repairJobs.find? id = db.repairJobs.find? id ∨
    ∃ j, db.repairJobs.find? id = some j ∧ db'.repairJobs.find? id = none ∧
      db'.chunks.find? j.chunkID = none

theorem Cascade.trans {db'' : Database} (first : Cascade db db') (second : Cascade db' db'') :
    Cascade db db'' where
  chunks c absent := second.chunks c (first.chunks c absent)
  jobs id := by
    rcases second.jobs id with same | ⟨j, found, removed, gone⟩
    · rcases first.jobs id with same' | ⟨j, found, removed, gone⟩
      · exact Or.inl (same.trans same')
      · exact Or.inr ⟨j, found, same.trans removed, second.chunks _ gone⟩
    · rcases first.jobs id with same' | ⟨i, found', removed', -⟩
      · exact Or.inr ⟨j, same' ▸ found, removed, gone⟩
      · rw [removed'] at found
        cases found

theorem cascade_deleteChunks (db : Database) (p : ChunkRow → Bool) :
    Cascade db (db.deleteChunks p) where
  chunks c absent := by
    simp [Database.deleteChunks, Database.deleteReplicas, Database.writeReplicas, absent]
  jobs id := by
    have kept : (db.deleteChunks p).repairJobs.find? id = (db.repairJobs.find? id).filter
        fun j => !(db.chunks.find? j.chunkID).any p := Table.find?_deleteWhere _ _ _
    rw [kept]
    cases found : db.repairJobs.find? id with
    | none => exact Or.inl rfl
    | some j =>
      cases gone : (db.chunks.find? j.chunkID).any p with
      | false => exact Or.inl (by rw [Option.filter_some, if_pos (by simp [gone])])
      | true =>
        refine Or.inr ⟨j, rfl, by rw [Option.filter_some, if_neg (by simp [gone])], ?_⟩
        obtain ⟨row, present, chosen⟩ := (Option.any_eq_true _ _).mp gone
        have removed : (db.deleteChunks p).chunks.find? j.chunkID =
            (db.chunks.find? j.chunkID).filter fun c => !p c := Table.find?_deleteWhere _ _ _
        rw [removed, present, Option.filter_some, if_neg (by simp [chosen])]

theorem cascade_deleteObjects (db : Database) (p : ObjectRow → Bool) :
    Cascade db (db.deleteObjects p) where
  chunks := (cascade_deleteChunks db _).chunks
  jobs := (cascade_deleteChunks db _).jobs

theorem cascade_deleteUploads (db : Database) (p : MultipartUploadRow → Bool) :
    Cascade db (db.deleteUploads p) where
  chunks := (cascade_deleteChunks db _).chunks
  jobs := (cascade_deleteChunks db _).jobs

theorem Cascade.jobMove (cascade : Cascade db db') (op : call.op.finishes = none) :
    JobMove db db' call id (db.job id) (db'.job id) := by
  rw [Database.job, Database.job]
  rcases cascade.jobs id with same | ⟨j, found, removed, gone⟩
  · rw [same]
    exact .kept _
  · rw [found, removed]
    exact .cascaded _ op gone

/-- History is trimmed of jobs that succeeded, and of failed jobs whose chunk is gone or
whole again. -/
theorem jobMove_purgeFinishedRepairJobs {olderThan : Duration} {pick : List Nat} :
    JobMove db (purgeFinishedRepairJobs now olderThan replicationFactor limit pick db).2
      ⟨now, .purgeFinishedRepairJobs olderThan replicationFactor limit pick⟩ id (db.job id)
      ((purgeFinishedRepairJobs now olderThan replicationFactor limit pick db).2.job id) := by
  rw [Database.job, Database.job]
  simp only [purgeFinishedRepairJobs, Table.find?_deleteWhere]
  generalize expired : (List.take limit _).map RepairJobRow.id = old
  generalize healed : List.take limit _ = resolved
  cases found : db.repairJobs.find? id with
  | none => exact .kept none
  | some j =>
    obtain ⟨member, rfl⟩ := Table.mem_of_find? found
    by_cases aged : j.id ∈ old
    · have succeeded : j.state = .succeeded := by
        rw [← expired] at aged
        obtain ⟨k, taken, same⟩ := List.mem_map.mp aged
        obtain ⟨listed, chosen⟩ := List.mem_filter.mp
          ((List.mem_insertionSort _).mp (List.mem_of_mem_take taken))
        obtain rfl := Table.eq_of_key listed member same
        simp only [Bool.and_eq_true, decide_eq_true_eq] at chosen
        exact chosen.1
      rw [Option.filter_some, if_neg (by simp [aged])]
      exact .purged j.job rfl (Or.inl succeeded)
    · rw [Option.filter_some, if_pos (by simp [aged]), Option.filter_some]
      by_cases whole : j.id ∈ resolved
      · have failed : j.state = .failed ∧ ((db.chunks.find? j.chunkID).isNone ∨
            replicationFactor ≤ db.availableReplicas j.chunkID) := by
          rw [← healed] at whole
          have chosen := (List.mem_filter.mp (List.mem_of_mem_take whole)).2
          simpa [found, aged] using chosen
        rw [if_neg (by simp [whole])]
        exact .purged j.job rfl (Or.inr failed)
      · rw [if_pos (by simp [whole])]
        exact .kept _

theorem named {j : RepairJobRow} (found : db.repairJobs.find? id = some j)
    (chosen : decide (j.id = k) = true) : k = id :=
  (of_decide_eq_true chosen).symm.trans (Table.mem_of_find? found).2

/-- Only the job that the worker receives is leased, and it was PENDING. -/
theorem claimRepairJob_ok {owner : String} {lease : Duration} {target : RepairTarget}
    (h : claimRepairJob now owner lease replicationFactor db = .ok (target, db')) :
    ∃ j, db.repairJobs.find? target.jobID = some j ∧ j.state = .pending ∧
      j.chunkID = target.chunkID ∧ db'.nextRepairJobID = db.nextRepairJobID ∧
      ∀ id, db'.job id = if target.jobID = id then some { j.job with
          state := .running
          attempts := j.attempts + 1
          leaseExpiresAt := some (now + lease) }
        else db.job id := by
  simp only [claimRepairJob, bind_eq_ok, pure_eq_ok, Prod.mk.injEq] at h
  obtain ⟨j, due, _, -, rfl, rfl⟩ := h
  obtain ⟨listed, pending⟩ := List.mem_filter.mp ((List.mem_insertionSort _).mp
    (List.mem_of_mem_head? (lookup_eq_ok.mp due)))
  simp only [Bool.and_eq_true, decide_eq_true_eq] at pending
  have found : db.repairJobs.find? j.id = some j := Table.find?_of_mem listed
  refine ⟨j, found, pending.1, rfl, rfl, fun id => ?_⟩
  rw [Database.job, find?_updateRepairJobs]
  split
  next same =>
    subst same
    simp [found, RepairJobRow.job]
  next other =>
    cases present : db.repairJobs.find? id with
    | none => simp [Database.job, present]
    | some k =>
      have differs : k.id ≠ j.id := fun same =>
        other (same.symm.trans (Table.mem_of_find? present).2)
      simp [Database.job, present, differs]

theorem repairJobs_failDeletion {cause : String} {backoff : Duration} {maxAttempts : Int}
    (h : failDeletion now k cause backoff maxAttempts db = .ok db') :
    db'.repairJobs = db.repairJobs ∧ db'.nextRepairJobID = db.nextRepairJobID := by
  simp only [failDeletion] at h
  split at h
  · rw [← pure_eq_ok.mp h]
    exact ⟨rfl, rfl⟩
  · simp only [bind_eq_ok, pure_eq_ok] at h
    obtain ⟨_, -, rfl⟩ := h
    exact ⟨rfl, rfl⟩

/-- A finishing call writes the row of the job it names, if there is one, and no other. -/
theorem find?_of_finishes (h : exec call db = .ok (r, db')) (finishes : call.op.finishes = some k)
    (other : id ≠ k ∨ db.repairJobs.find? id = none) :
    db'.repairJobs.find? id = db.repairJobs.find? id := by
  have unnamed : ∀ {base : Database} {f : RepairJobRow → RepairJobRow}
      {keep : ∀ j, (f j).id = j.id}, base.repairJobs = db.repairJobs →
      (base.updateRepairJobs (fun j => j.id = k) f keep).repairJobs.find? id =
        db.repairJobs.find? id := by
    intro base f keep same
    rw [find?_updateRepairJobs, same]
    cases found : db.repairJobs.find? id with
    | none => rfl
    | some j =>
      have differs : j.id ≠ k := by
        rw [(Table.mem_of_find? found).2]
        exact other.resolve_right (by simp [found])
      simp [differs]
  obtain ⟨now, op⟩ := call
  cases op with
  | completeRepair =>
    cases finishes
    simp only [exec, answer_eq_ok, completeRepair, bind_eq_ok, pure_eq_ok, Prod.mk.injEq] at h
    obtain ⟨_, ⟨_, recorded, -, rfl⟩, -⟩ := h
    have kept : Spares True db _ := spares_upsertReplica recorded
    exact unnamed kept.2.1
  | finishRepairAsNoop =>
    cases finishes
    simp only [exec, silent_eq_ok, finishRepairAsNoop, bind_eq_ok, pure_eq_ok] at h
    obtain ⟨⟨_, -, rfl⟩, -⟩ := h
    exact unnamed rfl
  | failRepair =>
    cases finishes
    simp only [exec, answer_eq_ok, failRepair, bind_eq_ok, pure_eq_ok, Prod.mk.injEq] at h
    obtain ⟨_, ⟨_, -, _, -, _, -, -, rfl⟩, -⟩ := h
    exact unnamed rfl
  | _ => cases finishes

structure QueueStep (db db' : Database) (call : Call) : Prop where
  grows : db.nextRepairJobID ≤ db'.nextRepairJobID
  move : ∀ id, JobMove db db' call id (db.job id) (db'.job id)

theorem queueStep_of_eq (jobs : db'.repairJobs = db.repairJobs)
    (next : db'.nextRepairJobID = db.nextRepairJobID) : QueueStep db db' call where
  grows := Nat.le_of_eq next.symm
  move _ := jobMove_of_eq jobs

theorem exec_queueStep (numbered : Numbered db) (h : exec call db = .ok (r, db')) :
    QueueStep db db' call := by
  cases settles : call.op.settles with
  | true =>
    obtain ⟨now, op⟩ := call
    cases op with
    | finishDeletion =>
      obtain rfl := silenced h
      exact queueStep_of_eq rfl rfl
    | failDeletion =>
      obtain ⟨jobs, next⟩ := repairJobs_failDeletion (silent_eq_ok.mp h).1
      exact queueStep_of_eq jobs next
    | _ => cases settles
  | false =>
    cases repairs : call.op.repairs with
    | false =>
      have spares := exec_spares h settles repairs
      exact queueStep_of_eq spares.2.1 spares.2.2.1
    | true =>
      obtain ⟨now, op⟩ := call
      cases op with
      | enqueueRepairs =>
        obtain rfl := answered h
        exact ⟨le_next_enqueueRepairs numbered, fun _ => jobMove_enqueueRepairs numbered⟩
      | reclaimExpiredRepairLeases =>
        obtain rfl := answered h
        refine ⟨Nat.le_refl _, fun _ => jobMove_update rfl fun j _ expired => ?_⟩
        simp only [Bool.and_eq_true, decide_eq_true_eq] at expired
        exact .reclaimed j.job rfl expired.1 expired.2
      | claimRepairJob =>
        obtain ⟨target, h, -⟩ := answer_eq_ok.mp h
        obtain ⟨j, found, pending, -, next, jobs⟩ := claimRepairJob_ok h
        refine ⟨Nat.le_of_eq next.symm, fun id => ?_⟩
        rw [jobs id]
        split
        next same =>
          subst same
          rw [Database.job, found]
          exact .claimed j.job rfl pending
        next => exact .kept _
      | recordRepairPlan =>
        obtain rfl := silenced h
        exact ⟨Nat.le_refl _, fun _ => jobMove_update rfl fun j _ _ => .kept _⟩
      | completeRepair =>
        simp only [exec, answer_eq_ok, completeRepair, bind_eq_ok, pure_eq_ok,
          Prod.mk.injEq] at h
        obtain ⟨_, ⟨_, recorded, -, rfl⟩, -⟩ := h
        have kept : Spares True db _ := spares_upsertReplica recorded
        refine ⟨Nat.le_of_eq kept.2.2.1.symm, fun _ =>
          jobMove_update kept.2.1 fun j found chosen => ?_⟩
        exact .succeeded j.job (congrArg some (named found chosen))
      | finishRepairAsNoop =>
        simp only [exec, silent_eq_ok, finishRepairAsNoop, bind_eq_ok, pure_eq_ok] at h
        obtain ⟨⟨_, -, rfl⟩, -⟩ := h
        refine ⟨Nat.le_refl _, fun _ => jobMove_update rfl fun j found chosen => ?_⟩
        exact .succeeded j.job (congrArg some (named found chosen))
      | failRepair =>
        simp only [exec, answer_eq_ok, failRepair, bind_eq_ok, lookup_eq_ok, pure_eq_ok,
          Prod.mk.injEq] at h
        obtain ⟨_, ⟨_, -, job, present, _, -, -, rfl⟩, -⟩ := h
        refine ⟨Nat.le_refl _, fun _ => jobMove_update rfl fun j found chosen => ?_⟩
        obtain rfl := named found chosen
        obtain rfl := Option.some.inj (present.symm.trans found)
        simp only [RepairJobRow.job, decide_eq_true_eq]
        exact .failed job.job rfl
      | requeueFailedRepairs =>
        simp only [exec, answer_eq_ok, requeueFailedRepairs, bind_eq_ok, pure_eq_ok,
          Prod.mk.injEq] at h
        obtain ⟨_, ⟨_, -, -, rfl⟩, -⟩ := h
        refine ⟨Nat.le_refl _, fun _ => jobMove_update rfl fun j found chosen => ?_⟩
        refine .requeued j.job rfl ?_
        simp only [Bool.and_eq_true, decide_eq_true_eq] at chosen
        obtain ⟨k, taken, same⟩ := List.mem_map.mp chosen.1
        obtain ⟨listed, failed⟩ := List.mem_filter.mp
          ((List.mem_insertionSort _).mp (List.mem_of_mem_take taken))
        obtain rfl := Table.eq_of_key listed (Table.mem_of_find? found).1 same
        simp only [Bool.and_eq_true, decide_eq_true_eq] at failed
        exact failed.1
      | purgeFinishedRepairJobs =>
        obtain rfl := answered h
        exact ⟨Nat.le_refl _, fun _ => jobMove_purgeFinishedRepairJobs⟩
      | purgeReclaimedChunks =>
        simp only [exec, answer_eq_ok, Except.ok.injEq] at h
        obtain ⟨_, h, -⟩ := h
        obtain rfl : _ = db' := congrArg Prod.snd h
        refine ⟨Nat.le_refl _, fun _ =>
          Cascade.jobMove (.trans ?_ (cascade_deleteObjects _ _)) rfl⟩
        exact cascade_deleteChunks _ _
      | purgeCompletedMultipartUploads =>
        obtain rfl := answered h
        exact ⟨Nat.le_refl _, fun _ => Cascade.jobMove (cascade_deleteUploads _ _) rfl⟩
      | _ => cases repairs

theorem numbered_iff : Numbered db ↔ ∀ id, (db.job id).isSome → id < db.nextRepairJobID := by
  constructor
  · intro numbered id present
    obtain ⟨row, found⟩ := Option.isSome_iff_exists.mp (Option.isSome_map .. ▸ present)
    obtain ⟨member, rfl⟩ := Table.mem_of_find? found
    exact numbered row member
  · intro below j member
    refine below j.id ?_
    rw [Database.job, Table.find?_of_mem member]
    rfl

/-- Numbers stay below the sequence. -/
theorem numbered_step (numbered : Numbered db) : Numbered (step db call) := by
  refine step_cases numbered fun r db' h => ?_
  have queue := exec_queueStep numbered h
  refine numbered_iff.mpr fun id present => ?_
  have below : ∀ j, db.job id = some j → id < db'.nextRepairJobID := fun j found =>
    Nat.lt_of_lt_of_le (numbered_iff.mp numbered id (by rw [found]; rfl)) queue.grows
  have move := queue.move id
  generalize before : db.job id = job at move
  generalize after : db'.job id = job' at move present
  cases move with
  | kept =>
    obtain ⟨j, rfl⟩ := Option.isSome_iff_exists.mp present
    exact below j before
  | inserted _ _ _ _ _ issued => exact issued
  | purged | cascaded => cases present
  | _ => exact below _ before

theorem numbered_empty : Numbered Database.empty := by
  intro j member
  cases member

theorem numbered_run (calls : List Call) : Numbered (run step Database.empty calls) :=
  run_preserved (P := Numbered) (fun _ _ => numbered_step) numbered_empty calls

end Moves

section Unique

variable {db db' : Database} {call : Call} {id : Nat} {o o' : Option Job} {c : UUID}

/-- The call can make a job active that was not. -/
def Op.revives : Op → Bool
  | .enqueueRepairs .. => true
  | .failRepair .. => true
  | .requeueFailedRepairs .. => true
  | _ => false

theorem JobMove.was_active {j' : Job} (move : JobMove db db' call id o (some j'))
    (calm : call.op.revives = false) (active : j'.active) :
    ∃ j, o = some j ∧ j.active ∧ j.chunkID = j'.chunkID := by
  cases move with
  | kept => exact ⟨j', rfl, active, rfl⟩
  | inserted _ op | failed _ op | requeued _ op =>
    rw [op] at calm
    cases calm
  | reclaimed j _ running => exact ⟨j, rfl, by simp [Job.active, running], rfl⟩
  | claimed j _ pending => exact ⟨j, rfl, by simp [Job.active, pending], rfl⟩
  | succeeded => simp [Job.active] at active

theorem job_eq_some {j : Job} :
    db.job id = some j ↔ ∃ row ∈ db.repairJobs.rows, row.id = id ∧ row.job = j := by
  rw [Database.job, Option.map_eq_some_iff]
  constructor
  · rintro ⟨row, found, rfl⟩
    obtain ⟨member, rfl⟩ := Table.mem_of_find? found
    exact ⟨row, member, rfl, rfl⟩
  · rintro ⟨row, member, rfl, rfl⟩
    exact ⟨row, Table.find?_of_mem member, rfl⟩

theorem busy_iff : db.busy c ↔ ∃ id j, db.job id = some j ∧ j.active ∧ j.chunkID = c := by
  simp only [Database.busy, List.any_eq_true, Bool.and_eq_true, decide_eq_true_eq, job_eq_some]
  constructor
  · rintro ⟨row, member, rfl, active⟩
    exact ⟨row.id, row.job, ⟨row, member, rfl, rfl⟩, active, rfl⟩
  · rintro ⟨id, j, ⟨row, member, -, rfl⟩, active, rfl⟩
    exact ⟨row, member, rfl, active⟩

/-- The index as a fact about lookups. -/
theorem activeJobsUnique_iff : activeJobsUnique db.repairJobs ↔
    ∀ id id' j j', db.job id = some j → db.job id' = some j' → j.active → j'.active →
      j.chunkID = j'.chunkID → id = id' := by
  constructor
  · intro unique id id' j j' found found' active active' same
    obtain ⟨row, member, rfl, rfl⟩ := job_eq_some.mp found
    obtain ⟨row', member', rfl, rfl⟩ := job_eq_some.mp found'
    have equal := List.inj_on_of_nodup_map unique (List.mem_filter.mpr ⟨member, active⟩)
      (List.mem_filter.mpr ⟨member', active'⟩) same
    rw [equal]
  · intro unique
    have rows := (db.repairJobs.nodup_select (·.active)).of_map
    refine (List.nodup_map_iff_inj_on rows).mpr fun row listed row' listed' same => ?_
    obtain ⟨member, active⟩ := List.mem_filter.mp listed
    obtain ⟨member', active'⟩ := List.mem_filter.mp listed'
    refine Table.eq_of_key member member' (unique row.id row'.id row.job row'.job ?_ ?_
      active active' same)
    · exact job_eq_some.mpr ⟨row, member, rfl, rfl⟩
    · exact job_eq_some.mpr ⟨row', member', rfl, rfl⟩

theorem unique_enqueueRepairs {now : Time} {replicationFactor : Int} {limit : Nat}
    (numbered : Numbered db) (unique : activeJobsUnique db.repairJobs) :
    activeJobsUnique (enqueueRepairs now replicationFactor limit db).2.repairJobs := by
  obtain ⟨new, rows, chunks, pending, -⟩ := rows_foldl_enqueueRepair now numbered
    (nodup_scanned replicationFactor limit db)
  have active : new.filter (·.active) = new := by
    refine List.filter_eq_self.mpr fun j member => ?_
    rw [(pending j member).1]
    rfl
  have after : ((enqueueRepairs now replicationFactor limit db).2.repairJobs.select
      (·.active)).map (·.chunkID) = (db.repairJobs.select (·.active)).map (·.chunkID) ++
        new.map (·.chunkID) := by
    rw [← List.map_append, Table.select, Table.select, ← active, ← List.filter_append]
    exact congrArg (fun rows => (List.filter _ rows).map _) rows
  rw [activeJobsUnique, after, chunks]
  refine List.nodup_append.mpr ⟨unique, (nodup_scanned _ _ _).filter _, ?_⟩
  rintro x busy y idle rfl
  obtain ⟨row, listed, rfl⟩ := List.mem_map.mp busy
  obtain ⟨member, running⟩ := List.mem_filter.mp listed
  have taken : db.busy row.chunkID := by
    refine busy_iff.mpr ⟨row.id, row.job, ?_, running, rfl⟩
    exact job_eq_some.mpr ⟨row, member, rfl, rfl⟩
  simp [taken] at idle

/-- No chunk gets two active jobs. -/
theorem unique_step (numbered : Numbered db) (unique : activeJobsUnique db.repairJobs) :
    activeJobsUnique (step db call).repairJobs := by
  refine step_cases (R := fun db => activeJobsUnique db.repairJobs) unique fun r db' h => ?_
  cases revives : call.op.revives with
  | false =>
    have queue := exec_queueStep numbered h
    refine activeJobsUnique_iff.mpr fun id id' j j' found found' active active' same => ?_
    obtain ⟨i, before, was, chunk⟩ := (found ▸ queue.move id).was_active revives active
    obtain ⟨i', before', was', chunk'⟩ := (found' ▸ queue.move id').was_active revives active'
    exact activeJobsUnique_iff.mp unique id id' i i' before before' was was'
      (chunk.trans (same.trans chunk'.symm))
  | true =>
    obtain ⟨now, op⟩ := call
    cases op with
    | enqueueRepairs =>
      obtain rfl := answered h
      exact unique_enqueueRepairs numbered unique
    | failRepair =>
      simp only [exec, answer_eq_ok, failRepair, bind_eq_ok, require_eq_ok, pure_eq_ok,
        Prod.mk.injEq] at h
      obtain ⟨_, ⟨_, -, _, -, _, kept, -, rfl⟩, -⟩ := h
      exact kept
    | requeueFailedRepairs =>
      simp only [exec, answer_eq_ok, requeueFailedRepairs, bind_eq_ok, require_eq_ok,
        pure_eq_ok, Prod.mk.injEq] at h
      obtain ⟨_, ⟨_, kept, -, rfl⟩, -⟩ := h
      exact kept
    | _ => cases revives

end Unique

end FlexStore.Metadata
