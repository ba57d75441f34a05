import FlexStore.Metadata.Integrity
import FlexStore.Metadata.RepairQueue

/-!
# The repair scanner

A scan takes the most endangered chunks first and skips those that already have an active
job, but it skips them after it has applied its limit: chunks under repair use the limit
up. A terminal failure is kept in a job row only, and a scan looks at active jobs alone,
so it schedules a chunk again whose repair was given up. Both are stated here as exact
conditions on the database before the scan.
-/

namespace FlexStore.Metadata

open Relational Transition

/-- The repairable chunks that no active job is for. -/
def waiting (replicationFactor : Int) (db : Database) : List ChunkRow :=
  db.chunks.select fun c => accounted db c && 0 < db.availableReplicas c.id &&
    db.availableReplicas c.id < replicationFactor && !db.busy c.id

/-- One scan inserts a PENDING job for each of as many waiting chunks as the limit allows,
and prefers the chunks with the fewest replicas. -/
def Schedules (now : Time) (replicationFactor : Int) (limit : Nat) (db : Database) : Prop :=
  let scan := enqueueRepairs now replicationFactor limit db
  ∃ (new : List RepairJobRow) (chosen : List ChunkRow),
    scan.2.repairJobs.rows = db.repairJobs.rows ++ new ∧ (∀ j ∈ new, j.state = .pending) ∧
    scan.1 = new.length ∧ new.length = min limit (waiting replicationFactor db).length ∧
    new.map (·.chunkID) = chosen.map (·.id) ∧ chosen.Nodup ∧
    (∀ c ∈ chosen, c ∈ waiting replicationFactor db) ∧
    ∀ a ∈ chosen, ∀ b ∈ waiting replicationFactor db, b ∉ chosen →
      db.availableReplicas a.id ≤ db.availableReplicas b.id

section Limit

variable {replicationFactor : Int} {limit : Nat} {db : Database} {now : Time}

theorem waiting_perm (replicationFactor : Int) (db : Database) :
    (waiting replicationFactor db).Perm
      ((damaged replicationFactor db).filter fun c => !db.busy c.id) := by
  have split : waiting replicationFactor db = (db.chunks.select fun c => accounted db c &&
      db.availableReplicas c.id < replicationFactor && 0 < db.availableReplicas c.id).filter
        fun c => !db.busy c.id := by
    rw [waiting, Table.select, Table.select, List.filter_filter]
    refine List.filter_congr fun c _ => ?_
    simp only [Bool.and_assoc, Bool.and_comm, Bool.and_left_comm]
  rw [split]
  exact ((List.perm_insertionSort _ _).filter _).symm

/-- The order in which a scan takes the chunks. -/
def sooner (db : Database) (a b : ChunkRow) : Prop :=
  db.availableReplicas a.id < db.availableReplicas b.id ∨
    db.availableReplicas a.id = db.availableReplicas b.id ∧ a.id ≤ b.id

instance (db : Database) : DecidableRel (sooner db) := fun a b =>
  inferInstanceAs (Decidable (db.availableReplicas a.id < db.availableReplicas b.id ∨
    db.availableReplicas a.id = db.availableReplicas b.id ∧ a.id ≤ b.id))

theorem pairwise_damaged (replicationFactor : Int) (db : Database) :
    (damaged replicationFactor db).Pairwise (sooner db) := by
  have total : Std.Total (sooner db) := by
    refine ⟨fun a b => ?_⟩
    have := Nat.le_total a.id b.id
    grind [sooner]
  have trans : IsTrans ChunkRow (sooner db) := by
    refine ⟨fun a b c first second => ?_⟩
    have := @Nat.le_trans a.id b.id c.id
    grind [sooner]
  exact List.pairwise_insertionSort (sooner db) _

/-- A scan looks at the chunks with the fewest replicas. -/
theorem fewest_first {a b : ChunkRow} (early : a ∈ (damaged replicationFactor db).take limit)
    (late : b ∈ (damaged replicationFactor db).drop limit) :
    db.availableReplicas a.id ≤ db.availableReplicas b.id := by
  have sorted := pairwise_damaged replicationFactor db
  rw [← List.take_append_drop limit (damaged replicationFactor db)] at sorted
  have order := (List.pairwise_append.mp sorted).2.2 a early b late
  rw [sooner] at order
  omega

/-- The waiting chunks among those that a scan looks at. -/
def picked (replicationFactor : Int) (limit : Nat) (db : Database) : List ChunkRow :=
  ((damaged replicationFactor db).take limit).filter fun c => !db.busy c.id

/-- The waiting chunks that a scan does not look at. -/
def missed (replicationFactor : Int) (limit : Nat) (db : Database) : List ChunkRow :=
  ((damaged replicationFactor db).drop limit).filter fun c => !db.busy c.id

theorem waiting_perm_picked (replicationFactor : Int) (limit : Nat) (db : Database) :
    (waiting replicationFactor db).Perm
      (picked replicationFactor limit db ++ missed replicationFactor limit db) := by
  rw [picked, missed, ← List.filter_append, List.take_append_drop]
  exact waiting_perm replicationFactor db

/-- A scan inserts jobs for the picked chunks. -/
theorem rows_enqueueRepairs (now : Time) (replicationFactor : Int) (limit : Nat)
    (numbered : Numbered db) :
    ∃ new : List RepairJobRow,
      (enqueueRepairs now replicationFactor limit db).2.repairJobs.rows =
        db.repairJobs.rows ++ new ∧
      (∀ j ∈ new, j.state = .pending) ∧
      new.map (·.chunkID) = (picked replicationFactor limit db).map (·.id) := by
  obtain ⟨new, rows, chunks, pending, -⟩ := rows_foldl_enqueueRepair now numbered
    (nodup_scanned replicationFactor limit db)
  refine ⟨new, rows, fun j member => ?_, ?_⟩
  · rw [(pending j member).1]
    rfl
  · rw [chunks, picked, scanned, List.filter_map]
    rfl

theorem nodup_picked (replicationFactor : Int) (limit : Nat) (db : Database) :
    (picked replicationFactor limit db).Nodup :=
  (nodup_scanned replicationFactor limit db).of_map.filter _

/-- A scan falls short exactly when it skips a busy chunk and leaves a waiting one out. -/
theorem length_picked_eq_min_iff : (picked replicationFactor limit db).length =
      min limit (waiting replicationFactor db).length ↔
    (∀ c ∈ (damaged replicationFactor db).take limit, db.busy c.id = false) ∨
      ∀ c ∈ (damaged replicationFactor db).drop limit, db.busy c.id = true := by
  have total := (waiting_perm_picked replicationFactor limit db).length_eq
  rw [List.length_append] at total
  have bound : (picked replicationFactor limit db).length ≤ limit :=
    (List.length_filter_le _ _).trans (List.length_take_le _ _)
  have all : (∀ c ∈ (damaged replicationFactor db).take limit, db.busy c.id = false) ↔
      (picked replicationFactor limit db).length =
        min limit (damaged replicationFactor db).length := by
    rw [← List.length_take, picked, List.length_filter_eq_length_iff]
    simp
  have none : (∀ c ∈ (damaged replicationFactor db).drop limit, db.busy c.id = true) ↔
      (missed replicationFactor limit db).length = 0 := by
    rw [missed, List.length_eq_zero_iff, List.filter_eq_nil_iff]
    simp
  have rest : (missed replicationFactor limit db).length ≤
      (damaged replicationFactor db).length - limit :=
    (List.length_filter_le _ _).trans (Nat.le_of_eq List.length_drop)
  rw [all, none]
  omega

end Limit

/-- In every reachable state, a scan schedules as many waiting chunks as its limit allows,
fewest replicas first, if and only if none of the chunks it looks at is busy or none of
the chunks it does not look at is waiting. -/
theorem scan_schedules_iff (calls : List Call) (now : Time) (replicationFactor : Int)
    (limit : Nat) :
    Schedules now replicationFactor limit (run step Database.empty calls) ↔
      (∀ c ∈ (damaged replicationFactor (run step Database.empty calls)).take limit,
        (run step Database.empty calls).busy c.id = false) ∨
      ∀ c ∈ (damaged replicationFactor (run step Database.empty calls)).drop limit,
        (run step Database.empty calls).busy c.id = true := by
  have numbered := numbered_run calls
  generalize run step Database.empty calls = db at numbered ⊢
  rw [← length_picked_eq_min_iff]
  obtain ⟨new, rows, pending, chunks⟩ :=
    rows_enqueueRepairs now replicationFactor limit numbered
  have count : new.length = (picked replicationFactor limit db).length := by
    simpa using congrArg List.length chunks
  have split := waiting_perm_picked replicationFactor limit db
  constructor
  · rintro ⟨new', _, rows', -, -, enough, -⟩
    obtain rfl : new = new' := List.append_cancel_left (rows.symm.trans rows')
    rw [← count, enough]
  · intro enough
    refine ⟨new, picked replicationFactor limit db, rows, pending, ?_, count.trans enough, chunks,
      nodup_picked _ _ _, fun c member => split.mem_iff.mpr (List.mem_append_left _ member), ?_⟩
    · rw [enqueueRepairs]
      change (enqueueRepairs now replicationFactor limit db).2.repairJobs.rows.length - _ = _
      rw [rows, List.length_append, Nat.add_sub_cancel_left]
    · intro a chosen b member unchosen
      have late := (List.mem_append.mp (split.mem_iff.mp member)).resolve_left unchosen
      exact fewest_first (List.mem_filter.mp chosen).1 (List.mem_filter.mp late).1


/-- Two chunks with one copy each, and a scan that may look at one of them. -/
def oneOfTwo : List Call :=
  [⟨0, .upsertNode "n1" "n1:9000" .healthy {} 0⟩, ⟨1, .beginUpload 1 "b" "k" "" 8⟩,
    ⟨2, .reserveChunk 10 ⟨some 1, none⟩ 0 8⟩, ⟨2, .reserveChunk 11 ⟨some 1, none⟩ 1 8⟩,
    ⟨3, .commitChunk 10 5 8 ["n1"] [] 1⟩, ⟨3, .commitChunk 11 6 8 ["n1"] [] 1⟩,
    ⟨4, .completeUpload 1 16 2 "e"⟩, ⟨5, .enqueueRepairs 2 1⟩]

/-- The next scan finds the first chunk again and has no room for the second. -/
theorem busy_chunk_uses_limit_up :
    (waiting 2 (run step Database.empty oneOfTwo)).map (·.id) = [11] ∧
      (enqueueRepairs 6 2 1 (run step Database.empty oneOfTwo)).1 = 0 ∧
      ¬Schedules 6 2 1 (run step Database.empty oneOfTwo) := by
  refine ⟨by decide, by decide, ?_⟩
  rintro ⟨new, _, -, -, count, enough, -⟩
  rw [enough] at count
  revert count
  decide

section Terminal

/-- A FAILED job for the chunk exists. -/
def Database.givenUp (db : Database) (c : UUID) : Bool :=
  db.repairJobs.rows.any fun j => j.chunkID = c && j.state = .failed

/-- The scanner works with one replication factor and schedules no chunk whose repair was
given up, and only RUNNING jobs are finished. -/
def Op.respects (replicationFactor : Int) (db : Database) : Op → Bool
  | .enqueueRepairs rf limit => rf = replicationFactor &&
      (scanned rf limit db).all fun c => !db.givenUp c
  | .purgeFinishedRepairJobs _ rf _ _ => rf = replicationFactor
  | .completeRepair jobID _ _ => (db.job jobID).any (·.state = .running)
  | .finishRepairAsNoop jobID _ => (db.job jobID).any (·.state = .running)
  | .failRepair jobID _ _ _ => (db.job jobID).any (·.state = .running)
  | _ => true

def Op.requeues : Op → Bool
  | .requeueFailedRepairs _ => true
  | _ => false

/-- The chunk has no active job, and a scan has no reason to give it one: its repair was
given up, or it is not short of replicas, or none is left. -/
def Barred (replicationFactor : Int) (c : UUID) (db : Database) : Prop :=
  db.busy c = false ∧ (db.givenUp c ∨ replicationFactor ≤ db.availableReplicas c ∨
    db.availableReplicas c ≤ 0)

variable {replicationFactor : Int} {db db' : Database} {call : Call} {r : Reply} {c : UUID}
  {id : Nat}

theorem givenUp_iff :
    db.givenUp c ↔ ∃ id j, db.job id = some j ∧ j.state = .failed ∧ j.chunkID = c := by
  simp only [Database.givenUp, List.any_eq_true, Bool.and_eq_true, decide_eq_true_eq, job_eq_some]
  constructor
  · rintro ⟨row, member, rfl, failed⟩
    exact ⟨row.id, row.job, ⟨row, member, rfl, rfl⟩, failed, rfl⟩
  · rintro ⟨id, j, ⟨row, member, -, rfl⟩, failed, rfl⟩
    exact ⟨row, member, rfl, failed⟩

theorem running_of_respects (respects : call.op.respects replicationFactor db)
    (finishes : call.op.finishes = some id) : (db.job id).any (·.state = .running) := by
  obtain ⟨now, op⟩ := call
  cases op with
  | completeRepair | finishRepairAsNoop | failRepair =>
    cases finishes
    exact respects
  | _ => cases finishes

theorem mem_scanned {limit : Nat} (listed : c ∈ scanned replicationFactor limit db) :
    0 < db.availableReplicas c ∧ db.availableReplicas c < replicationFactor := by
  obtain ⟨row, taken, rfl⟩ := List.mem_map.mp listed
  have selected := (List.mem_filter.mp
    ((List.mem_insertionSort _).mp (List.mem_of_mem_take taken))).2
  simp only [Bool.and_eq_true, decide_eq_true_eq] at selected
  exact ⟨selected.2, selected.1.2⟩

theorem rooted_of_consistent (consistent : db.view.Consistent) : db.rooted := by
  intro c absent
  refine List.countP_eq_zero.mpr fun row member counted => ?_
  simp only [Bool.and_eq_true, decide_eq_true_eq] at counted
  obtain ⟨rfl, -⟩ := counted
  have held : db.replicaState row.chunkID row.nodeID = some row.state :=
    replicaState_eq_some.mpr ⟨row, member, rfl, rfl, rfl⟩
  have present := consistent.copy (c := row.chunkID) (n := row.nodeID)
    (by simp [Database.view, held])
  simp [View.referenced, Database.view, absent] at present

theorem countAvailable_eq_of_rows
    (same : ∀ n, db'.replicas.find? (c, n) = db.replicas.find? (c, n)) :
    db'.countAvailable c = db.countAvailable c := by
  have bound : ∀ {t u : Table ReplicaRow.key}, (∀ n, t.find? (c, n) = u.find? (c, n)) →
      Database.availableIn t c ≤ Database.availableIn u c := by
    intro t u same
    refine Table.count_le_count fun k row found counted => ?_
    have chunk : row.chunkID = c := by simp_all
    obtain ⟨-, rfl⟩ := Table.mem_of_find? found
    subst chunk
    exact ⟨row, (same row.nodeID).symm.trans found, counted⟩
  exact Nat.le_antisymm (bound same) (bound fun n => (same n).symm)

/-- One call other than a requeue gives a barred chunk no active job, if it respects the
bar. -/
theorem idle_of_exec (numbered : Numbered db) (respects : call.op.respects replicationFactor db)
    (calm : call.op.requeues = false) (h : exec call db = .ok (r, db'))
    (barred : Barred replicationFactor c db) : db'.busy c = false := by
  obtain ⟨idle, reason⟩ := barred
  have quiet : ∀ id j, db.job id = some j → j.active → j.chunkID ≠ c := by
    intro id j found active chunk
    rw [busy_iff.mpr ⟨id, j, found, active, chunk⟩] at idle
    cases idle
  rw [Bool.eq_false_iff]
  intro busy
  obtain ⟨id, j, after, active, chunk⟩ := busy_iff.mp busy
  have move := (exec_queueStep numbered h).move id
  rw [after] at move
  generalize before : db.job id = job at move
  cases move with
  | kept => exact quiet id j before active chunk
  | inserted c' op selected =>
    obtain rfl : c' = c := chunk
    have range := mem_scanned selected
    simp only [Op.respects, op, Bool.and_eq_true, decide_eq_true_eq, List.all_eq_true,
      Bool.not_eq_true'] at respects
    obtain ⟨rfl, spared⟩ := respects
    rcases reason with failed | enough | none
    · rw [spared c' selected] at failed
      cases failed
    · omega
    · omega
  | reclaimed j _ running => exact quiet id j before (by simp [Job.active, running]) chunk
  | claimed j _ pending => exact quiet id j before (by simp [Job.active, pending]) chunk
  | succeeded => simp [Job.active] at active
  | failed j op =>
    have was := running_of_respects respects (by rw [op]; rfl : call.op.finishes = some id)
    rw [before] at was
    exact quiet id j before (by simpa [Job.active] using Or.inr was) chunk
  | requeued _ op =>
    rw [op] at calm
    cases calm

/-- A FAILED job stays, unless its chunk is gone or has replicas enough. -/
theorem givenUp_of_exec (numbered : Numbered db)
    (respects : call.op.respects replicationFactor db) (calm : call.op.requeues = false)
    (h : exec call db = .ok (r, db'))
    (removed : db.chunks.find? c = none ∨ db'.chunks.find? c = none →
      db.availableReplicas c = 0) (failed : db.givenUp c = true) :
    db'.givenUp c = true ∨ replicationFactor ≤ db.availableReplicas c ∨
      db.availableReplicas c ≤ 0 := by
  obtain ⟨id, j, before, state, chunk⟩ := givenUp_iff.mp failed
  have running (finishes : call.op.finishes = some id) : j.state = .running := by
    simpa [before] using running_of_respects respects finishes
  have settled : db.availableReplicas c = 0 → db'.givenUp c = true ∨
      replicationFactor ≤ db.availableReplicas c ∨ db.availableReplicas c ≤ 0 :=
    fun zero => Or.inr (Or.inr (Int.le_of_eq zero))
  have move := (exec_queueStep numbered h).move id
  rw [before] at move
  generalize after : db'.job id = job' at move
  cases move with
  | kept => exact Or.inl (givenUp_iff.mpr ⟨id, j, after, state, chunk⟩)
  | reclaimed _ _ active => simp [active] at state
  | claimed _ _ pending => simp [pending] at state
  | succeeded _ op => simp [running op] at state
  | failed _ op => simp [running (by rw [op]; rfl)] at state
  | requeued _ op =>
    rw [op] at calm
    cases calm
  | purged _ op finished =>
    simp only [Op.respects, op, decide_eq_true_eq] at respects
    subst respects chunk
    rcases finished with succeeded | ⟨-, gone | whole⟩
    · simp [succeeded] at state
    · exact settled (removed (Or.inl (Option.isNone_iff_eq_none.mp gone)))
    · exact Or.inr (Or.inl whole)
  | cascaded _ _ gone => exact settled (removed (Or.inr (chunk ▸ gone)))

/-- One call other than a requeue keeps the bar, if it respects it and leaves the replica
rows of the chunk alone. -/
theorem barred_of_exec (numbered : Numbered db) (respects : call.op.respects replicationFactor db)
    (calm : call.op.requeues = false) (h : exec call db = .ok (r, db'))
    (counter : db'.availableReplicas c = db.availableReplicas c)
    (removed : db.chunks.find? c = none ∨ db'.chunks.find? c = none →
      db.availableReplicas c = 0)
    (barred : Barred replicationFactor c db) : Barred replicationFactor c db' := by
  refine ⟨idle_of_exec numbered respects calm h barred, ?_⟩
  rw [counter]
  rcases barred.2 with failed | range
  · exact givenUp_of_exec numbered respects calm h removed failed
  · exact Or.inr range

/-- A terminal failure of a RUNNING job leaves the chunk without an active job. -/
theorem barred_of_failed (replicationFactor : Int) {now : Time} {cause : String}
    {backoff : Duration} {maxAttempts : Int} {j : Job} (numbered : Numbered db)
    (unique : activeJobsUnique db.repairJobs)
    (found : db.job id = some j) (running : j.state = .running)
    (h : exec ⟨now, .failRepair id cause backoff maxAttempts⟩ db = .ok (.flag true, db')) :
    Barred replicationFactor j.chunkID db' := by
  have queue := exec_queueStep numbered h
  have terminal : db'.job id = some { j with state := .failed, leaseExpiresAt := none } := by
    simp only [exec, answer_eq_ok, failRepair, bind_eq_ok, lookup_eq_ok, pure_eq_ok,
      Prod.mk.injEq] at h
    obtain ⟨_, ⟨_, -, row, present, _, -, rfl, rfl⟩, flag⟩ := h
    simp only [Reply.flag.injEq] at flag
    have was : row.job = j := by simpa [Database.job, present] using found
    have named : row.id = id := (Table.mem_of_find? present).2
    rw [Database.job, find?_updateRepairJobs, present]
    simp [named, flag, RepairJobRow.job, ← was]
  refine ⟨?_, Or.inl (givenUp_iff.mpr ⟨id, _, terminal, rfl, rfl⟩)⟩
  rw [Bool.eq_false_iff]
  intro busy
  obtain ⟨id', j', after, active, chunk⟩ := busy_iff.mp busy
  have other : id' ≠ id := by
    rintro rfl
    rw [terminal] at after
    obtain rfl := Option.some.inj after
    simp [Job.active] at active
  have before : db.job id' = some j' := by
    have move := queue.move id'
    rw [after] at move
    generalize db.job id' = job at move
    cases move with
    | kept => rfl
    | succeeded _ op => exact absurd (Option.some.inj op).symm other
    | failed _ op => exact absurd (Op.failRepair.inj op).1.symm other
    | inserted _ op | reclaimed _ op | claimed _ op | requeued _ op => cases op
  exact other (activeJobsUnique_iff.mp unique id' id j' j before found active
    (by simp [Job.active, running]) chunk)

end Terminal

theorem unique_run (calls : List Call) :
    activeJobsUnique (run step Database.empty calls).repairJobs := by
  have both : Numbered (run step Database.empty calls) ∧
      activeJobsUnique (run step Database.empty calls).repairJobs := by
    refine run_preserved (P := fun db => Numbered db ∧ activeJobsUnique db.repairJobs) ?_
      ⟨numbered_empty, List.nodup_nil⟩ calls
    rintro db call ⟨numbered, unique⟩
    exact ⟨numbered_step numbered, unique_step numbered unique⟩
  exact both.2

theorem counted_step {db : Database} {call : Call} (consistent : db.view.Consistent)
    (counted : Counted db) : Counted (step db call) :=
  step_cases counted fun _ _ h => exec_counted h (rooted_of_consistent consistent) counted

/-- Every counter is exact in every state of every run, transaction by transaction. -/
theorem counted_run (calls : List Call) : Counted (run step Database.empty calls) := by
  have both : (run step Database.empty calls).view.Consistent ∧
      Counted (run step Database.empty calls) := by
    refine run_preserved (P := fun db => db.view.Consistent ∧ Counted db) ?_
      ⟨consistent_empty, fun _ => rfl⟩ calls
    rintro db call ⟨consistent, counted⟩
    exact ⟨consistent_step consistent, counted_step consistent counted⟩
  exact both.2

/-- What a terminal failure leaves behind. -/
structure Unscheduled (replicationFactor : Int) (c : UUID) (db : Database) : Prop where
  numbered : Numbered db
  consistent : db.view.Consistent
  counted : Counted db
  barred : Barred replicationFactor c db

theorem Unscheduled.step {replicationFactor : Int} {c : UUID} {db : Database} {call : Call}
    (quiet : Unscheduled replicationFactor c db)
    (respects : call.op.respects replicationFactor db) (calm : call.op.requeues = false)
    (rows : ∀ n, (Metadata.step db call).replicas.find? (c, n) = db.replicas.find? (c, n)) :
    Unscheduled replicationFactor c (Metadata.step db call) := by
  have consistent : (Metadata.step db call).view.Consistent := consistent_step quiet.consistent
  have counted : Counted (Metadata.step db call) := counted_step quiet.consistent quiet.counted
  refine ⟨numbered_step quiet.numbered, consistent, counted, ?_⟩
  have counter : (Metadata.step db call).availableReplicas c = db.availableReplicas c := by
    rw [counted, quiet.counted, countAvailable_eq_of_rows rows]
  have removed : db.chunks.find? c = none ∨ (Metadata.step db call).chunks.find? c = none →
      db.availableReplicas c = 0 := by
    rintro (absent | absent)
    · rw [quiet.counted, rooted_of_consistent quiet.consistent c absent]
      rfl
    · rw [← counter, counted, rooted_of_consistent consistent c absent]
      rfl
  cases h : exec call db with
  | error e =>
    rw [Metadata.step, h]
    exact quiet.barred
  | ok x =>
    rw [step_of_ok h] at counter removed ⊢
    exact barred_of_exec quiet.numbered respects calm h counter removed quiet.barred

/-- Once a worker's failure has been terminal, no job for the chunk is handed out, whatever
the store is asked to do, until failed jobs are requeued or a replica row of the chunk
changes: provided that no scan schedules a chunk with a FAILED job and that only RUNNING
jobs are finished. -/
theorem failed_repair_stays_terminal {replicationFactor : Int} {past future : List Call}
    {now : Time} {id : Nat} {cause : String} {backoff : Duration} {maxAttempts : Int} {c : UUID}
    {start : Database}
    (guarded : Guarded step (fun db call => call.op.respects replicationFactor db)
      Database.empty (past ++ ⟨now, .failRepair id cause backoff maxAttempts⟩ :: future))
    (job : ((run step Database.empty past).job id).map (·.chunkID) = some c)
    (terminal : exec ⟨now, .failRepair id cause backoff maxAttempts⟩
      (run step Database.empty past) = .ok (.flag true, start))
    (calm : ∀ call ∈ future, call.op.requeues = false)
    (unchanged : Always step (fun db => ∀ n, db.replicas.find? (c, n) =
      start.replicas.find? (c, n)) start future)
    {later : Time} {owner : String} {lease : Duration} {factor : Int} {target : RepairTarget}
    {final : Database}
    (claimed : claimRepairJob later owner lease factor (run step start future) =
      .ok (target, final)) : target.chunkID ≠ c := by
  obtain ⟨-, respected, guarded⟩ := guarded_append.mp guarded
  rw [step_of_ok terminal] at guarded
  obtain ⟨j, found, rfl⟩ := Option.map_eq_some_iff.mp job
  have running : j.state = .running := by simpa [Op.respects, found] using respected
  have reached : start = run step Database.empty
      (past ++ [⟨now, .failRepair id cause backoff maxAttempts⟩]) := by
    rw [run_append, run_cons, run_nil, step_of_ok terminal]
  have quiet : Unscheduled replicationFactor j.chunkID (run step start future) := by
    refine run_invariant ?_ ⟨?_, ?_, ?_, ?_⟩ ((guarded.and_forall calm).and unchanged.guarded)
    · rintro db call quiet ⟨⟨respects, calm⟩, before, after⟩
      exact quiet.step respects calm fun n => (after n).trans (before n).symm
    · exact reached ▸ numbered_run _
    · exact reached ▸ consistent_run consistent_empty _
    · exact reached ▸ counted_run _
    · exact barred_of_failed _ (numbered_run past) (unique_run past) found running terminal
  obtain ⟨row, present, pending, chunk, -⟩ := claimRepairJob_ok claimed
  intro same
  have busy : (run step start future).busy j.chunkID := by
    refine busy_iff.mpr ⟨target.jobID, row.job, ?_, ?_, chunk.trans same⟩
    · rw [Database.job, present]
      rfl
    · simp [RepairJobRow.active, pending]
  rw [quiet.barred.1] at busy
  cases busy

/-- Two chunks with one copy each, and a worker on each. -/
def twoWorkers : List Call :=
  [⟨0, .upsertNode "n1" "n1:9000" .healthy {} 0⟩, ⟨1, .beginUpload 1 "b" "k" "" 8⟩,
    ⟨2, .reserveChunk 10 ⟨some 1, none⟩ 0 8⟩, ⟨2, .reserveChunk 11 ⟨some 1, none⟩ 1 8⟩,
    ⟨3, .commitChunk 10 5 8 ["n1"] [] 1⟩, ⟨3, .commitChunk 11 6 8 ["n1"] [] 1⟩,
    ⟨4, .completeUpload 1 16 2 "e"⟩, ⟨5, .enqueueRepairs 2 10⟩,
    ⟨6, .claimRepairJob "w1" 60 2⟩, ⟨6, .claimRepairJob "w2" 60 2⟩]

def givesUp : Call := ⟨7, .failRepair 1 "no room" 0 1⟩

theorem exec_givesUp : ∃ start, exec givesUp (run step Database.empty twoWorkers) =
    .ok (.flag true, start) := by
  have flag : (failRepair 7 1 "no room" 0 1 (run step Database.empty twoWorkers)).toOption.map
      (·.1) = some true := by decide +kernel
  obtain ⟨⟨_, start⟩, failed, rfl⟩ := Option.map_eq_some_iff.mp flag
  exact ⟨start, answer_eq_ok.mpr ⟨true, toOption_eq_some.mp failed, rfl⟩⟩

/-- The lease of the second worker lapses, and its job is the next one. -/
theorem failed_repair_stays_terminal_secondChunk :
    ∃ target final, claimRepairJob 101 "w3" 60 2 (run step Database.empty
      (twoWorkers ++ [givesUp, ⟨100, .reclaimExpiredRepairLeases⟩])) = .ok (target, final) ∧
      target.chunkID ≠ 10 := by
  obtain ⟨start, terminal⟩ := exec_givesUp
  have handed : (claimRepairJob 101 "w3" 60 2 (run step Database.empty
      (twoWorkers ++ [givesUp, ⟨100, .reclaimExpiredRepairLeases⟩]))).toOption.isSome := by
    decide +kernel
  obtain ⟨⟨target, final⟩, claimed⟩ := Option.isSome_iff_exists.mp handed
  rw [toOption_eq_some] at claimed
  refine ⟨target, final, claimed, ?_⟩
  rw [run_append, run_cons, step_of_ok terminal] at claimed
  have guarded : Guarded step (fun db call => call.op.respects 2 db) Database.empty
      (twoWorkers ++ [givesUp, ⟨100, .reclaimExpiredRepairLeases⟩]) := by decide +kernel
  refine failed_repair_stays_terminal guarded ?_ terminal ?_ ?_ claimed
  · decide +kernel
  · simp [Op.requeues]
  · exact ⟨fun _ => rfl, fun _ => rfl⟩

/-- The next scan schedules the chunk again although nothing about it has changed. -/
theorem scan_revives_given_up_chunk :
    ∃ start, exec givesUp (run step Database.empty twoWorkers) = .ok (.flag true, start) ∧
      ((run step Database.empty twoWorkers).job 1).map (·.chunkID) = some 10 ∧
      Always step (fun db => ∀ n, db.replicas.find? (10, n) = start.replicas.find? (10, n))
        start [⟨8, .enqueueRepairs 2 10⟩] ∧
      ∃ target final, claimRepairJob 9 "w3" 60 2 (run step start [⟨8, .enqueueRepairs 2 10⟩]) =
        .ok (target, final) ∧ target.chunkID = 10 := by
  obtain ⟨start, terminal⟩ := exec_givesUp
  have handed : (claimRepairJob 9 "w3" 60 2 (run step Database.empty
      (twoWorkers ++ [givesUp, ⟨8, .enqueueRepairs 2 10⟩]))).toOption.map (·.1.chunkID) =
        some 10 := by decide +kernel
  rw [run_append, run_cons, step_of_ok terminal] at handed
  obtain ⟨⟨target, final⟩, claimed, chunk⟩ := Option.map_eq_some_iff.mp handed
  refine ⟨start, terminal, by decide +kernel, ⟨fun _ => rfl, fun _ => ?_⟩, target, final,
    toOption_eq_some.mp claimed, chunk⟩
  obtain ⟨jobs, next, scan⟩ := foldl_enqueueRepair_eq 8 (scanned 2 10 start) start
  change ((scanned 2 10 start).foldl (enqueueRepair 8) start).replicas.find? _ = _
  rw [scan]

end FlexStore.Metadata
