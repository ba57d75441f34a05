import FlexStore.Metadata.Integrity
import FlexStore.Metadata.Owners
import FlexStore.Metadata.Queue

/-!
# The collector and the chunk files

The metadata and the chunk files on the nodes, with the collector that connects them: it
leases a batch of deletion jobs and works through it, for each job removing the file on
its node and then finishing the job in the store. Everything else happens in between:
the transactions of gateways, repair and reconciliation in any order, and nodes storing
files. There is one collector, and a request to a node takes effect, if at all, before
the collector goes on to the next step.

An AVAILABLE copy must not be queued for removal, or the collector takes its file away.
The store does not ensure it: a report that a copy is there makes it AVAILABLE without
looking at the queue.
-/

namespace FlexStore.Coordinator

open Relational Transition FlexStore.Metadata FlexStore.Metadata.View

structure GcConfig where
  interval : Duration
  batch : Nat

/-- The bound on the attempts at one deletion job. -/
def deletionMaxAttempts : Int := 8

/-- The metadata, which node holds a file of which chunk, the jobs that are left of the
leased batch, and whether the first of them has had its file removed. -/
structure Cluster where
  db : Database
  files : UUID → NodeID → Bool
  jobs : List PendingDeletion
  deleted : Bool

def Cluster.empty : Cluster := ⟨Database.empty, fun _ _ => false, [], false⟩

inductive Event where
  | call (call : Call)
  | write (chunkID : UUID) (nodeID : NodeID)
  | claimDeletions (now : Time)
  | deleteChunk
  | finishDeletion (now : Time)
  | failDeletion (now : Time) (cause : String)
  | restart

/-- The calls that only the collector makes. -/
def collects : Op → Bool
  | .claimDeletions .. => true
  | op => op.settles

/-- The collector has dealt with its first job. -/
def Cluster.next (s : Cluster) (db : Database) : Cluster :=
  { s with db, jobs := s.jobs.tail, deleted := false }

/-- The file of a chunk on a node is written or removed. -/
def Cluster.setFile (s : Cluster) (c : UUID) (n : NodeID) (there : Bool) : Cluster :=
  { s with files := fun c' n' => if c' = c ∧ n' = n then there else s.files c' n' }

/-- One step. `deleteOne` is `deleteChunk` followed by the collector's reaction: a job
whose node is gone has no address and is finished without a request, a request that has
taken effect is finished or, when its answer is lost, counted as failed. -/
def act (cfg : GcConfig) (s : Cluster) : Event → Cluster
  | .call call => if collects call.op then s else { s with db := step s.db call }
  | .write c n => s.setFile c n true
  | .claimDeletions now =>
    if s.jobs = [] then
      let (jobs, db) := claimDeletions now cfg.batch (2 * cfg.interval) s.db
      { s with db, jobs, deleted := false }
    else s
  | .deleteChunk =>
    match s.jobs with
    | [] => s
    | job :: _ =>
      if job.address = "" then s
      else { s.setFile job.chunkID job.nodeID false with deleted := true }
  | .finishDeletion now =>
    match s.jobs with
    | [] => s
    | job :: _ =>
      if job.address = "" ∨ s.deleted then
        s.next (step s.db ⟨now, .finishDeletion job.id job.chunkID job.nodeID⟩)
      else s
  | .failDeletion now cause =>
    match s.jobs with
    | [] => s
    | job :: _ =>
      if job.address = "" then s
      else
        match exec ⟨now, .failDeletion job.id cause (job.attempts * cfg.interval)
          deletionMaxAttempts⟩ s.db with
        | .ok (_, db) => s.next db
        | .error _ => { s with jobs := [], deleted := false }
  | .restart => { s with jobs := [], deleted := false }

/-- The node is recorded to serve the chunk: the replica row is AVAILABLE, the chunk is
COMMITTED and its owner is live. -/
def serves (db : Database) (c : UUID) (n : NodeID) : Bool :=
  db.replicaState c n = some .available &&
    (db.chunks.find? c).any fun row => row.state = .committed && db.liveOwner row.owner

/-- No copy that is served is queued for removal. -/
def Separated (db : Database) : Prop :=
  ∀ r ∈ db.replicas.rows, serves db r.chunkID r.nodeID → ¬db.queued r.chunkID r.nodeID

instance (db : Database) : Decidable (Separated db) :=
  inferInstanceAs (Decidable (∀ r ∈ db.replicas.rows, _ → _))

/-- No copy that is served is queued for removal, and no file behind one is removed next. -/
def Safe (cfg : GcConfig) (s : Cluster) : Prop :=
  Separated s.db ∧ ∀ e c n, s.files c n = true → (act cfg s e).files c n = false →
    ¬serves s.db c n

/-- The call reports a copy of a chunk with a live owner as AVAILABLE while its removal is
queued. -/
def revives (db : Database) : Op → Bool
  | .commitChunk c _ _ succeeded _ _ => db.liveChunk c && succeeded.any (db.queued c)
  | .completeRepair _ c n => db.liveChunk c && db.queued c n
  | .promoteVerifiedReplica c n =>
    db.liveChunk c && db.queued c n && db.replicaState c n = some .stale
  | _ => false

/-- The event is not a call that revives a copy. -/
def permitted (s : Cluster) : Event → Bool
  | .call call => !revives s.db call.op
  | _ => true

section Step

variable {db db' : Database} {op : Op} {r : Reply} {c : UUID} {n : NodeID}

/-- A chunk with a live owner is new or had a live owner before. -/
theorem was_live (change : Change db db' op r) (consistent : db.view.Consistent)
    (live : db'.liveChunk c) : db.view.chunks c = none ∨ db.liveChunk c := by
  obtain ⟨row, found, alive⟩ := liveChunk_iff.mp live
  have move := change.chunk_move c
  have moves := change.status_moves consistent row.owner
  rw [found] at move
  generalize before : db.view.chunks c = x at move
  -- Only the dead have dead or no owners afterwards.
  have kept : ∀ old, db.view.chunks c = some old → old.owner = row.owner → db.liveChunk c := by
    intro old lookup same
    refine liveChunk_iff.mpr ⟨old, lookup, ?_⟩
    have present := consistent.chunk_owner lookup
    rw [same] at present ⊢
    generalize db.view.status row.owner = s at moves present
    generalize db'.view.status row.owner = s' at moves alive
    cases s <;> rcases alive with rfl | rfl <;> simp_all [OwnerStatus.Moves]
  cases move with
  | same | reset | committed => exact Or.inr (kept _ before rfl)
  | reserved => exact Or.inl rfl
  | orphaned dead => simp [dead] at alive
  | assembled _ _ _ _ _ _ sealed =>
    exact Or.inr (liveChunk_iff.mpr ⟨_, before, Or.inr sealed⟩)

/-- AVAILABLE copies of chunks with a live owner are not queued for removal. -/
def Apart (db : Database) : Prop :=
  ∀ c n, db.liveChunk c → db.replicaState c n = some .available → db.queued c n = false

/-- A copy that has just been reported is not queued, unless the call revives it. -/
theorem not_queued_of_reports (calm : revives db op = false) (live : db.liveChunk c)
    (reported : op.reports db c n) : db.queued c n = false := by
  cases op <;> simp_all [Op.reports, revives]

theorem apart_of_change (change : Change db db' op r) (consistent : db.view.Consistent)
    (calm : revives db op = false) (holds : Apart db) : Apart db' := by
  intro c n live after
  have before : db.liveChunk c := by
    refine (was_live change consistent live).resolve_left fun fresh => ?_
    have known := change.copy_present consistent (Option.isSome_of_eq_some after)
    simp [fresh] at known
  have idle : db.queued c n = false := by
    rcases change.available consistent after with available | reported
    · exact holds c n before available
    · exact not_queued_of_reports calm before reported
  have move := change.slot_move consistent c n
  change (db.view.slots c n).queued = false at idle
  change (db'.view.slots c n).queued = false
  change (db'.view.slots c n).replica = some .available at after
  generalize db'.view.slots c n = s' at move after ⊢
  cases move with
  | condemned => exact absurd after (Slot.condemn_available _)
  | trimmed | orphanQueued => cases after
  | corrupted =>
    obtain ⟨old, -, state⟩ := Option.map_eq_some_iff.mp after
    split at state <;> simp_all
  | finished => simp [idle]
  | abandoned => rfl
  | _ => exact idle

end Step

/-- The invariant of the cluster: the copies that are served are apart from the queue, and
the jobs of the batch are still in the queue under their own numbers. -/
structure Sound (s : Cluster) : Prop where
  consistent : s.db.view.Consistent
  apart : Apart s.db
  assigned : ∀ job ∈ s.jobs, jobPair s.db job.id = some (job.chunkID, job.nodeID)
  distinct : (s.jobs.map (·.id)).Nodup

section Run

variable {cfg : GcConfig} {s : Cluster} {db' : Database}

/-- The jobs of the batch are in the queue under their own numbers. -/
structure Leased (s : Cluster) : Prop where
  assigned : ∀ job ∈ s.jobs, jobPair s.db job.id = some (job.chunkID, job.nodeID)
  distinct : (s.jobs.map (·.id)).Nodup

theorem Leased.forget (db : Database) (files : UUID → NodeID → Bool) :
    Leased ⟨db, files, [], false⟩ :=
  ⟨by simp, by simp⟩

/-- When the first job is settled, the others are still in the queue. -/
theorem Leased.settled {job : PendingDeletion} {rest : List PendingDeletion} (leased : Leased s)
    (jobs : s.jobs = job :: rest)
    (others : ∀ k pair, k ≠ job.id → jobPair s.db k = some pair → jobPair db' k = some pair) :
    Leased (s.next db') := by
  have distinct := leased.distinct
  have assigned := leased.assigned
  rw [jobs, List.map_cons, List.nodup_cons] at distinct
  rw [jobs] at assigned
  rw [Cluster.next, jobs, List.tail_cons]
  refine ⟨fun other listed => ?_, distinct.2⟩
  refine others _ _ ?_ (assigned other (List.mem_cons_of_mem _ listed))
  rintro same
  exact distinct.1 (same ▸ List.mem_map_of_mem listed)

/-- Nobody but the collector takes jobs out of the queue. -/
theorem Leased.call {call : Call} (leased : Leased s) (other : collects call.op = false) :
    Leased { s with db := step s.db call } := by
  refine step_cases (R := fun db' => Leased { s with db := db' }) leased fun r db' h => ?_
  refine ⟨fun job listed => ?_, leased.distinct⟩
  refine (exec_keepsJobs h ?_).pair_eq (leased.assigned job listed)
  cases settles : call.op.settles with
  | false => rfl
  | true =>
    generalize call.op = op at other settles
    cases op <;> simp_all [collects, Op.settles]

theorem Leased.act (leased : Leased s) (e : Event) : Leased (act cfg s e) := by
  cases e with
  | call call =>
    rw [Coordinator.act]
    split
    · exact leased
    · next other => exact leased.call (by simpa using other)
  | write => exact ⟨leased.assigned, leased.distinct⟩
  | claimDeletions now =>
    rw [Coordinator.act]
    split
    · exact ⟨fun _ => jobPair_claimDeletions, nodup_claimDeletions _ _ _ _⟩
    · exact leased
  | deleteChunk =>
    rw [Coordinator.act]
    split
    · exact leased
    · split
      · exact leased
      · exact ⟨leased.assigned, leased.distinct⟩
  | finishDeletion now =>
    rw [Coordinator.act]
    split
    · exact leased
    · next job rest jobs =>
        split
        · exact leased.settled jobs fun _ _ => jobPair_finishDeletion
        · exact leased
  | failDeletion now cause =>
    rw [Coordinator.act]
    split
    · exact leased
    · next job rest jobs =>
        split
        · exact leased
        · split
          · next h =>
              exact leased.settled jobs fun _ _ => jobPair_failDeletion (silent_eq_ok.mp h).1
          · exact .forget _ _
  | restart => exact .forget _ _

/-- An event makes at most one call to the store, and a permitted one revives nothing. -/
theorem db_act (e : Event) : (act cfg s e).db = s.db ∨
    ∃ call r, exec call s.db = .ok (r, (act cfg s e).db) ∧
      (permitted s e → revives s.db call.op = false) := by
  cases e with
  | call call =>
    rw [act]
    split
    · exact Or.inl rfl
    · refine step_cases (R := fun db' => db' = s.db ∨ ∃ other r, exec other s.db = .ok (r, db') ∧
        (permitted s (.call call) → revives s.db other.op = false)) (Or.inl rfl) ?_
      intro r db' h
      exact Or.inr ⟨call, r, h, fun allowed => by simpa [permitted] using allowed⟩
  | write | restart => exact Or.inl rfl
  | claimDeletions now =>
    rw [act]
    split
    · exact Or.inr ⟨⟨now, .claimDeletions cfg.batch (2 * cfg.interval)⟩, _, rfl, fun _ => rfl⟩
    · exact Or.inl rfl
  | deleteChunk =>
    rw [act]
    split
    · exact Or.inl rfl
    · split <;> exact Or.inl rfl
  | finishDeletion now =>
    rw [act]
    split
    · exact Or.inl rfl
    · next job rest jobs =>
        split
        · exact Or.inr ⟨⟨now, .finishDeletion job.id job.chunkID job.nodeID⟩, .done, rfl,
            fun _ => rfl⟩
        · exact Or.inl rfl
  | failDeletion now cause =>
    rw [act]
    split
    · exact Or.inl rfl
    · next job rest jobs =>
        split
        · exact Or.inl rfl
        · split
          · next r db h => exact Or.inr ⟨_, r, h, fun _ => rfl⟩
          · exact Or.inl rfl

/-- Every permitted event keeps the invariant. -/
theorem Sound.act {e : Event} (sound : Sound s) (allowed : permitted s e) :
    Sound (act cfg s e) := by
  have leased : Leased (Coordinator.act cfg s e) :=
    Leased.act ⟨sound.assigned, sound.distinct⟩ e
  obtain same | ⟨call, r, h, calm⟩ := @db_act cfg s e
  · exact ⟨same ▸ sound.consistent, same ▸ sound.apart, leased.assigned, leased.distinct⟩
  · exact ⟨(exec_change h).consistent sound.consistent,
      apart_of_change (exec_change h) sound.consistent (calm allowed) sound.apart,
      leased.assigned, leased.distinct⟩

theorem Sound.separated (sound : Sound s) {c : UUID} {n : NodeID} (served : serves s.db c n) :
    s.db.queued c n = false := by
  simp only [serves, Bool.and_eq_true, decide_eq_true_eq, Option.any_eq_true] at served
  obtain ⟨available, row, found, -, live⟩ := served
  refine sound.apart c n ?_ available
  simp [Database.liveChunk, found, live]

/-- Only the request for the first job of the batch removes a file. -/
theorem removes {e : Event} {c : UUID} {n : NodeID} (there : s.files c n = true)
    (gone : (act cfg s e).files c n = false) :
    ∃ job rest, s.jobs = job :: rest ∧ job.chunkID = c ∧ job.nodeID = n := by
  have changed : (act cfg s e).files ≠ s.files := by
    intro same
    rw [same, there] at gone
    cases gone
  cases e with
  | deleteChunk =>
    rw [act] at gone
    split at gone
    · simp [there] at gone
    · next job rest jobs =>
        refine ⟨job, rest, jobs, ?_⟩
        split at gone
        · simp [there] at gone
        · by_contra other
          have differ : ¬(c = job.chunkID ∧ n = job.nodeID) := fun same =>
            other ⟨same.1.symm, same.2.symm⟩
          simp [Cluster.setFile, differ, there] at gone
  | write => simp [act, Cluster.setFile, there] at gone
  | call | claimDeletions =>
    refine absurd ?_ changed
    rw [act]
    split <;> rfl
  | finishDeletion =>
    refine absurd ?_ changed
    rw [act]
    split
    · rfl
    · split <;> rfl
  | failDeletion =>
    refine absurd ?_ changed
    rw [act]
    split
    · rfl
    · split
      · rfl
      · split <;> rfl
  | restart => exact absurd rfl changed

theorem Sound.safe (sound : Sound s) : Safe cfg s := by
  refine ⟨fun r _ served => by simp [sound.separated served], fun e c n there gone served => ?_⟩
  obtain ⟨job, rest, jobs, rfl, rfl⟩ := removes there gone
  have queued := queued_of_jobPair (sound.assigned job (by simp [jobs]))
  rw [sound.separated served] at queued
  cases queued

end Run

theorem sound_empty : Sound Cluster.empty where
  consistent := consistent_empty
  apart c n live := by simp [Cluster.empty, Database.liveChunk, Database.empty] at live
  assigned := by simp [Cluster.empty]
  distinct := by simp [Cluster.empty]

/-- In a run in which no call reports a copy of a live owner's chunk as AVAILABLE while its
removal is queued, no AVAILABLE copy of a COMMITTED chunk with a live owner is queued for
removal in any state reached, and the collector never removes the file behind one. -/
theorem collector_spares_served_copies {cfg : GcConfig} {events : List Event}
    (guarded : Guarded (act cfg) (fun s e => permitted s e) Cluster.empty events) :
    Always (act cfg) (Safe cfg) Cluster.empty events := by
  have sound : Always (act cfg) Sound Cluster.empty events :=
    always_of_preserved (fun _ _ sound allowed => sound.act allowed) sound_empty guarded
  exact sound.mono fun _ => Sound.safe

/-- An upload with two copies, one of which is reported corrupt and collected, and whose
repair has copied the file to the node again. -/
def repairedCopy : List Event :=
  [.call ⟨0, .upsertNode "n1" "n1:9000" .healthy {} 0⟩,
    .call ⟨0, .upsertNode "n2" "n2:9000" .healthy {} 0⟩,
    .call ⟨1, .beginUpload 1 "b" "k" "" 8⟩, .call ⟨2, .reserveChunk 10 ⟨some 1, none⟩ 0 8⟩,
    .call ⟨3, .recordChunkTargets 10 ["n1", "n2"]⟩, .write 10 "n1", .write 10 "n2",
    .call ⟨4, .commitChunk 10 5 8 ["n1", "n2"] [] 2⟩, .call ⟨5, .completeUpload 1 8 1 "e"⟩,
    .call ⟨6, .markReplicaCorrupt 10 "n1" "checksum mismatch"⟩, .claimDeletions 7, .deleteChunk,
    .finishDeletion 8, .call ⟨9, .enqueueRepairs 2 10⟩, .call ⟨10, .claimRepairJob "w" 60 2⟩,
    .call ⟨11, .recordRepairPlan 1 "n2" "n1"⟩, .write 10 "n1"]

theorem collector_spares_served_copies_repaired :
    serves (run (act ⟨10, 16⟩) Cluster.empty
      (repairedCopy ++ [.call ⟨12, .completeRepair 1 10 "n1"⟩])).db 10 "n1" ∧
    Always (act ⟨10, 16⟩) (Safe ⟨10, 16⟩) Cluster.empty
      (repairedCopy ++ [.call ⟨12, .completeRepair 1 10 "n1"⟩]) :=
  ⟨by decide, collector_spares_served_copies (by decide)⟩

/-- An upload with two copies that loses a node. A repair has copied the file to a third
node and not recorded it yet when the inventory of that node is compared: the file has no
replica row there and its removal is queued. -/
def orphanDuringRepair : List Event :=
  [.call ⟨0, .upsertNode "n1" "n1:9000" .healthy {} 0⟩,
    .call ⟨0, .upsertNode "n2" "n2:9000" .healthy {} 0⟩,
    .call ⟨0, .upsertNode "n3" "n3:9000" .healthy {} 0⟩,
    .call ⟨1, .beginUpload 1 "b" "k" "" 8⟩, .call ⟨2, .reserveChunk 10 ⟨some 1, none⟩ 0 8⟩,
    .call ⟨3, .recordChunkTargets 10 ["n1", "n2"]⟩, .write 10 "n1", .write 10 "n2",
    .call ⟨4, .commitChunk 10 5 8 ["n1", "n2"] [] 2⟩, .call ⟨5, .completeUpload 1 8 1 "e"⟩,
    .call ⟨6, .setNodeHealth "n2" .dead⟩, .call ⟨7, .enqueueRepairs 2 10⟩,
    .call ⟨8, .claimRepairJob "w" 60 2⟩, .call ⟨9, .recordRepairPlan 1 "n1" "n3"⟩,
    .write 10 "n3", .call ⟨10, .queueOrphanDeletion 10 "n3"⟩]

/-- When the repair is recorded, the copy is served and queued for removal, and the
collector removes the file behind it. -/
theorem orphan_scan_condemns_repair :
    ¬Separated (run (act ⟨10, 16⟩) Cluster.empty (orphanDuringRepair ++
        [.call ⟨11, .completeRepair 1 10 "n3"⟩])).db ∧
      (run (act ⟨10, 16⟩) Cluster.empty (orphanDuringRepair ++
        [.call ⟨11, .completeRepair 1 10 "n3"⟩, .claimDeletions 12, .deleteChunk])).files 10 "n3" =
          false ∧
      serves (run (act ⟨10, 16⟩) Cluster.empty (orphanDuringRepair ++
        [.call ⟨11, .completeRepair 1 10 "n3"⟩, .claimDeletions 12, .deleteChunk])).db 10 "n3" := by
  decide

end FlexStore.Coordinator
