import FlexStore.Metadata.Scan

/-!
# Repair workers and their leases

Any number of workers claim repair jobs and finish them later, as late as they like, while
the scanner enqueues, reclaims and requeues and the rest of the store goes on. A claim is
followed from the moment it is made: whether it is still the current one, whether its
worker has finished, and whether a reclaim has run past the end of its lease.

A finishing call names the job and nothing else, so the store cannot tell a late worker
from the current one; and a reclaim returns a job to the queue however many attempts it
has had. What the queue promises holds for workers and scanners that keep to the
conditions stated here.
-/

namespace FlexStore.Coordinator.Repair

open Relational Transition FlexStore.Metadata

/-- One successful claim of a job. It is current as long as the job has been RUNNING ever
since. -/
structure Claim where
  jobID : Nat
  chunkID : UUID
  leaseExpiresAt : Time
  current : Bool
  finished : Bool
  overdue : Bool
  deriving DecidableEq

/-- The metadata, the claims in the order in which they were made, and how often each job
has been claimed since it was last requeued. -/
structure Crew where
  db : Database
  claims : List Claim
  tally : Nat → Nat

def Crew.start : Crew := ⟨Database.empty, [], fun _ => 0⟩

inductive Finish where
  | complete (targetNode : NodeID)
  | noop (reason : String)
  | fail (cause : String) (backoff : Duration) (maxAttempts : Int)

/-- A worker claims a job, the worker of a claim finishes, or the store is called by
somebody else. -/
inductive Event where
  | claim (now : Time) (owner : String) (lease : Duration) (replicationFactor : Int)
  | finish (now : Time) (claim : Nat) (how : Finish)
  | call (call : Call)

def Finish.op (c : Claim) : Finish → Op
  | .complete targetNode => .completeRepair c.jobID c.chunkID targetNode
  | .noop reason => .finishRepairAsNoop c.jobID reason
  | .fail cause backoff maxAttempts => .failRepair c.jobID cause backoff maxAttempts

def ofWorker (op : Op) : Bool :=
  op.finishes.isSome || match op with
    | .claimRepairJob .. => true
    | _ => false

def Crew.request (s : Crew) : Event → Option Call
  | .claim now owner lease replicationFactor =>
    some ⟨now, .claimRepairJob owner lease replicationFactor⟩
  | .finish now k how => (s.claims[k]?).map fun c => ⟨now, how.op c⟩
  | .call call => if ofWorker call.op then none else some call

/-- The event is the finishing call of the claim with this index. -/
def Event.finishedBy (k : Nat) : Event → Bool
  | .finish _ i _ => i = k
  | _ => false

/-- The event is a reclaim that runs after the given time. -/
def Event.reclaimsAfter (t : Time) : Event → Bool
  | .call ⟨now, .reclaimExpiredRepairLeases⟩ => t < now
  | _ => false

def runs (db : Database) (id : Nat) : Bool := (db.job id).any (·.state = .running)

/-- What an event that leads to `db` means for a claim. -/
def Claim.watch (db : Database) (e : Event) (k : Nat) (c : Claim) : Claim :=
  { c with
    current := c.current && runs db c.jobID
    finished := c.finished || e.finishedBy k
    overdue := c.overdue || e.reclaimsAfter c.leaseExpiresAt }

def newClaims : Event → Reply → List Claim
  | .claim now _ lease _, .repair target =>
    [⟨target.jobID, target.chunkID, now + lease, true, false, false⟩]
  | _, _ => []

/-- How often a job has been claimed after a call. -/
def Crew.recount (s : Crew) (op : Op) (reply : Reply) (db : Database) (id : Nat) : Nat :=
  match op, reply with
  | .claimRepairJob .., .repair target =>
    if target.jobID = id then s.tally id + 1 else s.tally id
  | op, _ => if op.requeues = true ∧ db.job id ≠ s.db.job id then 0 else s.tally id

/-- The state after an event whose call has succeeded. -/
def Crew.next (s : Crew) (e : Event) (op : Op) (reply : Reply) (db : Database) : Crew where
  db := db
  claims := s.claims.mapIdx (Claim.watch db e) ++ newClaims e reply
  tally := s.recount op reply db

@[simp] theorem Crew.next_db (s : Crew) (e : Event) (op : Op) (reply : Reply) (db : Database) :
    (s.next e op reply db).db = db := rfl

@[simp] theorem Crew.next_tally (s : Crew) (e : Event) (op : Op) (reply : Reply)
    (db : Database) : (s.next e op reply db).tally = s.recount op reply db := rfl

/-- One step. A refused call changes nothing. -/
def act (s : Crew) (e : Event) : Crew :=
  match s.request e with
  | none => s
  | some call =>
    match exec call s.db with
    | .error _ => s
    | .ok (reply, db) => s.next e call.op reply db

section Step

variable {s : Crew} {e : Event} {call : Call} {reply : Reply} {db : Database}

/-- To compare the states around an event it is enough to look at successful calls. -/
theorem act_cases {R : Crew → Prop} (idle : R s)
    (called : ∀ call reply db, s.request e = some call → exec call s.db = .ok (reply, db) →
      R (s.next e call.op reply db)) : R (act s e) := by
  unfold act
  split
  next => exact idle
  next call request =>
    split
    next => exact idle
    next reply db h => exact called call reply db request h

/-- The claims after an event are the watched ones and perhaps a new one. -/
theorem claims_cases {k : Nat} {c : Claim} {op : Op}
    (listed : (s.next e op reply db).claims[k]? = some c) :
    (∃ old, s.claims[k]? = some old ∧ c = old.watch db e k) ∨
      k = s.claims.length ∧ newClaims e reply = [c] := by
  rw [Crew.next] at listed
  by_cases old : k < s.claims.length
  · rw [List.getElem?_append_left (by simpa using old), List.getElem?_mapIdx] at listed
    obtain ⟨was, found, rfl⟩ := Option.map_eq_some_iff.mp listed
    exact Or.inl ⟨was, found, rfl⟩
  · rw [List.getElem?_append_right (by simpa using old), List.length_mapIdx] at listed
    refine Or.inr ?_
    unfold newClaims at listed ⊢
    split at listed
    · rw [List.getElem?_singleton] at listed
      split at listed
      · cases listed
        exact ⟨by omega, rfl⟩
      · cases listed
    · simp at listed

theorem request_finishes {id : Nat} (request : s.request e = some call)
    (finishes : call.op.finishes = some id) :
    ∃ now k how c, e = .finish now k how ∧ s.claims[k]? = some c ∧ c.jobID = id := by
  cases e with
  | claim =>
    cases request
    cases finishes
  | finish now k how =>
    obtain ⟨c, found, rfl⟩ := Option.map_eq_some_iff.mp request
    refine ⟨now, k, how, c, rfl, found, ?_⟩
    cases how <;> exact Option.some.inj finishes
  | call other =>
    simp only [Crew.request] at request
    split at request
    next => cases request
    next calm =>
      cases request
      simp [ofWorker, finishes] at calm

theorem request_claims {owner : String} {lease : Duration} {replicationFactor : Int}
    (request : s.request e = some call)
    (op : call.op = .claimRepairJob owner lease replicationFactor) :
    e = .claim call.now owner lease replicationFactor := by
  cases e with
  | claim =>
    cases request
    cases op
    rfl
  | finish now k how =>
    obtain ⟨c, found, rfl⟩ := Option.map_eq_some_iff.mp request
    cases how <;> cases op
  | call other =>
    simp only [Crew.request] at request
    split at request
    next => cases request
    next calm =>
      cases request
      simp [op, ofWorker] at calm

theorem request_reclaims (request : s.request e = some call)
    (op : call.op = .reclaimExpiredRepairLeases) : e = .call ⟨call.now, call.op⟩ := by
  cases e with
  | claim =>
    cases request
    cases op
  | finish now k how =>
    obtain ⟨c, found, rfl⟩ := Option.map_eq_some_iff.mp request
    cases how <;> cases op
  | call other =>
    simp only [Crew.request] at request
    split at request
    next => cases request
    next => cases request; rfl

/-- A new claim is for a job that was PENDING and is RUNNING under its lease. -/
theorem claimed_job {c : Claim} (request : s.request e = some call)
    (h : exec call s.db = .ok (reply, db)) (new : newClaims e reply = [c]) :
    ∃ j, s.db.job c.jobID = some j ∧ j.state = .pending ∧
      db.nextRepairJobID = s.db.nextRepairJobID ∧ c.current = true ∧
      ∀ id, db.job id = if c.jobID = id then some { j with
          state := .running
          attempts := j.attempts + 1
          leaseExpiresAt := some c.leaseExpiresAt }
        else s.db.job id := by
  unfold newClaims at new
  split at new
  next now owner lease replicationFactor target =>
    cases request
    simp only [exec, answer_eq_ok, Reply.repair.injEq] at h
    obtain ⟨_, h, rfl⟩ := h
    obtain ⟨row, found, pending, -, next, jobs⟩ := claimRepairJob_ok h
    cases new
    refine ⟨row.job, ?_, pending, next, rfl, jobs⟩
    rw [Database.job, found]
    rfl
  next => cases new

end Step

section Exclusive

/-- A finishing call changes a job only if its worker's claim is the current one of that
job, and brings no job back that has succeeded or failed. -/
def Lawful (s : Crew) (e : Event) : Prop :=
  ∀ now k how, e = .finish now k how → ∀ id,
    ((act s e).db.repairJobs.find? id ≠ s.db.repairJobs.find? id →
      ∃ c, s.claims[k]? = some c ∧ c.jobID = id ∧ c.current = true) ∧
    ∀ j j', s.db.job id = some j → j.state = .succeeded ∨ j.state = .failed →
      (act s e).db.job id = some j' → j'.active = false

/-- No job is under two current claims. -/
def Exclusive (s : Crew) : Prop :=
  ∀ (i k : Nat) (c d : Claim), s.claims[i]? = some c → s.claims[k]? = some d →
    c.current = true → d.current = true → c.jobID = d.jobID → i = k

/-- A worker finishes once, and before a reclaim has run past the end of its lease. -/
def timely (s : Crew) : Event → Bool
  | .finish _ k _ => (s.claims[k]?).all fun c => !c.finished && !c.overdue
  | _ => true

/-- What the claims say about the queue when every worker is timely. -/
structure Orderly (s : Crew) : Prop where
  numbered : Numbered s.db
  issued : ∀ (k : Nat) (c : Claim), s.claims[k]? = some c → c.jobID < s.db.nextRepairJobID
  held : ∀ (k : Nat) (c : Claim), s.claims[k]? = some c → c.current = true → runs s.db c.jobID
  kept : ∀ (k : Nat) (c : Claim), s.claims[k]? = some c → c.finished = false →
    c.overdue = false → s.db.job c.jobID = none ∨ c.current = true ∧
      ∃ j, s.db.job c.jobID = some j ∧ j.state = .running ∧
        j.leaseExpiresAt = some c.leaseExpiresAt
  alone : Exclusive s

variable {s : Crew} {e : Event} {call : Call} {reply : Reply} {db : Database}

theorem runs_iff {id : Nat} :
    runs db id ↔ ∃ j, db.job id = some j ∧ j.state = .running := by
  simp [runs, Option.any_eq_true]

/-- The claim of a timely finishing call is the current one, or its job is gone. -/
theorem Orderly.finisher (orderly : Orderly s) {now : Time} {k : Nat} {how : Finish} {c : Claim}
    (allowed : timely s (.finish now k how)) (found : s.claims[k]? = some c) :
    s.db.job c.jobID = none ∨ c.current = true := by
  simp only [timely, found, Option.all_some, Bool.and_eq_true, Bool.not_eq_true'] at allowed
  exact (orderly.kept k c found allowed.1 allowed.2).imp_right And.left

/-- What one call leaves of an unfinished claim that is not overdue. -/
theorem Orderly.kept_old (orderly : Orderly s) (allowed : timely s e)
    (request : s.request e = some call) (h : exec call s.db = .ok (reply, db)) {k : Nat}
    {c : Claim} (found : s.claims[k]? = some c) (unfinished : (c.watch db e k).finished = false)
    (intime : (c.watch db e k).overdue = false) :
    db.job c.jobID = none ∨ (c.watch db e k).current = true ∧ ∃ j, db.job c.jobID = some j ∧
      j.state = .running ∧ j.leaseExpiresAt = some c.leaseExpiresAt := by
  simp only [Claim.watch, Bool.or_eq_false_iff] at unfinished intime
  have queue := exec_queueStep orderly.numbered h
  have move := queue.move c.jobID
  generalize after : db.job c.jobID = job' at move
  rcases orderly.kept k c found unfinished.1 intime.1 with gone | ⟨current, j, job, running, lease⟩
  · rw [gone] at move
    cases move with
    | kept => exact Or.inl rfl
    | inserted _ _ _ _ fresh => exact absurd (orderly.issued k c found) (Nat.not_lt.mpr fresh)
  · rw [job] at move
    have mine : call.op.finishes ≠ some c.jobID := by
      intro finishes
      obtain ⟨now, i, how, d, rfl, finder, same⟩ := request_finishes request finishes
      have held := orderly.finisher allowed finder
      rw [same, job] at held
      have equal := orderly.alone i k d c finder found (held.resolve_left (by simp)) current same
      simp [Event.finishedBy, equal] at unfinished
    cases move with
    | kept =>
      refine Or.inr ⟨?_, j, rfl, running, lease⟩
      simp [Claim.watch, current, runs, after, running]
    | reclaimed _ op _ expired =>
      rw [request_reclaims request op, op] at intime
      simp only [lease, Option.any_some, decide_eq_true_eq] at expired
      simp [Event.reclaimsAfter, expired] at intime
    | claimed _ _ pending => simp [pending] at running
    | succeeded _ op => exact absurd op mine
    | failed _ op => exact absurd (by rw [op]; rfl) mine
    | requeued _ _ failed => simp [failed] at running
    | purged _ _ finished =>
      rcases finished with settled | ⟨settled, -⟩ <;> simp [settled] at running
    | cascaded => exact Or.inl rfl

/-- Timely workers keep the claims in order. -/
theorem Orderly.act (orderly : Orderly s) (allowed : timely s e) : Orderly (act s e) := by
  refine act_cases orderly fun call reply db request h => ?_
  have queue := exec_queueStep orderly.numbered h
  have apart : ∀ {i : Nat} {d c : Claim}, s.claims[i]? = some d → d.current = true →
      newClaims e reply = [c] → d.jobID ≠ c.jobID := by
    intro i d c found current new same
    obtain ⟨j, job, pending, -⟩ := claimed_job request h new
    obtain ⟨j', job', running⟩ := runs_iff.mp (orderly.held i d found current)
    rw [same, job] at job'
    obtain rfl := Option.some.inj job'
    rw [pending] at running
    cases running
  constructor
  · exact step_of_ok h ▸ numbered_step orderly.numbered
  · intro k c listed
    rcases claims_cases listed with ⟨old, found, rfl⟩ | ⟨-, new⟩
    · exact Nat.lt_of_lt_of_le (orderly.issued k old found) queue.grows
    · obtain ⟨j, job, -, next, -⟩ := claimed_job request h new
      exact next ▸ numbered_iff.mp orderly.numbered c.jobID (by simp [job])
  · intro k c listed current
    rcases claims_cases listed with ⟨old, found, rfl⟩ | ⟨-, new⟩
    · exact (Bool.and_eq_true_iff.mp current).2
    · obtain ⟨j, -, -, -, -, jobs⟩ := claimed_job request h new
      exact runs_iff.mpr ⟨_, (jobs c.jobID).trans (if_pos rfl), rfl⟩
  · intro k c listed unfinished intime
    rcases claims_cases listed with ⟨old, found, rfl⟩ | ⟨-, new⟩
    · exact orderly.kept_old allowed request h found unfinished intime
    · obtain ⟨j, -, -, -, current, jobs⟩ := claimed_job request h new
      exact Or.inr ⟨current, _, (jobs c.jobID).trans (if_pos rfl), rfl, rfl⟩
  · intro i k c d first second current current' same
    rcases claims_cases first with ⟨old, found, rfl⟩ | ⟨rfl, new⟩
    · have was := (Bool.and_eq_true_iff.mp current).1
      rcases claims_cases second with ⟨old', found', rfl⟩ | ⟨rfl, new'⟩
      · have was' := (Bool.and_eq_true_iff.mp current').1
        exact orderly.alone i k old old' found found' was was' same
      · exact (apart found was new' same).elim
    · rcases claims_cases second with ⟨old', found', rfl⟩ | ⟨rfl, new'⟩
      · have was' := (Bool.and_eq_true_iff.mp current').1
        exact (apart found' was' new same.symm).elim
      · rfl

theorem Orderly.lawful (orderly : Orderly s) (allowed : timely s e) : Lawful s e := by
  rintro now k how rfl id
  refine act_cases (R := fun s' => (s'.db.repairJobs.find? id ≠ s.db.repairJobs.find? id →
      ∃ c, s.claims[k]? = some c ∧ c.jobID = id ∧ c.current = true) ∧
    ∀ j j', s.db.job id = some j → j.state = .succeeded ∨ j.state = .failed →
      s'.db.job id = some j' → j'.active = false) ?_ ?_
  · refine ⟨fun changed => absurd rfl changed, fun j j' before settled after => ?_⟩
    obtain rfl := Option.some.inj (before.symm.trans after)
    rcases settled with state | state <;> simp [Job.active, state]
  · intro call reply db request h
    obtain ⟨c, found, rfl⟩ := Option.map_eq_some_iff.mp request
    have finishes : (how.op c).finishes = some c.jobID := by cases how <;> rfl
    have mine : db.repairJobs.find? id ≠ s.db.repairJobs.find? id →
        c.jobID = id ∧ c.current = true := by
      intro changed
      have same : c.jobID = id := by
        by_contra other
        exact changed (find?_of_finishes h finishes (Or.inl fun equal => other equal.symm))
      refine ⟨same, (orderly.finisher allowed found).resolve_left fun gone => ?_⟩
      rw [same, Database.job, Option.map_eq_none_iff] at gone
      exact changed (find?_of_finishes h finishes (Or.inr gone))
    refine ⟨fun changed => ⟨c, found, mine changed⟩, fun j j' before settled after => ?_⟩
    by_cases same : db.repairJobs.find? id = s.db.repairJobs.find? id
    · change Option.map _ (db.repairJobs.find? id) = _ at after
      rw [same] at after
      obtain rfl := Option.some.inj (before.symm.trans after)
      rcases settled with state | state <;> simp [Job.active, state]
    · obtain ⟨rfl, current⟩ := mine same
      obtain ⟨i, job, running⟩ := runs_iff.mp (orderly.held k c found current)
      rw [before] at job
      obtain rfl := Option.some.inj job
      rcases settled with state | state <;> simp [state] at running

theorem orderly_start : Orderly Crew.start where
  numbered := numbered_empty
  issued k c listed := by simp [Crew.start] at listed
  held k c listed := by simp [Crew.start] at listed
  kept k c listed := by simp [Crew.start] at listed
  alone i k c d listed := by simp [Crew.start] at listed

end Exclusive

/-- For any number of workers and every order of events, however late the workers are: if
every worker finishes at most once and before a reclaim has run past the end of its lease,
then every finishing call changes a job only under the current claim of that job, revives
none that has succeeded or failed, and no job is ever under two current claims. -/
theorem finishing_calls_lawful {events : List Event}
    (punctual : Guarded act (fun s e => timely s e) Crew.start events) :
    Guarded act Lawful Crew.start events ∧ Always act Exclusive Crew.start events := by
  have preserved : ∀ s e, Orderly s → timely s e → Orderly (act s e) :=
    fun _ _ orderly allowed => orderly.act allowed
  constructor
  · exact punctual.of_invariant preserved (fun _ _ orderly allowed => orderly.lawful allowed)
      orderly_start
  · exact (always_of_preserved preserved orderly_start punctual).mono fun _ orderly =>
      orderly.alone

/-- A chunk with one copy on the first of two nodes, and a job for it. -/
def damagedChunk : List Event :=
  [.call ⟨0, .upsertNode "n1" "n1:9000" .healthy {} 0⟩,
    .call ⟨0, .upsertNode "n2" "n2:9000" .healthy {} 0⟩,
    .call ⟨1, .beginUpload 1 "b" "k" "" 8⟩, .call ⟨2, .reserveChunk 10 ⟨some 1, none⟩ 0 8⟩,
    .call ⟨3, .commitChunk 10 5 8 ["n1"] [] 1⟩, .call ⟨4, .completeUpload 1 8 1 "e"⟩,
    .call ⟨5, .enqueueRepairs 2 10⟩]

/-- A worker fails, and another one completes the job although its lease has run out. -/
def secondAttempt : List Event :=
  damagedChunk ++ [.claim 6 "w1" 60 2, .finish 7 0 (.fail "timeout" 5 3), .claim 12 "w2" 60 2,
    .finish 80 1 (.complete "n2"), .call ⟨90, .reclaimExpiredRepairLeases⟩]

theorem finishing_calls_lawful_secondAttempt :
    (run act Crew.start secondAttempt).claims.map (·.jobID) = [1, 1] ∧
      ((run act Crew.start secondAttempt).db.job 1).map (·.state) = some .succeeded ∧
      Guarded act Lawful Crew.start secondAttempt ∧
      Always act Exclusive Crew.start secondAttempt :=
  ⟨by decide +kernel, by decide +kernel, finishing_calls_lawful (by decide +kernel)⟩

/-- A worker loses its lease, another one completes the job, and then the first reports
its failure. -/
def lateFailure : List Event :=
  damagedChunk ++ [.claim 6 "w1" 60 2, .call ⟨90, .reclaimExpiredRepairLeases⟩,
    .claim 91 "w2" 60 2, .finish 92 1 (.complete "n2")]

/-- The failure of a claim that is not current brings the job back that has succeeded. -/
theorem late_failure_revives_job :
    ((run act Crew.start lateFailure).claims.map fun c => (c.jobID, c.current)) =
        [(1, false), (1, false)] ∧
      ((run act Crew.start lateFailure).db.job 1).map (·.state) = some .succeeded ∧
      ((act (run act Crew.start lateFailure) (.finish 93 0 (.fail "timeout" 5 3))).db.job 1).map
        (·.state) = some .pending ∧
      ¬Guarded act Lawful Crew.start (lateFailure ++ [.finish 93 0 (.fail "timeout" 5 3)]) := by
  have before : ((run act Crew.start lateFailure).db.job 1).map (·.state) = some .succeeded := by
    decide +kernel
  have after : ((act (run act Crew.start lateFailure)
      (.finish 93 0 (.fail "timeout" 5 3))).db.job 1).map (·.state) = some .pending := by
    decide +kernel
  refine ⟨by decide +kernel, before, after, fun lawful => ?_⟩
  have last := (guarded_append.mp lawful).2.1
  obtain ⟨j, job, settled⟩ := Option.map_eq_some_iff.mp before
  obtain ⟨j', job', pending⟩ := Option.map_eq_some_iff.mp after
  have inactive := (last 93 0 _ rfl 1).2 j j' job (Or.inl settled) job'
  simp [Job.active, pending] at inactive

section Attempts

/-- No job has been claimed more often than allowed since it was last requeued. -/
def WithinBudget (maxAttempts : Int) (s : Crew) : Prop := ∀ id, (s.tally id : Int) ≤ maxAttempts

/-- Every failure is reported with the same bound. -/
def bounded (maxAttempts : Int) : Event → Bool
  | .finish _ _ (.fail _ _ bound) => bound = maxAttempts
  | _ => true

/-- A reclaim meets no expired job that has used up its attempts. -/
def sparing (maxAttempts : Int) (s : Crew) : Event → Bool
  | .call ⟨now, .reclaimExpiredRepairLeases⟩ => s.db.repairJobs.rows.all fun j =>
    !(j.state = .running && j.leaseExpiresAt.any (· < now)) || j.attempts < maxAttempts
  | _ => true

/-- The counter of a job is what has been claimed since the last requeue, and a job that
can be claimed has an attempt left. -/
structure Budgeted (maxAttempts : Int) (s : Crew) : Prop where
  numbered : Numbered s.db
  unborn : ∀ id, s.db.nextRepairJobID ≤ id → s.tally id = 0
  counted : ∀ id j, s.db.job id = some j → s.tally id = j.attempts
  spare : ∀ id j, s.db.job id = some j → j.state = .pending → (j.attempts : Int) < maxAttempts
  within : WithinBudget maxAttempts s

variable {s : Crew} {e : Event} {call : Call} {reply : Reply} {db : Database} {maxAttempts : Int}
  {id : Nat} {c : Claim}

theorem newClaims_cases (e : Event) (reply : Reply) :
    newClaims e reply = [] ∨ ∃ c, newClaims e reply = [c] := by
  unfold newClaims
  split
  · exact Or.inr ⟨_, rfl⟩
  · exact Or.inl rfl

theorem recount_of_claim (request : s.request e = some call) (new : newClaims e reply = [c]) :
    s.recount call.op reply db id = if c.jobID = id then s.tally id + 1 else s.tally id := by
  unfold newClaims at new
  split at new
  · cases request
    cases new
    rfl
  · cases new

theorem unclaimed (request : s.request e = some call) (h : exec call s.db = .ok (reply, db))
    (calm : newClaims e reply = []) (owner : String) (lease : Duration)
    (replicationFactor : Int) : call.op ≠ .claimRepairJob owner lease replicationFactor := by
  intro op
  obtain rfl := request_claims request op
  obtain ⟨now, op⟩ := call
  cases request
  simp only [exec, answer_eq_ok] at h
  obtain ⟨target, -, rfl⟩ := h
  cases calm

/-- An event that makes no claim leaves the count of a job alone, unless it requeues it. -/
theorem recount_of_calm (request : s.request e = some call)
    (h : exec call s.db = .ok (reply, db)) (calm : newClaims e reply = []) :
    s.recount call.op reply db id =
      if call.op.requeues = true ∧ db.job id ≠ s.db.job id then 0 else s.tally id := by
  have other := unclaimed request h calm
  unfold Crew.recount
  split
  · rename_i op
    exact absurd op (other _ _ _)
  · rfl

theorem request_fails {cause : String} {backoff : Duration} {bound : Int}
    (request : s.request e = some call) (op : call.op = .failRepair id cause backoff bound) :
    ∃ now k, e = .finish now k (.fail cause backoff bound) := by
  have finishes : call.op.finishes = some id := by rw [op]; rfl
  obtain ⟨now, k, how, c, rfl, found, -⟩ := request_finishes request finishes
  simp only [Crew.request, found, Option.map_some, Option.some.injEq] at request
  subst request
  cases how <;> cases op
  exact ⟨now, k, rfl⟩

/-- A claim takes an attempt that is left. -/
theorem Budgeted.claim (budgeted : Budgeted maxAttempts s) (request : s.request e = some call)
    (h : exec call s.db = .ok (reply, db)) (new : newClaims e reply = [c]) :
    Budgeted maxAttempts (s.next e call.op reply db) := by
  obtain ⟨j, job, pending, next, -, jobs⟩ := claimed_job request h new
  have count : s.tally c.jobID = j.attempts := budgeted.counted _ j job
  have left : (j.attempts : Int) < maxAttempts := budgeted.spare _ j job pending
  constructor
  · exact step_of_ok h ▸ numbered_step budgeted.numbered
  · intro id unborn
    rw [Crew.next_db, next] at unborn
    have issued := numbered_iff.mp budgeted.numbered c.jobID (by simp [job])
    rw [Crew.next_tally, recount_of_claim request new, if_neg (by omega)]
    exact budgeted.unborn id unborn
  · intro id j' job'
    rw [Crew.next_db, jobs] at job'
    rw [Crew.next_tally, recount_of_claim request new]
    split at job'
    next same =>
      subst same
      cases job'
      rw [if_pos rfl, count]
    next other =>
      rw [if_neg other]
      exact budgeted.counted id j' job'
  · intro id j' job' waits
    rw [Crew.next_db, jobs] at job'
    split at job'
    next =>
      cases job'
      cases waits
    next => exact budgeted.spare id j' job' waits
  · intro id
    rw [Crew.next_tally, recount_of_claim request new]
    split
    next same =>
      subst same
      rw [count]
      push_cast
      omega
    next => exact budgeted.within id

/-- What a call that claims nothing makes of a job: its count is that of its attempts, and an
attempt is left if it can be claimed. -/
theorem Budgeted.job_of_calm (budgeted : Budgeted maxAttempts s) (positive : 1 ≤ maxAttempts)
    (fixed : bounded maxAttempts e) (spared : sparing maxAttempts s e)
    (request : s.request e = some call) (h : exec call s.db = .ok (reply, db))
    (calm : newClaims e reply = []) {j' : Job} (after : db.job id = some j') :
    s.recount call.op reply db id = j'.attempts ∧
      (j'.state = .pending → (j'.attempts : Int) < maxAttempts) := by
  have recount : s.recount call.op reply db id =
      if call.op.requeues = true ∧ db.job id ≠ s.db.job id then 0 else s.tally id :=
    recount_of_calm request h calm
  have same : call.op.requeues = false → s.recount call.op reply db id = s.tally id := by
    intro other
    rw [recount, if_neg (by simp [other])]
  have move := (exec_queueStep budgeted.numbered h).move id
  rw [after] at move
  generalize before : s.db.job id = job at move
  cases move with
  | kept =>
    rw [recount, if_neg (by simp [after, before])]
    exact ⟨budgeted.counted id j' before, budgeted.spare id j' before⟩
  | inserted _ op _ _ fresh =>
    rw [same (by rw [op]; rfl)]
    exact ⟨budgeted.unborn id fresh, fun _ => Int.lt_of_lt_of_le Int.one_pos positive⟩
  | reclaimed j op running expired =>
    rw [same (by rw [op]; rfl)]
    refine ⟨budgeted.counted id j before, fun _ => ?_⟩
    obtain ⟨row, member, -, rfl⟩ := job_eq_some.mp before
    rw [request_reclaims request op, op] at spared
    have left := List.all_eq_true.mp spared row member
    rw [Bool.or_eq_true, decide_eq_true_eq] at left
    refine left.resolve_left ?_
    change row.state = .running at running
    change row.leaseExpiresAt.any _ = true at expired
    simp [running, expired]
  | claimed _ op => exact absurd op (unclaimed request h calm _ _ _)
  | succeeded j op =>
    have other : call.op.requeues = false := by
      cases form : call.op <;> first | rfl | (rw [form] at op; cases op)
    rw [same other]
    exact ⟨budgeted.counted id j before, by simp⟩
  | failed j op =>
    rw [same (by rw [op]; rfl)]
    refine ⟨budgeted.counted id j before, fun waits => ?_⟩
    obtain ⟨now, k, rfl⟩ := request_fails request op
    obtain rfl := of_decide_eq_true fixed
    by_contra spent
    simp [Int.not_lt.mp spent] at waits
  | requeued j op failed =>
    have moved : db.job id ≠ s.db.job id := by
      intro unmoved
      have same := Option.some.inj (after.symm.trans (unmoved.trans before))
      have states := congrArg Job.state same
      rw [failed] at states
      cases states
    rw [recount, if_pos ⟨by rw [op]; rfl, moved⟩]
    exact ⟨rfl, fun _ => Int.lt_of_lt_of_le Int.one_pos positive⟩

/-- Every other call leaves the jobs that can be claimed an attempt. -/
theorem Budgeted.calm (budgeted : Budgeted maxAttempts s) (positive : 1 ≤ maxAttempts)
    (fixed : bounded maxAttempts e) (spared : sparing maxAttempts s e)
    (request : s.request e = some call) (h : exec call s.db = .ok (reply, db))
    (calm : newClaims e reply = []) : Budgeted maxAttempts (s.next e call.op reply db) := by
  have recount (id : Nat) : s.recount call.op reply db id =
      if call.op.requeues = true ∧ db.job id ≠ s.db.job id then 0 else s.tally id :=
    recount_of_calm request h calm
  have jobs {id : Nat} {j' : Job} (after : db.job id = some j') :=
    budgeted.job_of_calm positive fixed spared request h calm after
  constructor
  · exact step_of_ok h ▸ numbered_step budgeted.numbered
  · intro id unborn
    have grows := (exec_queueStep budgeted.numbered h).grows
    have zero := budgeted.unborn id (Nat.le_trans grows unborn)
    rw [Crew.next_tally, recount, zero, ite_self]
  · exact fun id j' after => (jobs after).1
  · exact fun id j' after => (jobs after).2
  · intro id
    have within := budgeted.within id
    rw [Crew.next_tally, recount]
    split
    · exact Int.le_trans Int.one_nonneg positive
    · exact within

theorem Budgeted.act (budgeted : Budgeted maxAttempts s) (positive : 1 ≤ maxAttempts)
    (fixed : bounded maxAttempts e) (spared : sparing maxAttempts s e) :
    Budgeted maxAttempts (act s e) := by
  refine act_cases budgeted fun call reply db request h => ?_
  rcases newClaims_cases e reply with calm | ⟨c, new⟩
  · exact budgeted.calm positive fixed spared request h calm
  · exact budgeted.claim request h new

theorem budgeted_start (positive : 1 ≤ maxAttempts) : Budgeted maxAttempts Crew.start where
  numbered := numbered_empty
  unborn _ _ := rfl
  counted id j job := by simp [Crew.start, Database.job, Database.empty] at job
  spare id j job := by simp [Crew.start, Database.job, Database.empty] at job
  within id := by
    change (0 : Int) ≤ maxAttempts
    omega

end Attempts

/-- For every order of events, with one bound of at least one attempt and whoever finishes:
if no reclaim meets an expired job that has used up its attempts, then no job is ever
claimed more often than the bound allows between two requeues. -/
theorem claims_within_budget {maxAttempts : Int} (positive : 1 ≤ maxAttempts)
    {events : List Event}
    (guarded : Guarded act (fun s e => bounded maxAttempts e ∧ sparing maxAttempts s e)
      Crew.start events) :
    Always act (WithinBudget maxAttempts) Crew.start events := by
  have budgeted := always_of_preserved (P := Budgeted maxAttempts)
    (fun s e budgeted ⟨fixed, spared⟩ => budgeted.act positive fixed spared)
    (budgeted_start positive) guarded
  exact budgeted.mono fun s budgeted => budgeted.within

/-- A worker crashes, its job comes back, and the second attempt is the last. -/
def crashOnce : List Event :=
  damagedChunk ++ [.claim 6 "w1" 60 2, .call ⟨90, .reclaimExpiredRepairLeases⟩,
    .claim 91 "w2" 60 2, .finish 92 1 (.fail "timeout" 5 2), .claim 99 "w3" 60 2]

theorem claims_within_budget_crashOnce :
    (run act Crew.start crashOnce).tally 1 = 2 ∧
      ((run act Crew.start crashOnce).db.job 1).map (·.state) = some .failed ∧
      Always act (WithinBudget 2) Crew.start crashOnce :=
  ⟨by decide +kernel, by decide +kernel, claims_within_budget (by decide) (by decide +kernel)⟩

/-- Every worker crashes, so no failure is ever reported. -/
def crashLoop : List Event :=
  damagedChunk ++ [.claim 6 "w1" 60 2, .call ⟨90, .reclaimExpiredRepairLeases⟩,
    .claim 91 "w2" 60 2, .call ⟨190, .reclaimExpiredRepairLeases⟩, .claim 191 "w3" 60 2]

/-- A bound of two attempts, and the third claim. -/
theorem crash_loop_exceeds_budget :
    (∀ e ∈ crashLoop, bounded 2 e) ∧ (run act Crew.start crashLoop).tally 1 = 3 ∧
      ¬Always act (WithinBudget 2) Crew.start crashLoop := by
  have third : (run act Crew.start crashLoop).tally 1 = 3 := by decide +kernel
  refine ⟨by decide, third, fun within => ?_⟩
  have bound := within.last 1
  rw [third] at bound
  exact absurd bound (by decide)

end FlexStore.Coordinator.Repair
