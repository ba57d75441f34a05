import FlexStore.Coordinator.Collector

/-!
# Requests that outlive their call

The collector sends `DeleteChunk` and waits until its call is answered or fails. A call that
fails says nothing about the request, which may reach its node at any later moment, and a
request names a chunk and nothing that would tell one file of it from another.

If every request is carried out during its call or not at all, this is the collector of
`Collector`, in which the request and its effect are one step. Otherwise a request can be
carried out after a second attempt has succeeded, the job is finished and a repair has
placed a new copy on the node: it then removes the file behind an AVAILABLE replica.
-/

namespace FlexStore.Coordinator

open Relational Transition FlexStore.Metadata

/-- A `DeleteChunk` request that has not been carried out, with the job that it was sent
for. -/
structure DeleteRequest where
  ticket : Nat
  job : Nat
  chunkID : UUID
  nodeID : NodeID
  deriving DecidableEq, Repr

/-- Where the collector is with the first job of its batch. -/
inductive Calling where
  | idle
  | waiting (ticket : Nat)
  | answered
  deriving DecidableEq, Repr

/-- The metadata, the files on the nodes, the collector with its batch and its call, and the
requests that are under way. -/
structure Network where
  db : Database
  files : UUID → NodeID → Bool
  jobs : List PendingDeletion
  calling : Calling
  wire : List DeleteRequest
  sent : Nat

def Network.empty : Network := ⟨Database.empty, fun _ _ => false, [], .idle, [], 0⟩

/-- The same without the requests. -/
def Network.cluster (s : Network) : Cluster := ⟨s.db, s.files, s.jobs, s.calling = .answered⟩

inductive Message where
  | call (call : Call)
  | copy (chunkID : UUID) (nodeID : NodeID)
  | claimDeletions (now : Time)
  | send
  | carryOut (i : Nat)
  | lose (i : Nat)
  | reply (now : Time)
  | fail (now : Time) (cause : String)
  | restart

/-- A step of the collector that is not about a request. -/
def Network.after (cfg : GcConfig) (s : Network) (e : Event) (calling : Calling) : Network :=
  let c := act cfg s.cluster e
  { s with db := c.db, files := c.files, jobs := c.jobs, calling }

/-- One step. A node carries out the requests in any order, whatever has become of the call;
the collector sees the answer to the request for which it waits. -/
def deliver (cfg : GcConfig) (s : Network) : Message → Network
  | .call call => s.after cfg (.call call) s.calling
  | .copy c n => s.after cfg (.write c n) s.calling
  | .claimDeletions now => if s.jobs = [] then s.after cfg (.claimDeletions now) .idle else s
  | .send =>
    match s.jobs, s.calling with
    | job :: _, .idle =>
      if job.address = "" then s
      else { s with
        wire := s.wire ++ [⟨s.sent, job.id, job.chunkID, job.nodeID⟩]
        sent := s.sent + 1
        calling := .waiting s.sent }
    | _, _ => s
  | .carryOut i =>
    match s.wire[i]? with
    | none => s
    | some r => { s with
        files := fun c n => if c = r.chunkID ∧ n = r.nodeID then false else s.files c n
        wire := s.wire.eraseIdx i
        calling := if s.calling = .waiting r.ticket then .answered else s.calling }
  | .lose i => { s with wire := s.wire.eraseIdx i }
  | .reply now =>
    match s.jobs with
    | [] => s
    | job :: _ =>
      if job.address = "" ∨ s.calling = .answered then s.after cfg (.finishDeletion now) .idle
      else s
  | .fail now cause =>
    match s.jobs with
    | [] => s
    | job :: _ => if job.address = "" then s else s.after cfg (.failDeletion now cause) .idle
  | .restart => s.after cfg .restart .idle

/-- A request is carried out only while the collector waits for its answer. -/
def timely (s : Network) : Message → Bool
  | .carryOut i => (s.wire[i]?).all fun r => s.calling = .waiting r.ticket
  | _ => true

/-- The event is not a call that revives a copy. -/
def calm (s : Network) : Message → Bool
  | .call call => !revives s.db call.op
  | _ => true

/-- A request whose job has left the queue does not remove the file of an AVAILABLE
replica. -/
def SparesReplaced (s : Network) (m : Message) : Prop :=
  ∀ i r, m = .carryOut i → s.wire[i]? = some r → jobPair s.db r.job = none →
    s.files r.chunkID r.nodeID = true →
      s.db.replicaState r.chunkID r.nodeID ≠ some .available

/-- The request for which the collector waits is for the first job of its batch. -/
structure Ordered (s : Network) : Prop where
  tickets : ∀ r ∈ s.wire, r.ticket < s.sent
  waiting : ∀ t, s.calling = .waiting t → t < s.sent ∧ ∃ job rest, s.jobs = job :: rest ∧
    job.address ≠ "" ∧ ∀ r ∈ s.wire, r.ticket = t →
      r.job = job.id ∧ r.chunkID = job.chunkID ∧ r.nodeID = job.nodeID

section Step

variable {cfg : GcConfig} {s : Network}

/-- A step after which the collector does not wait keeps the order. -/
theorem Ordered.idle (ordered : Ordered s) (db : Database) (files : UUID → NodeID → Bool)
    (jobs : List PendingDeletion) :
    Ordered { s with db, files, jobs, calling := .idle } :=
  ⟨ordered.tickets, fun _ waits => by cases waits⟩

/-- So does one that leaves the batch alone. -/
theorem Ordered.keep (ordered : Ordered s) {jobs : List PendingDeletion}
    {wire : List DeleteRequest} (same : jobs = s.jobs) (fewer : wire ⊆ s.wire) (db : Database)
    (files : UUID → NodeID → Bool) : Ordered { s with db, files, jobs, wire } := by
  subst same
  refine ⟨fun r listed => ordered.tickets r (fewer listed), fun t waits => ?_⟩
  obtain ⟨issued, job, rest, jobs, address, mine⟩ := ordered.waiting t waits
  exact ⟨issued, job, rest, jobs, address, fun r listed => mine r (fewer listed)⟩

/-- The request that is sent is the only one with its ticket. -/
theorem Ordered.send (ordered : Ordered s) {job : PendingDeletion} {rest : List PendingDeletion}
    (jobs : s.jobs = job :: rest) (address : job.address ≠ "") :
    Ordered { s with
      wire := s.wire ++ [⟨s.sent, job.id, job.chunkID, job.nodeID⟩]
      sent := s.sent + 1
      calling := .waiting s.sent } := by
  refine ⟨fun r listed => ?_, fun t waits => ?_⟩
  · obtain early | last := List.mem_append.mp listed
    · exact Nat.lt_succ_of_lt (ordered.tickets r early)
    · rw [List.mem_singleton.mp last]
      exact Nat.lt_succ_self _
  · cases waits
    refine ⟨Nat.lt_succ_self _, job, rest, jobs, address, fun r listed same => ?_⟩
    obtain early | last := List.mem_append.mp listed
    · exact absurd same (Nat.ne_of_lt (ordered.tickets r early))
    · rw [List.mem_singleton.mp last]
      exact ⟨rfl, rfl, rfl⟩

theorem Ordered.deliver (ordered : Ordered s) (m : Message) : Ordered (deliver cfg s m) := by
  cases m with
  | call call =>
    refine ordered.keep ?_ (List.Subset.refl _) _ _
    rw [act]
    split <;> rfl
  | copy c n => exact ordered.keep rfl (List.Subset.refl _) _ _
  | claimDeletions now =>
    rw [Coordinator.deliver]
    split
    · exact ordered.idle _ _ _
    · exact ordered
  | send =>
    rw [Coordinator.deliver]
    split
    · next job rest jobs _ =>
        split
        · exact ordered
        · next address => exact ordered.send jobs address
    · exact ordered
  | carryOut i =>
    rw [Coordinator.deliver]
    split
    · exact ordered
    · next r _ =>
        have fewer : Ordered { s with
            files := fun c n => if c = r.chunkID ∧ n = r.nodeID then false else s.files c n
            wire := s.wire.eraseIdx i } :=
          ordered.keep rfl List.eraseIdx_subset _ _
        split
        · exact ⟨fewer.tickets, fun _ waits => by cases waits⟩
        · exact fewer
  | lose i => exact ordered.keep rfl List.eraseIdx_subset _ _
  | reply now =>
    rw [Coordinator.deliver]
    split
    · exact ordered
    · split
      · exact ordered.idle _ _ _
      · exact ordered
  | fail now cause =>
    rw [Coordinator.deliver]
    split
    · exact ordered
    · split
      · exact ordered
      · exact ordered.idle _ _ _
  | restart => exact ordered.idle _ _ _

theorem cluster_after {e : Event} {calling : Calling}
    (same : (act cfg s.cluster e).deleted = decide (calling = .answered)) :
    (s.after cfg e calling).cluster = act cfg s.cluster e :=
  congrArg (Cluster.mk _ _ _) same.symm

/-- A request that is carried out during its call is the collector's for its first job. -/
theorem cluster_carryOut (ordered : Ordered s) {i : Nat} {r : DeleteRequest}
    (found : s.wire[i]? = some r) (waits : s.calling = .waiting r.ticket) :
    (deliver cfg s (.carryOut i)).cluster = act cfg s.cluster .deleteChunk := by
  obtain ⟨-, job, rest, jobs, address, mine⟩ := ordered.waiting r.ticket waits
  obtain ⟨-, chunk, node⟩ := mine r (List.mem_of_getElem? found) rfl
  have batch : s.cluster.jobs = job :: rest := jobs
  rw [deliver, act]
  simp only [found, batch, if_neg address, waits, if_true, chunk, node]
  rfl

/-- If a request is carried out during its call, a step is one of the collector, or none. -/
theorem cluster_deliver (ordered : Ordered s) {m : Message} (inTime : timely s m) :
    (deliver cfg s m).cluster = s.cluster ∨
      ∃ e, (calm s m → permitted s.cluster e) ∧
        (deliver cfg s m).cluster = act cfg s.cluster e := by
  cases m with
  | call call =>
    refine Or.inr ⟨.call call, id, cluster_after ?_⟩
    rw [act]
    split <;> rfl
  | copy c n => exact Or.inr ⟨.write c n, fun _ => rfl, rfl⟩
  | claimDeletions now =>
    rw [deliver]
    split
    · next empty =>
        refine Or.inr ⟨.claimDeletions now, fun _ => rfl, cluster_after ?_⟩
        rw [act, if_pos (show s.cluster.jobs = [] from empty)]
        rfl
    · exact Or.inl rfl
  | send =>
    left
    rw [deliver]
    split
    · next idle =>
        split
        · rfl
        · exact congrArg (Cluster.mk _ _ _) (by rw [idle]; rfl)
    · rfl
  | carryOut i =>
    cases found : s.wire[i]? with
    | none =>
      left
      rw [deliver, found]
    | some r =>
      rw [timely, found] at inTime
      have waits : s.calling = .waiting r.ticket := by simpa using inTime
      exact Or.inr ⟨.deleteChunk, fun _ => rfl, cluster_carryOut ordered found waits⟩
  | lose i => exact Or.inl rfl
  | reply now =>
    rw [deliver]
    split
    · exact Or.inl rfl
    · next job rest jobs =>
        split
        · next settled =>
            refine Or.inr ⟨.finishDeletion now, fun _ => rfl, cluster_after ?_⟩
            have batch : s.cluster.jobs = job :: rest := jobs
            have done : job.address = "" ∨ s.cluster.deleted = true := by
              simpa [Network.cluster] using settled
            rw [act, batch]
            simp only [if_pos done]
            rfl
        · exact Or.inl rfl
  | fail now cause =>
    rw [deliver]
    split
    · exact Or.inl rfl
    · next job rest jobs =>
        split
        · exact Or.inl rfl
        · next address =>
            refine Or.inr ⟨.failDeletion now cause, fun _ => rfl, cluster_after ?_⟩
            have batch : s.cluster.jobs = job :: rest := jobs
            rw [act, batch]
            simp only [if_neg address]
            split <;> rfl
  | restart => exact Or.inr ⟨.restart, fun _ => rfl, rfl⟩

end Step

section Run

variable {cfg : GcConfig} {messages : List Message}

theorem ordered_empty : Ordered Network.empty :=
  ⟨fun _ listed => (List.not_mem_nil listed).elim, fun _ waits => by cases waits⟩

/-- If no request outlives its call and no call revives a copy, what the collector does to
the copies that are served is what it does when its requests are single steps. -/
theorem network_safe
    (inTime : Guarded (deliver cfg) (fun s m => timely s m ∧ calm s m) Network.empty messages) :
    Safe cfg (run (deliver cfg) Network.empty messages).cluster := by
  obtain ⟨events, guarded, end_⟩ : ∃ events,
      Guarded (act cfg) (fun s e => permitted s e) Network.empty.cluster events ∧
        (run (deliver cfg) Network.empty messages).cluster =
          run (act cfg) Network.empty.cluster events := by
    refine Guarded.simulation (P := Ordered) (fun _ m ordered _ => ordered.deliver m) ?_
      ordered_empty inTime
    intro s m ordered both
    obtain same | ⟨e, allowed, moved⟩ := cluster_deliver ordered both.1
    · exact Or.inl same
    · exact Or.inr ⟨e, allowed both.2, moved⟩
  rw [end_]
  exact (always_of_preserved (fun _ _ sound allowed => sound.act allowed) sound_empty
    guarded).last.safe

/-- The batch is in the queue, whether or not copies are revived. -/
theorem leased_deliver {s : Network} (ordered : Ordered s) (leased : Leased s.cluster)
    {m : Message} (inTime : timely s m) : Leased (deliver cfg s m).cluster := by
  obtain same | ⟨e, -, moved⟩ := cluster_deliver ordered inTime
  · exact same ▸ leased
  · exact moved ▸ leased.act e

/-- In a run in which every request is carried out during its call or not at all, no request
of a job that has left the queue removes the file of an AVAILABLE replica. -/
theorem timely_requests_spare_replaced
    (inTime : Guarded (deliver cfg) (fun s m => timely s m) Network.empty messages) :
    Guarded (deliver cfg) SparesReplaced Network.empty messages := by
  refine Guarded.of_invariant (P := fun s => Ordered s ∧ Leased s.cluster)
    (fun s m both inTime => ⟨both.1.deliver m, leased_deliver both.1 both.2 inTime⟩) ?_
    ⟨ordered_empty, .forget _ _⟩ inTime
  intro s m both inTime i r carried found gone
  subst carried
  rw [timely, found] at inTime
  obtain ⟨-, job, rest, jobs, -, mine⟩ := both.1.waiting r.ticket (by simpa using inTime)
  obtain ⟨number, -⟩ := mine r (List.mem_of_getElem? found) rfl
  -- The job for which the collector waits is still in the queue.
  have queued := both.2.assigned job (by rw [Network.cluster, jobs]; exact List.mem_cons_self)
  rw [← number] at queued
  exact absurd (gone.symm.trans queued) (by simp)

/-- An upload with two copies, one of which is reported corrupt and queued for removal. -/
def corruptCopy : List Message :=
  [.call ⟨0, .upsertNode "n1" "n1:9000" .healthy {} 0⟩,
    .call ⟨0, .upsertNode "n2" "n2:9000" .healthy {} 0⟩,
    .call ⟨1, .beginUpload 1 "b" "k" "" 8⟩, .call ⟨2, .reserveChunk 10 ⟨some 1, none⟩ 0 8⟩,
    .call ⟨3, .recordChunkTargets 10 ["n1", "n2"]⟩, .copy 10 "n1", .copy 10 "n2",
    .call ⟨4, .commitChunk 10 5 8 ["n1", "n2"] [] 2⟩, .call ⟨5, .completeUpload 1 8 1 "e"⟩,
    .call ⟨6, .markReplicaCorrupt 10 "n1" "checksum mismatch"⟩]

/-- A repair that places the chunk on the first node. -/
def replaceCopy : List Message :=
  [.call ⟨90, .enqueueRepairs 2 10⟩, .call ⟨91, .claimRepairJob "w" 60 2⟩,
    .call ⟨92, .recordRepairPlan 1 "n2" "n1"⟩, .copy 10 "n1",
    .call ⟨93, .completeRepair 1 10 "n1"⟩]

/-- The first request is lost and the second carried out. -/
def retriedInTime : List Message :=
  corruptCopy ++ [.claimDeletions 7, .send, .lose 0, .fail 22 "deadline exceeded",
    .claimDeletions 60, .send, .carryOut 0, .reply 61] ++ replaceCopy

theorem timely_requests_spare_replaced_retried :
    serves (run (deliver ⟨10, 16⟩) Network.empty retriedInTime).db 10 "n1" ∧
      Guarded (deliver ⟨10, 16⟩) SparesReplaced Network.empty retriedInTime :=
  ⟨by decide, timely_requests_spare_replaced (by decide)⟩

theorem network_safe_retried : Safe ⟨10, 16⟩
    (run (deliver ⟨10, 16⟩) Network.empty retriedInTime).cluster :=
  network_safe (by decide)

/-- The first request is only late. -/
def retriedTooEarly : List Message :=
  corruptCopy ++ [.claimDeletions 7, .send, .fail 22 "deadline exceeded",
    .claimDeletions 60, .send, .carryOut 1, .reply 61] ++ replaceCopy

/-- It is carried out after the repair and removes the new file. The replica row stays
AVAILABLE. -/
theorem late_request_removes_replaced :
    jobPair (run (deliver ⟨10, 16⟩) Network.empty retriedTooEarly).db 1 = none ∧
      (run (deliver ⟨10, 16⟩) Network.empty retriedTooEarly).files 10 "n1" = true ∧
      serves (run (deliver ⟨10, 16⟩) Network.empty retriedTooEarly).db 10 "n1" ∧
      (run (deliver ⟨10, 16⟩) Network.empty (retriedTooEarly ++ [.carryOut 0])).files 10 "n1" =
        false ∧
      serves (run (deliver ⟨10, 16⟩) Network.empty (retriedTooEarly ++ [.carryOut 0])).db 10
        "n1" := by
  decide

end Run

end FlexStore.Coordinator
