import FlexStore.Metadata.Operation
import FlexStore.Storage.Node
import FlexStore.Transition.Procedure

/-!
# One repair attempt

A worker claims a job, picks the first source and a destination, has the destination pull
the chunk from the source, verifies the copy and records it. A failed pull is meant to cost
the source its replica row: a source whose bytes do not match is demoted when the pull ends
with `FailedPrecondition`, and one that does not have the chunk at all is dropped after a
probe.

The status of a damaged source is lost on the way. The source ends its stream with
`FailedPrecondition`, which the destination's store wraps as a plain failure of its input,
so that the destination answers `Internal`; and the probe finds the file. The attempt fails
and the source stays what it was, the first choice of the next attempt.
-/

namespace FlexStore.Coordinator

open Digest Go Metadata Rpc Storage Transition

structure RepairConfig where
  owner : String
  leaseDuration : Duration
  maxAttempts : Int
  baseBackoff : Duration
  maxBackoff : Duration
  replicationFactor : Int

/-- The retry delay after the given attempt: doubled for each attempt, and capped. -/
def RepairConfig.backoffFor (cfg : RepairConfig) (attempts : Nat) : Duration :=
  let doubled := (List.range (attempts - 1)).foldl
    (fun d _ => if d < cfg.maxBackoff then d * 2 else d) cfg.baseBackoff
  if cfg.maxBackoff < doubled then cfg.maxBackoff else doubled

inductive PlacementError where
  | insufficientNodes
  | unavailable
  deriving DecidableEq, Repr

inductive RepairError where
  | noSource
  | noChecksum
  | placement (e : PlacementError)
  | replicate (code : Code)
  | verify (code : Code)
  | missing
  | wrongDigest
  | store (e : StoreError)
  deriving DecidableEq, Repr

/-- The metadata, and the visible file of each chunk on each node. -/
structure Plant where
  db : Database
  files : UUID → NodeID → Option Bytes

def Plant.setFile (w : Plant) (c : UUID) (n : NodeID) (file : Option Bytes) : Plant :=
  { w with files := fun c' n' => if c' = c ∧ n' = n then file else w.files c' n' }

/-- The strategy that picks a destination. It never picks an excluded node. -/
structure Placer where
  place : List NodeID → Except PlacementError NodeID
  outside : ∀ {exclude n}, place exclude = .ok n → n ∉ exclude

/-- How the call of `ReplicateChunk` goes: the destination answers, or the answer is lost and
the destination is left with any file. -/
inductive Pull where
  | served
  | lost (left : Option Bytes)

/-- What an attempt meets: the times of its store calls, the placement strategy, which nodes
can be reached, and the texts of the errors. -/
structure Attempt where
  claimedAt : Time
  plannedAt : Time
  reportedAt : Time
  finishedAt : Time
  placer : Placer
  pull : Pull
  sourceReachable : Bool
  probeReachable : Bool
  destinationReachable : Bool
  text : RepairError → String

abbrev Repairing := Procedure Plant RepairError

def storeCall {α : Type} (f : Database → Result (α × Database)) : Repairing α :=
  .within (·.db) (fun w db => { w with db }) .store (.transact f)

/-- A store call that returns nothing but an error. -/
def storeUpdate (f : Database → Result Database) : Repairing Unit :=
  storeCall fun db => (f db).map fun db => ((), db)

/-- `ReplicateChunk` on the destination, which reads the chunk from the source. -/
def pullChunk (env : Attempt) (target : RepairTarget) (sum : Checksum) (source : Replica)
    (dest : NodeID) : Repairing (Except Code Storage.WriteResult) := fun w =>
  match env.pull with
  | .lost left => (.ok (.error .unavailable), w.setFile target.chunkID dest left)
  | .served =>
    if source.address = "" then (.ok (.error .invalidArgument), w)
    else
      let stream := if env.sourceReachable then
          readChunk (w.files target.chunkID source.nodeID) (some sum)
        else ([], .leaf (.own (.status .unavailable)))
      let (answer, file) :=
        replicateChunk (w.files target.chunkID dest) stream target.size (some sum)
      (.ok answer, w.setFile target.chunkID dest file)

/-- Asks the source whether it has the chunk, and drops its replica row if it says no. -/
def reportPhantomSource (env : Attempt) (chunkID : UUID) (source : Replica) : Repairing Unit :=
  fun w =>
    if env.probeReachable ∧ (checkChunk (w.files chunkID source.nodeID) false).present = false
    then (Procedure.attempt (storeUpdate fun db => .ok (dropReplica chunkID source.nodeID db))) w
    else (.ok (), w)

/-- `CheckChunk` with verification on the destination. -/
def verifyCopy (env : Attempt) (target : RepairTarget) (sum : Checksum) (dest : NodeID) :
    Repairing Unit := fun w =>
  if env.destinationReachable then
    let check := checkChunk (w.files target.chunkID dest) true
    if check.present = false then (.error .missing, w)
    else if check.checksum ≠ some sum then (.error .wrongDigest, w)
    else (.ok (), w)
  else (.error (.verify .unavailable), w)

/-- Performs one copy: pick a source, pick a destination, pull the chunk, verify it, record
it. -/
def executeRepair (env : Attempt) (target : RepairTarget) : Repairing Unit :=
  if target.desiredReplicas ≤ 0 then
    storeUpdate (finishRepairAsNoop env.finishedAt target.jobID "already at full replication")
  else
    match target.sources, target.checksum with
    | [], _ => .fail .noSource
    | _, none => .fail .noChecksum
    | source :: _, some sum =>
      match env.placer.place target.occupied with
      | .error e =>
        let occupancy := target.transientOccupancy
        if e = .insufficientNodes ∧ 0 < occupancy then
          storeUpdate (finishRepairAsNoop env.finishedAt target.jobID
            s!"deferred: all {occupancy} candidate nodes hold a non-available replica row")
        else .fail (.placement e)
      | .ok dest => do
        storeUpdate fun db =>
          .ok (recordRepairPlan env.plannedAt target.jobID source.nodeID dest db)
        match ← pullChunk env target sum source dest with
        | .error code => do
          if code = .failedPrecondition then
            Procedure.attempt (storeCall (markReplicaCorrupt env.reportedAt target.chunkID
              source.nodeID
              ("failed verification during repair: " ++ env.text (.replicate code))))
          else reportPhantomSource env target.chunkID source
          .fail (.replicate code)
        | .ok _ => do
          verifyCopy env target sum dest
          let _ ← storeCall
            (completeRepair env.finishedAt target.jobID target.chunkID dest)
          pure ()

/-- Executes at most one job and returns whether there was one. A failed attempt is recorded
with its backoff. -/
def claimAndRepair (cfg : RepairConfig) (env : Attempt) : Repairing Bool := fun w =>
  match claimRepairJob env.claimedAt cfg.owner cfg.leaseDuration cfg.replicationFactor w.db with
  | .error .noRepairWork => (.ok false, w)
  | .error .notFound => (.ok true, w)
  | .error e => (.error (.store e), w)
  | .ok (target, db) =>
    match executeRepair env target { w with db } with
    | (.ok _, w) => (.ok true, w)
    | (.error e, w) =>
      (do
        let _ ← storeCall (failRepair env.finishedAt target.jobID (env.text e)
          (cfg.backoffFor target.attempts) cfg.maxAttempts)
        pure true : Repairing Bool) w

/-- What a claimed job offers as sources depends on the replicas and the nodes only. -/
theorem repairSources_congr {db db' : Database} (replicas : db'.replicas = db.replicas)
    (nodes : db'.nodes = db.nodes) (c : UUID) : repairSources db' c = repairSources db c := by
  unfold repairSources scanReplica
  rw [replicas, nodes]

theorem claimRepairJob_target {now : Time} {owner : String} {lease : Duration}
    {replicationFactor : Int} {target : RepairTarget} {db db' : Database}
    (h : claimRepairJob now owner lease replicationFactor db = .ok (target, db')) :
    target.sources = repairSources db target.chunkID ∧
      target.occupied = (db.replicas.select (·.chunkID = target.chunkID)).map (·.nodeID) ∧
      db'.replicas = db.replicas ∧ db'.nodes = db.nodes := by
  simp only [claimRepairJob, bind_eq_ok, pure_eq_ok, Prod.mk.injEq] at h
  obtain ⟨j, -, _, -, rfl, rfl⟩ := h
  exact ⟨rfl, rfl, rfl, rfl⟩

/-- A source has an AVAILABLE replica row. -/
theorem replica_of_mem_repairSources {db : Database} {c : UUID} {source : Replica}
    (offered : source ∈ repairSources db c) :
    ∃ r ∈ db.replicas.rows, r.chunkID = c ∧ r.nodeID = source.nodeID ∧ r.state = .available := by
  obtain ⟨r, sorted, rfl⟩ := List.mem_map.mp offered
  obtain ⟨listed, selected⟩ := List.mem_filter.mp ((List.mem_insertionSort _).mp sorted)
  simp only [Bool.and_eq_true, decide_eq_true_eq] at selected
  exact ⟨r, listed, selected.1.1, rfl, selected.1.2⟩

section Damaged

variable {env : Attempt} {target : RepairTarget} {sum : Checksum} {source : Replica}
  {dest : NodeID} {w : Plant} {bytes : Bytes}

/-- A stream that ends with a status is an input that fails: the destination answers
`Internal`, whatever the status was. -/
theorem replicateChunk_status {file : Option Bytes} {code : Code} {size : Int}
    (invalid : ∀ copy, file = some copy → sha256 copy ≠ sum) (sent : Bytes) :
    replicateChunk file (frames streamFrameSize sent.length sent, .leaf (.own (.status code)))
      size (some sum) = (.error .internal, file) := by
  have received := copy_frames (fun _ => copy_readChunkRead) sent
    (.leaf (.own (.status code)) : Storage.Error)
  have failed : (Go.Error.leaf (.own (.status code)) : Storage.Error).is .eof = false := rfl
  rw [failed, if_neg Bool.false_ne_true] at received
  unfold replicateChunk
  simp only [received, write_source_failed invalid]
  rfl

/-- Pulling from a damaged source fails, and never with the status that would demote it. -/
theorem pullChunk_damaged (file : w.files target.chunkID source.nodeID = some bytes)
    (damaged : sha256 bytes ≠ sum)
    (invalid : ∀ copy, w.files target.chunkID dest = some copy → sha256 copy ≠ sum) :
    ∃ code left, pullChunk env target sum source dest w =
        (.ok (.error code), w.setFile target.chunkID dest left) ∧ code ≠ .failedPrecondition := by
  have unchanged : w.setFile target.chunkID dest (w.files target.chunkID dest) = w := by
    cases w
    simp only [Plant.setFile, Plant.mk.injEq, true_and]
    funext c n
    split
    next same => rw [same.1, same.2]
    next => rfl
  unfold pullChunk
  split
  next left _ => exact ⟨.unavailable, left, rfl, by decide⟩
  next =>
    split
    next => exact ⟨.invalidArgument, w.files target.chunkID dest, by rw [unchanged], by decide⟩
    next =>
      refine ⟨.internal, w.files target.chunkID dest, ?_, by decide⟩
      cases env.sourceReachable with
      | true =>
        have other : sum ≠ sha256 bytes := damaged.symm
        have stream : readChunk (w.files target.chunkID source.nodeID) (some sum) =
            (frames streamFrameSize bytes.length bytes,
              .leaf (.own (.status .failedPrecondition))) := by
          simp [readChunk, file, other]
        simp only [if_true, stream, replicateChunk_status invalid bytes]
      | false =>
        simp only [Bool.false_eq_true, if_false]
        rw [show ([] : List Message) = frames streamFrameSize ([] : Bytes).length [] from rfl,
          replicateChunk_status invalid []]

/-- A source that has the file passes the probe. -/
theorem reportPhantomSource_present
    (file : w.files target.chunkID source.nodeID = some bytes) :
    reportPhantomSource env target.chunkID source w = (.ok (), w) := by
  simp [reportPhantomSource, file, checkChunk]

/-- An attempt with a damaged source fails after it has written its plan, and nothing else
of the metadata. -/
theorem executeRepair_damaged (short : 0 < target.desiredReplicas) {rest : List Replica}
    (chosen : target.sources = source :: rest) (recorded : target.checksum = some sum)
    (placed : env.placer.place target.occupied = .ok dest) (apart : dest ≠ source.nodeID)
    (file : w.files target.chunkID source.nodeID = some bytes) (damaged : sha256 bytes ≠ sum)
    (invalid : ∀ copy, w.files target.chunkID dest = some copy → sha256 copy ≠ sum) :
    ∃ code w', executeRepair env target w = (.error (.replicate code), w') ∧
      w'.db = recordRepairPlan env.plannedAt target.jobID source.nodeID dest w.db := by
  let planned : Plant :=
    { w with db := recordRepairPlan env.plannedAt target.jobID source.nodeID dest w.db }
  have plan : storeUpdate (fun db => .ok (recordRepairPlan env.plannedAt target.jobID
      source.nodeID dest db)) w = (.ok (), planned) := rfl
  obtain ⟨code, left, pulled, status⟩ : ∃ code left, pullChunk env target sum source dest planned =
      (.ok (.error code), planned.setFile target.chunkID dest left) ∧
        code ≠ .failedPrecondition := pullChunk_damaged file damaged invalid
  have kept : (planned.setFile target.chunkID dest left).files target.chunkID source.nodeID =
      some bytes := by
    simp only [Plant.setFile, true_and, if_neg apart.symm]
    exact file
  refine ⟨code, planned.setFile target.chunkID dest left, ?_, rfl⟩
  unfold executeRepair
  rw [if_neg (by omega)]
  simp only [chosen, recorded, placed]
  refine (Procedure.bind_of_ok plan).trans ((Procedure.bind_of_ok pulled).trans ?_)
  simp only [if_neg status]
  exact Procedure.bind_of_ok (reportPhantomSource_present kept)

end Damaged

/-- Recording a failure touches the job only. -/
theorem storeCall_failRepair (now : Time) (jobID : Nat) (cause : String) (backoff : Duration)
    (maxAttempts : Int) (w : Plant) :
    (storeCall (failRepair now jobID cause backoff maxAttempts) w).2.db.replicas =
        w.db.replicas ∧
      (storeCall (failRepair now jobID cause backoff maxAttempts) w).2.db.nodes = w.db.nodes := by
  unfold storeCall Procedure.within Procedure.transact
  cases out : failRepair now jobID cause backoff maxAttempts w.db with
  | error e => exact ⟨rfl, rfl⟩
  | ok result =>
    rcases result with ⟨terminal, db⟩
    simp only [failRepair, bind_eq_ok, pure_eq_ok, Prod.mk.injEq] at out
    obtain ⟨_, -, _, -, _, -, -, rfl⟩ := out
    exact ⟨rfl, rfl⟩

/-- For every attempt whose chosen source has a file without the recorded digest, whatever
can be reached: unless the destination has a valid copy already, the source's replica row
is AVAILABLE when the attempt ends, and every later claim offers the same sources. -/
theorem damaged_source_still_offered (cfg : RepairConfig) (env : Attempt) (w : Plant)
    {target : RepairTarget} {db : Database} {source : Replica} {rest : List Replica}
    {sum : Checksum} {dest : NodeID} {bytes : Bytes}
    (claimed : claimRepairJob env.claimedAt cfg.owner cfg.leaseDuration cfg.replicationFactor
      w.db = .ok (target, db)) (short : 0 < target.desiredReplicas)
    (chosen : target.sources = source :: rest) (recorded : target.checksum = some sum)
    (placed : env.placer.place target.occupied = .ok dest)
    (file : w.files target.chunkID source.nodeID = some bytes) (damaged : sha256 bytes ≠ sum)
    (invalid : ∀ copy, w.files target.chunkID dest = some copy → sha256 copy ≠ sum) :
    (claimAndRepair cfg env w).2.db.replicaState target.chunkID source.nodeID =
        some .available ∧
      ∀ now owner lease replicationFactor later after,
        claimRepairJob now owner lease replicationFactor (claimAndRepair cfg env w).2.db =
          .ok (later, after) →
        later.chunkID = target.chunkID → later.sources = target.sources := by
  obtain ⟨sources, occupied, replicas, nodes⟩ := claimRepairJob_target claimed
  obtain ⟨r, listed, chunk, node, available⟩ := replica_of_mem_repairSources
    (sources ▸ chosen ▸ List.mem_cons_self : source ∈ repairSources w.db target.chunkID)
  have apart : dest ≠ source.nodeID := by
    rintro rfl
    refine env.placer.outside placed (occupied ▸ List.mem_map.mpr ⟨r, ?_, node⟩)
    exact List.mem_filter.mpr ⟨listed, decide_eq_true chunk⟩
  obtain ⟨code, w', failed, plan⟩ := executeRepair_damaged (w := { w with db }) short chosen
    recorded placed apart file damaged invalid
  -- The failure is recorded or refused; the replicas and the nodes are those of the claim.
  have frame : (claimAndRepair cfg env w).2.db.replicas = w.db.replicas ∧
      (claimAndRepair cfg env w).2.db.nodes = w.db.nodes := by
    have before : w'.db.replicas = w.db.replicas ∧ w'.db.nodes = w.db.nodes := by
      rw [plan]
      exact ⟨replicas, nodes⟩
    unfold claimAndRepair
    simp only [claimed, failed, Procedure.bind_pure_state]
    rw [← before.1, ← before.2]
    exact storeCall_failRepair ..
  constructor
  · exact replicaState_eq_some.mpr ⟨r, frame.1 ▸ listed, chunk, node, available⟩
  · intro now owner lease replicationFactor later after again same
    rw [(claimRepairJob_target again).1, same, repairSources_congr frame.1 frame.2, sources]

/-- A chunk with two copies and a third node without one. The copy on the first node has
rotted. -/
def rottenCopy : Plant where
  db := run step Database.empty
    [⟨0, .upsertNode "n1" "n1:9000" .healthy {} 0⟩, ⟨0, .upsertNode "n2" "n2:9000" .healthy {} 0⟩,
      ⟨0, .upsertNode "n3" "n3:9000" .healthy {} 0⟩, ⟨1, .beginUpload 1 "b" "k" "" 8⟩,
      ⟨2, .reserveChunk 10 ⟨some 1, none⟩ 0 1⟩, ⟨3, .recordChunkTargets 10 ["n1", "n2"]⟩,
      ⟨4, .commitChunk 10 (sha256 [1]) 1 ["n1", "n2"] [] 2⟩, ⟨5, .completeUpload 1 1 1 "e"⟩,
      ⟨6, .enqueueRepairs 3 10⟩]
  files c n := if c = 10 then
      if n = "n1" then some [2] else if n = "n2" then some [1] else none
    else none

/-- The first of the three nodes that is not excluded. -/
def firstOfThree : Placer where
  place exclude :=
    match ["n1", "n2", "n3"].find? (· ∉ exclude) with
    | some n => .ok n
    | none => .error .insufficientNodes
  outside := by
    intro exclude n h
    split at h
    next found =>
      cases h
      simpa using List.find?_some found
    next => cases h

def reachableAt (now : Time) : Attempt where
  claimedAt := now
  plannedAt := now + 1
  reportedAt := now + 2
  finishedAt := now + 3
  placer := firstOfThree
  pull := .served
  sourceReachable := true
  probeReachable := true
  destinationReachable := true
  text
    | .replicate .internal => "rpc error: code = Internal"
    | _ => "repair failed"

def threeCopies : RepairConfig := ⟨"w1", 60, 5, 2, 30, 3⟩

theorem damaged_source_still_offered_rottenCopy :
    (claimAndRepair threeCopies (reachableAt 10) rottenCopy).2.db.replicaState 10 "n1" =
      some .available := by
  have destination : (reachableAt 10).placer.place ["n1", "n2"] = .ok "n3" := by decide +kernel
  have file : rottenCopy.files 10 "n1" = some [2] := rfl
  exact (damaged_source_still_offered threeCopies (reachableAt 10) rottenCopy rfl
    (by decide +kernel) rfl rfl destination file (by decide +kernel) (by decide +kernel)).1

/-- What an attempt was given to choose from and what it left behind: the sources, the state
of the row of the first node, and the state and the error of the job. -/
def outcome (now : Time) (w : Plant) :
    List NodeID × Option ReplicaState × Option (JobState × Option String) :=
  let after := (claimAndRepair threeCopies (reachableAt now) w).2
  ((repairSources w.db 10).map (·.nodeID), after.db.replicaState 10 "n1",
    (after.db.repairJobs.find? 1).map fun j => (j.state, j.lastError))

/-- With one good source and one bad one, two attempts in a row fail because of the bad one,
which is AVAILABLE as before. -/
theorem rotten_source_retried :
    outcome 10 rottenCopy = (["n1", "n2"], some .available,
        some (.pending, some "rpc error: code = Internal")) ∧
      outcome 20 (claimAndRepair threeCopies (reachableAt 10) rottenCopy).2 =
        (["n1", "n2"], some .available, some (.pending, some "rpc error: code = Internal")) := by
  decide +kernel

end FlexStore.Coordinator
