import FlexStore.Metadata.Integrity
import FlexStore.Metadata.Owners
import FlexStore.Storage.Node

/-!
# The reconciler

A reconciliation compares what the metadata records for a node with what the node says it
has: it reads the chunks known on the node, receives the inventory, queues the files that
no row accounts for, and then goes through the STALE replicas page by page. A copy that is
not in the inventory loses its row, one that verifies is promoted and any other is demoted
and queued for removal. Between two of these steps anything else can happen, and neither
the inventory nor the answers of the node are assumed to be of any particular kind.

STALE is meant for the copies that a node had before it was away. A write in flight is
WRITING, which is not made STALE; but when its node is declared DEAD it is UNAVAILABLE, and
when the node returns it is STALE like any other, and the reconciler takes the copy of a
chunk that is still being uploaded for a missing or a damaged one.
-/

namespace FlexStore.Coordinator.Reconcile

open Relational Transition FlexStore.Metadata FlexStore.Metadata.View Storage

structure ReconcileConfig where
  owner : String
  leaseDuration : Duration
  pageSize : Nat
  verifyChecksums : Bool

inductive Stage where
  | claimed
  | listing (known : List UUID)
  | orphans (onDisk left : List UUID)
  | paging (onDisk : List UUID) (after : UUID)
  | verifying (onDisk : List UUID) (left : List StaleReplicaOnNode) (short : Bool)
  | done
  | failing

/-- A reconciliation in progress and its findings so far. -/
structure Inspection where
  job : ReconcileJob
  result : ReconcileResult
  stage : Stage

structure State where
  db : Database
  inspection : Option Inspection

def State.empty : State := ⟨Database.empty, none⟩

/-- What can happen next: a store call of anyone else, a step of the reconciler, the end of
its deadline or a restart. The inventory and the answer of the node are `none` when the
request failed. -/
inductive Event where
  | call (call : Call)
  | claim (now : Time)
  | known
  | inventory (listed : Option (List UUID))
  | orphan (now : Time)
  | page
  | verify (now : Time) (answer : Option CheckResult)
  | finish (now : Time) (cause : String)
  | timeout
  | restart

def Event.reconciles : Event → Bool
  | .call _ => false
  | _ => true

/-- `verifyReplica` with the answer of the node. -/
def verifyReplica (cfg : ReconcileConfig) (rep : StaleReplicaOnNode) (check : CheckResult) : Bool :=
  check.present && check.sizeBytes = rep.size &&
    (!cfg.verifyChecksums || (rep.checksum.isSome && check.checksum = rep.checksum))

/-- Reads the page of STALE replicas behind `after`. -/
def readPage (cfg : ReconcileConfig) (job : ReconcileJob) (onDisk : List UUID) (after : UUID)
    (db : Database) : Stage :=
  let stale := staleReplicasOnNode job.nodeID after cfg.pageSize db
  if stale = [] then .done else .verifying onDisk stale (stale.length < cfg.pageSize)

/-- Where the reconciliation stands when the first replica of a page is dealt with. -/
def nextReplica (onDisk : List UUID) (rep : StaleReplicaOnNode) (rest : List StaleReplicaOnNode)
    (short : Bool) : Stage :=
  if rest ≠ [] then .verifying onDisk rest short
  else if short then .done
  else .paging onDisk rep.chunkID

def reconcileReplica (cfg : ReconcileConfig) (now : Time) (answer : Option CheckResult)
    (i : Inspection) (onDisk : List UUID) (rep : StaleReplicaOnNode)
    (rest : List StaleReplicaOnNode) (short : Bool) (db : Database) : Database × Inspection :=
  let next := nextReplica onDisk rep rest short
  if rep.chunkID ∉ onDisk then
    (dropReplica rep.chunkID i.job.nodeID db,
      { i with
        stage := next
        result := { i.result with phantomsFound := i.result.phantomsFound + 1 } })
  else
    match answer with
    | none => (db, { i with stage := .failing })
    | some check =>
      if verifyReplica cfg rep check then
        let (promoted, db) := promoteVerifiedReplica now rep.chunkID i.job.nodeID db
        (db, { i with
          stage := next
          result := { i.result with verified := i.result.verified + promoted.toNat } })
      else
        match markReplicaCorrupt now rep.chunkID i.job.nodeID
          "failed verification during reconciliation" db with
        | .error _ => (db, { i with stage := .failing })
        | .ok (_, db) => (db,
            { i with
              stage := next
              result := { i.result with corruptFound := i.result.corruptFound + 1 } })

def advance (cfg : ReconcileConfig) (i : Inspection) (db : Database) :
    Event → Database × Option Inspection
  | .known =>
    match i.stage with
    | .claimed => (db, some { i with
        stage := .listing ((chunkIDsKnownOnNode i.job.nodeID db).map (·.1)) })
    | _ => (db, some i)
  | .inventory listed =>
    match i.stage, listed with
    | .listing known, some ids => (db, some { i with
        stage := .orphans ids.dedup (ids.dedup.filter (· ∉ known))
        result := { i.result with chunksSeen := i.result.chunksSeen + ids.length } })
    | .listing _, none => (db, some { i with stage := .failing })
    | _, _ => (db, some i)
  | .orphan now =>
    match i.stage with
    | .orphans onDisk (id :: left) =>
      let (queued, db) := queueOrphanDeletion now id i.job.nodeID db
      (db, some { i with
        stage := .orphans onDisk left
        result := { i.result with orphansFound := i.result.orphansFound + queued.toNat } })
    | _ => (db, some i)
  | .page =>
    match i.stage with
    | .orphans onDisk [] => (db, some { i with stage := readPage cfg i.job onDisk 0 db })
    | .paging onDisk after => (db, some { i with stage := readPage cfg i.job onDisk after db })
    | _ => (db, some i)
  | .verify now answer =>
    match i.stage with
    | .verifying onDisk (rep :: rest) short =>
      let (db, i) := reconcileReplica cfg now answer i onDisk rep rest short db
      (db, some i)
    | _ => (db, some i)
  | .finish now cause =>
    match i.stage with
    | .done => (completeReconcile now i.job.id i.result db, none)
    | .failing =>
      match failReconcile now i.job.id cause db with
      | .ok db => (db, none)
      | .error _ => (db, none)
    | _ => (db, some i)
  | .timeout => (db, some { i with stage := .failing })
  | _ => (db, some i)

def act (cfg : ReconcileConfig) (s : State) (e : Event) : State :=
  match e, s.inspection with
  | .call call, _ => { s with db := step s.db call }
  | .restart, _ => { s with inspection := none }
  | .claim now, none =>
    match claimReconcileJob now cfg.owner cfg.leaseDuration s.db with
    | .ok (job, db) => ⟨db, some ⟨job, {}, if job.address = "" then .failing else .claimed⟩⟩
    | .error _ => s
  | _, none => s
  | e, some i =>
    let (db, inspection) := advance cfg i s.db e
    ⟨db, inspection⟩

/-- The chunk is PENDING and its upload is still open. -/
def inFlight (db : Database) (c : UUID) : Bool :=
  (db.chunks.find? c).any fun row => row.state = .pending && db.accepting row.owner

/-- A step leaves the copies of chunks in flight as they are: no row is dropped or changed,
and no removal is queued. -/
def Spared (s s' : State) : Prop :=
  ∀ c n, inFlight s.db c → s'.db.replicaState c n = s.db.replicaState c n ∧
    (s'.db.queued c n → s.db.queued c n)

/-- No copy of a chunk in flight is STALE, and no step of the reconciler touches one. -/
def Undisturbed (cfg : ReconcileConfig) (s : State) : Prop :=
  (∀ c n, inFlight s.db c → s.db.replicaState c n ≠ some .stale) ∧
    ∀ e, e.reconciles → Spared s (act cfg s e)

/-- The chunks that the reconciler has read as STALE and not dealt with yet. -/
def Stage.inHand : Stage → List UUID
  | .verifying _ left _ => left.map (·.chunkID)
  | _ => []

@[inherit_doc Stage.inHand]
def State.inHand (s : State) : List UUID := s.inspection.elim [] (·.stage.inHand)

/-- The call allocates the chunk, for the first time or again. -/
def opens (db : Database) (c : UUID) : Op → Bool
  | .reserveChunk newID own index _ => newID = c ||
      (db.chunks.find? c).any fun row => some row.owner = own.single && row.index = index.toNat
  | _ => false

/-- The call declares a node failed that is serving or receiving a copy of a chunk in flight,
or allocates a chunk again that has an UNAVAILABLE or STALE copy or is in the reconciler's
hand. -/
def disturbs (s : State) : Event → Bool
  | .call call => (s.db.replicas.rows.any fun r =>
    (call.op.fails r.nodeID && (r.state = .available || r.state = .writing) &&
      inFlight s.db r.chunkID) ||
    (opens s.db r.chunkID call.op && (r.state = .unavailable || r.state = .stale))) ||
    s.inHand.any fun c => opens s.db c call.op
  | _ => false

section Store

variable {db db' : Database} {call : Call} {r : Reply} {c : UUID} {n : NodeID}

theorem inFlight_iff : inFlight db c ↔ ∃ row, db.view.chunks c = some row ∧
    row.state = .pending ∧ db.view.status row.owner = .accepting := by
  simp only [inFlight, Option.any_eq_true, Bool.and_eq_true, decide_eq_true_eq, accepting_iff]
  rfl

/-- A chunk in flight was in flight before, or the call allocates it. -/
theorem inFlight_cases (h : exec call db = .ok (r, db')) (consistent : db.view.Consistent)
    (after : inFlight db' c) : inFlight db c ∨ opens db c call.op := by
  have change := exec_change h
  obtain ⟨row, found, pending, accepting⟩ := inFlight_iff.mp after
  have moves := change.status_moves consistent row.owner
  have kept (lookup : db.view.chunks c = some row) : inFlight db c := by
    refine inFlight_iff.mpr ⟨row, lookup, pending, ?_⟩
    have present := consistent.chunk_owner lookup
    rw [accepting] at moves
    generalize db.view.status row.owner = s at moves present
    cases s <;> simp_all [OwnerStatus.Moves]
  have move := change.chunk_move c
  rw [found] at move
  generalize before : db.view.chunks c = old at move
  cases move with
  | same => exact Or.inl (kept before)
  | reserved _ _ _ run => exact Or.inr (by simp [run, opens])
  | reset newID own index size run =>
    rename_i old writable
    obtain ⟨now, op⟩ := call
    obtain rfl : op = _ := run
    obtain ⟨id, effect, -⟩ := answer_eq_ok.mp h
    obtain ⟨owner, single, -, taken | ⟨rfl, fresh, -, view⟩⟩ := reserveChunk_ok effect
    · obtain ⟨row', lookup, mine, position, view⟩ := taken
      by_cases same : c = id
      · subst same
        refine Or.inr ?_
        have lookup : db.chunks.find? c = some row' := lookup
        simp [opens, lookup, mine, position, single]
      · rw [view] at found
        exact Or.inl (kept ((Function.update_of_ne same _ _).symm.trans found))
    · by_cases same : c = id
      · exact Or.inr (by simp [opens, same])
      · rw [view] at found
        exact Or.inl (kept ((Function.update_of_ne same _ _).symm.trans found))
  | committed | orphaned => cases pending
  | assembled _ _ _ _ committed => simp [committed] at pending

/-- Copies of chunks in flight are neither UNAVAILABLE nor STALE. -/
def Settled (db : Database) : Prop :=
  ∀ c n, inFlight db c →
    db.replicaState c n ≠ some .unavailable ∧ db.replicaState c n ≠ some .stale

/-- An allocation does not touch the replicas. -/
theorem slots_of_opens (h : exec call db = .ok (r, db')) (open_ : opens db c call.op) :
    db'.view.slots = db.view.slots := by
  obtain ⟨now, op⟩ := call
  cases op with
  | reserveChunk =>
    obtain ⟨id, effect, -⟩ := answer_eq_ok.mp h
    obtain ⟨owner, -, -, ⟨_, -, -, -, view⟩ | ⟨-, -, -, view⟩⟩ := reserveChunk_ok effect
    · rw [view]
    · rw [view]
  | _ => cases open_

/-- The store keeps the copies of chunks in flight as they should be, if no node that has
one is declared failed and no chunk with a copy of the wrong kind is allocated. -/
theorem settled_exec (h : exec call db = .ok (r, db')) (consistent : db.view.Consistent)
    (settled : Settled db)
    (up : ∀ x ∈ db.replicas.rows, call.op.fails x.nodeID →
      x.state = .available ∨ x.state = .writing → ¬inFlight db x.chunkID)
    (clean : ∀ x ∈ db.replicas.rows, opens db x.chunkID call.op →
      ¬(x.state = .unavailable ∨ x.state = .stale)) : Settled db' := by
  have change := exec_change h
  -- The copy is looked up in the state before the call, where its row is known.
  have calm {c : UUID} {n : NodeID} {x : ReplicaState} (flying : inFlight db' c)
      (wrong : x = .unavailable ∨ x = .stale) : db'.replicaState c n ≠ some x := by
    intro held
    rcases inFlight_cases h consistent flying with before | open_
    · have kept := settled c n before
      cases change.copy_origin consistent held with
      | kept same => rcases wrong with rfl | rfl <;> simp [same] at kept
      | demoted fails state =>
        rcases state with state | state
        · obtain ⟨y, listed, rfl, rfl, same⟩ := replicaState_eq_some.mp state
          exact up y listed fails (Or.inl same) before
        · obtain ⟨y, listed, rfl, rfl, same⟩ := replicaState_eq_some.mp state
          exact up y listed fails (Or.inr same) before
      | staled state => exact kept.1 state
      | refused run =>
        rw [run] at change
        obtain ⟨now, old, -, -, -, chunks, -⟩ := change.commit
        obtain ⟨new, found, pending, -⟩ := inFlight_iff.mp flying
        rw [chunks, Function.update_self] at found
        obtain rfl := Option.some.inj found
        cases pending
      | _ => simp at wrong
    · have same : db'.replicaState c n = db.replicaState c n :=
        congrArg Slot.replica (congrFun₂ (slots_of_opens h open_) c n)
      obtain ⟨y, listed, rfl, rfl, rfl⟩ := replicaState_eq_some.mp (same ▸ held)
      exact clean y listed open_ wrong
  exact fun c n flying => ⟨calm flying (Or.inl rfl), calm flying (Or.inr rfl)⟩

end Store

/-- What a step of the reconciler can do to the metadata: nothing, queue a file that no row
accounts for, or settle a replica it has in hand. -/
inductive Deed (s s' : State) : Prop
  | read (view : s'.db.view = s.db.view)
      (hand : ∀ c ∈ s'.inHand, c ∈ s.inHand ∨ ∃ n, s.db.replicaState c n = some .stale)
  | orphaned (now : Time) (id : UUID) (n : NodeID)
      (effect : s'.db = (queueOrphanDeletion now id n s.db).2) (hand : s'.inHand = [])
  | settled (c : UUID) (n : NodeID) (member : c ∈ s.inHand) (call : Call) (reply : Reply)
      (names : call.op = .dropReplica c n ∨ call.op = .promoteVerifiedReplica c n ∨
        ∃ detail, call.op = .markReplicaCorrupt c n detail)
      (h : exec call s.db = .ok (reply, s'.db)) (hand : s'.inHand ⊆ s.inHand)

section Deed

variable {cfg : ReconcileConfig} {s : State}

/-- A page holds STALE replicas of the node. -/
theorem inHand_readPage {job : ReconcileJob} {onDisk : List UUID} {after : UUID} {db : Database}
    {c : UUID} (member : c ∈ (readPage cfg job onDisk after db).inHand) :
    db.replicaState c job.nodeID = some .stale := by
  have listed : c ∈ (staleReplicasOnNode job.nodeID after cfg.pageSize db).map (·.chunkID) := by
    unfold readPage at member
    dsimp only at member
    split at member
    · cases member
    · exact member
  obtain ⟨rep, inPage, rfl⟩ := List.mem_map.mp listed
  obtain ⟨row, taken, rfl⟩ := List.mem_map.mp inPage
  obtain ⟨-, selected⟩ := List.mem_filter.mp
    ((List.mem_insertionSort _).mp (List.mem_of_mem_take taken))
  simp only [Bool.and_eq_true, Option.any_eq_true, decide_eq_true_eq] at selected
  obtain ⟨-, copy, lookup, stale⟩ := selected
  exact (congrArg (Option.map _) lookup).trans (congrArg some stale)

theorem inHand_nextReplica {onDisk : List UUID} {rep : StaleReplicaOnNode}
    {rest : List StaleReplicaOnNode} {short : Bool} :
    (nextReplica onDisk rep rest short).inHand ⊆ rest.map (·.chunkID) := by
  unfold nextReplica
  split
  · exact List.Subset.refl _
  · split
    · exact List.nil_subset _
    · exact List.nil_subset _

theorem deed_reconcileReplica {now : Time} {answer : Option CheckResult} {i : Inspection}
    {onDisk : List UUID} {rep : StaleReplicaOnNode} {rest : List StaleReplicaOnNode}
    {short : Bool} (inspection : s.inspection = some i)
    (stage : i.stage = .verifying onDisk (rep :: rest) short) :
    Deed s ⟨(reconcileReplica cfg now answer i onDisk rep rest short s.db).1,
      some (reconcileReplica cfg now answer i onDisk rep rest short s.db).2⟩ := by
  have hand : s.inHand = rep.chunkID :: rest.map (·.chunkID) := by
    simp [State.inHand, inspection, stage, Stage.inHand]
  have first : rep.chunkID ∈ s.inHand := by simp [hand]
  have rest_ : (nextReplica onDisk rep rest short).inHand ⊆ s.inHand := fun c member =>
    hand ▸ List.mem_cons_of_mem _ (inHand_nextReplica member)
  unfold reconcileReplica
  dsimp only
  split
  · exact .settled rep.chunkID i.job.nodeID first ⟨now, .dropReplica _ _⟩ .done (Or.inl rfl) rfl
      rest_
  · split
    · exact .read rfl fun c member => nomatch member
    · split
      · exact .settled rep.chunkID i.job.nodeID first ⟨now, .promoteVerifiedReplica _ _⟩ _
          (Or.inr (Or.inl rfl)) rfl rest_
      · split
        · exact .read rfl fun c member => nomatch member
        · next remaining db h =>
            have demoted : exec ⟨now, .markReplicaCorrupt rep.chunkID i.job.nodeID
                "failed verification during reconciliation"⟩ s.db =
                  .ok (.available remaining, db) :=
              answer_eq_ok.mpr ⟨remaining, h, rfl⟩
            exact .settled rep.chunkID i.job.nodeID first _ _ (Or.inr (Or.inr ⟨_, rfl⟩)) demoted
              rest_

theorem deed_advance {i : Inspection} (inspection : s.inspection = some i) (e : Event) :
    Deed s ⟨(advance cfg i s.db e).1, (advance cfg i s.db e).2⟩ := by
  have idle : Deed s ⟨s.db, some i⟩ := by
    rw [← inspection]
    exact .read rfl fun c member => Or.inl member
  have dropped (db : Database) (view : db.view = s.db.view) : Deed s ⟨db, none⟩ :=
    .read view fun c member => nomatch member
  cases e with
  | known =>
    simp only [advance]
    split
    · exact .read rfl fun c member => nomatch member
    · exact idle
  | inventory listed =>
    simp only [advance]
    split
    · exact .read rfl fun c member => nomatch member
    · exact .read rfl fun c member => nomatch member
    · exact idle
  | orphan now =>
    simp only [advance]
    split
    · exact .orphaned now _ i.job.nodeID rfl rfl
    · exact idle
  | page =>
    simp only [advance]
    split
    · exact .read rfl fun c member => Or.inr ⟨_, inHand_readPage member⟩
    · exact .read rfl fun c member => Or.inr ⟨_, inHand_readPage member⟩
    · exact idle
  | verify now answer =>
    simp only [advance]
    split
    · next stage => exact deed_reconcileReplica inspection stage
    · exact idle
  | finish now cause =>
    simp only [advance]
    split
    · exact dropped _ rfl
    · split
      · next db h =>
          simp only [failReconcile, bind_eq_ok, pure_eq_ok] at h
          obtain ⟨_, -, rfl⟩ := h
          exact dropped _ rfl
      · exact dropped _ rfl
    · exact idle
  | timeout => exact .read rfl fun c member => nomatch member
  | call | claim | restart => exact idle

/-- Every step of the reconciler is one of these. -/
theorem deed_act {e : Event} (reconciles : e.reconciles) : Deed s (act cfg s e) := by
  unfold act
  split
  next => cases reconciles
  next => exact .read rfl fun c member => nomatch member
  next =>
    split
    next job db h =>
      simp only [claimReconcileJob, bind_eq_ok, pure_eq_ok, Prod.mk.injEq] at h
      obtain ⟨_, -, rfl, rfl⟩ := h
      refine .read rfl fun c member => ?_
      dsimp only [State.inHand, Option.elim_some] at member
      split at member
      · cases member
      · cases member
    next => exact .read rfl fun c member => Or.inl member
  next => exact .read rfl fun c member => Or.inl member
  next i _ _ inspection => exact deed_advance inspection _

end Deed

/-- The invariant: chunks in flight have no UNAVAILABLE or STALE copy, and the reconciler has
none of them in hand. -/
structure Orderly (s : State) : Prop where
  consistent : s.db.view.Consistent
  settled : Settled s.db
  aside : ∀ c ∈ s.inHand, ¬inFlight s.db c

namespace Orderly

variable {cfg : ReconcileConfig} {s s' : State}

/-- A store call that disturbs nothing keeps the invariant, if the reconciler takes nothing
else in hand. -/
theorem exec {call : Call} {r : Reply} (orderly : Orderly s)
    (h : exec call s.db = .ok (r, s'.db)) (calm : disturbs s (.call call) = false)
    (hand : s'.inHand ⊆ s.inHand) : Orderly s' := by
  simp only [disturbs, Bool.or_eq_false_iff, List.any_eq_false] at calm
  obtain ⟨rows, unopened⟩ := calm
  refine ⟨(exec_change h).consistent orderly.consistent, ?_, fun c member flying => ?_⟩
  · refine settled_exec h orderly.consistent orderly.settled (fun x listed fails state => ?_)
      fun x listed open_ state => ?_
    · intro flying
      exact rows x listed (by rcases state with state | state <;> simp [fails, state, flying])
    · exact rows x listed (by rcases state with state | state <;> simp [open_, state])
  · rcases inFlight_cases h orderly.consistent flying with before | open_
    · exact orderly.aside c (hand member) before
    · exact unopened c (hand member) open_

theorem deed (orderly : Orderly s) (deed : Deed s s') : Orderly s' := by
  cases deed with
  | read view hand =>
    have flying (c : UUID) : inFlight s'.db c ↔ inFlight s.db c := by
      rw [inFlight_iff, inFlight_iff, view]
    have same (c : UUID) (n : NodeID) : s'.db.replicaState c n = s.db.replicaState c n :=
      congrArg (fun v : View => (v.slots c n).replica) view
    refine ⟨view ▸ orderly.consistent, fun c n up => ?_, fun c member up => ?_⟩
    · rw [same]
      exact orderly.settled c n ((flying c).mp up)
    · rcases hand c member with held | ⟨n, stale⟩
      · exact orderly.aside c held ((flying c).mp up)
      · exact (orderly.settled c n ((flying c).mp up)).2 stale
  | orphaned now id n effect hand =>
    have h : Metadata.exec ⟨now, .queueOrphanDeletion id n⟩ s.db =
        .ok (.flag (queueOrphanDeletion now id n s.db).1, s'.db) := by
      rw [effect]
      rfl
    exact orderly.exec h (by simp [disturbs, opens, Op.fails]) (by simp [hand])
  | settled c n member call reply names h hand =>
    refine orderly.exec h ?_ hand
    rcases names with names | names | ⟨detail, names⟩ <;>
      simp [disturbs, opens, Op.fails, names]

theorem act {e : Event} (orderly : Orderly s) (calm : disturbs s e = false) :
    Orderly (act cfg s e) := by
  cases e with
  | call call =>
    refine step_cases (R := fun db => Orderly { s with db }) orderly fun r db h => ?_
    exact orderly.exec h calm (List.Subset.refl _)
  | _ => exact orderly.deed (deed_act rfl)

/-- A step of the reconciler spares the chunks in flight. -/
theorem spared (orderly : Orderly s) (deed : Deed s s') : Spared s s' := by
  intro c n flying
  change (s'.db.view.slots c n).replica = (s.db.view.slots c n).replica ∧
    ((s'.db.view.slots c n).queued → (s.db.view.slots c n).queued)
  suffices same : s'.db.view.slots c n = s.db.view.slots c n by simp [same]
  cases deed with
  | read view => rw [view]
  | orphaned now id m effect =>
    rw [effect, view_queueOrphanDeletion]
    split
    next free =>
      have other : ¬(id = c ∧ m = n) := by
        rintro ⟨rfl, rfl⟩
        obtain ⟨row, found, pending, -⟩ := inFlight_iff.mp flying
        have lookup : s.db.chunks.find? id = some row := found
        simp [unaccounted, lookup, pending] at free
      simp only [View.enqueue, decide_eq_false other, Bool.or_false]
    next => rfl
  | settled k m member call reply names h =>
    have other : c ≠ k := fun same => orderly.aside k member (same ▸ flying)
    have other' : k ≠ c := other.symm
    obtain ⟨now, op⟩ := call
    rcases names with names | names | ⟨detail, names⟩
    · obtain rfl : op = _ := names
      obtain ⟨effect, -⟩ := silent_eq_ok.mp h
      rw [← Except.ok.inj effect, view_dropReplica]
      simp [View.dropReplicas, other, filter_keep]
    · obtain rfl : op = _ := names
      obtain ⟨promoted, effect, -⟩ := answer_eq_ok.mp h
      have db : (promoteVerifiedReplica now k m s.db).2 = s'.db :=
        congrArg Prod.snd (Except.ok.inj effect)
      rw [← db, view_promoteVerifiedReplica, slot_mapReplicas]
      simp [other]
    · obtain rfl : op = _ := names
      obtain ⟨remaining, effect, -⟩ := answer_eq_ok.mp h
      rw [(markReplicaCorrupt_ok effect).2]
      simp [View.enqueue, View.mapReplicas, other, other']

end Orderly

theorem orderly_empty : Orderly State.empty where
  consistent := consistent_empty
  settled c n flying := by simp [inFlight, State.empty, Database.empty] at flying
  aside c member := by cases member

/-- For every order of store calls and steps of the reconciler, whatever the node answers: if
no node is declared failed while it serves or receives a copy of a PENDING chunk of an open
upload, and no chunk is allocated again that has an UNAVAILABLE or STALE copy or is in the
reconciler's hand, then no copy of a PENDING chunk of an open upload is ever STALE, and the
reconciler never drops one, changes its state or queues its file. -/
theorem reconciler_spares_writes {cfg : ReconcileConfig} {events : List Event}
    (calm : Guarded (act cfg) (fun s e => disturbs s e = false) State.empty events) :
    Always (act cfg) (Undisturbed cfg) State.empty events := by
  have orderly : Always (act cfg) Orderly State.empty events :=
    always_of_preserved (fun _ _ orderly allowed => orderly.act allowed) orderly_empty calm
  refine orderly.mono fun s orderly => ⟨fun c n flying => (orderly.settled c n flying).2, ?_⟩
  exact fun e reconciles => orderly.spared (deed_act reconciles)

def oneByOne : ReconcileConfig := ⟨"c1", 60, 1, true⟩

/-- Two nodes and an upload of two chunks, the first of them committed. -/
def halfUploaded : List Event :=
  [.call ⟨0, .upsertNode "n1" "n1:9000" .healthy {} 0⟩,
    .call ⟨0, .upsertNode "n2" "n2:9000" .healthy {} 0⟩,
    .call ⟨1, .beginUpload 1 "b" "k" "" 8⟩, .call ⟨2, .reserveChunk 10 ⟨some 1, none⟩ 0 8⟩,
    .call ⟨3, .recordChunkTargets 10 ["n1", "n2"]⟩,
    .call ⟨4, .commitChunk 10 5 8 ["n1", "n2"] [] 2⟩,
    .call ⟨5, .reserveChunk 11 ⟨some 1, none⟩ 1 8⟩]

/-- A node is away between the two chunks, and is reconciled while the second one is being
written to it. -/
def returnBetween : List Event :=
  halfUploaded ++ [.call ⟨6, .setNodeHealth "n1" .dead⟩, .call ⟨7, .setNodeHealth "n1" .healthy⟩,
    .call ⟨7, .markReplicasStaleOnNode "n1"⟩, .call ⟨7, .enqueueReconcile "n1"⟩,
    .call ⟨8, .recordChunkTargets 11 ["n1", "n2"]⟩, .claim 9, .known, .inventory (some [10, 11]),
    .page, .verify 10 (some ⟨true, 8, some 5, true⟩), .page, .finish 11 ""]

theorem reconciler_spares_writes_returnBetween :
    (run (act oneByOne) State.empty returnBetween).db.replicaState 10 "n1" = some .available ∧
      inFlight (run (act oneByOne) State.empty returnBetween).db 11 ∧
      Always (act oneByOne) (Undisturbed oneByOne) State.empty returnBetween :=
  ⟨by decide +kernel, by decide +kernel, reconciler_spares_writes (by decide +kernel)⟩

/-- A node is away for a moment while the second chunk is being written to it. -/
def returnDuring : List Event :=
  halfUploaded ++ [.call ⟨6, .recordChunkTargets 11 ["n1", "n2"]⟩,
    .call ⟨7, .setNodeHealth "n1" .dead⟩, .call ⟨8, .setNodeHealth "n1" .healthy⟩,
    .call ⟨8, .markReplicasStaleOnNode "n1"⟩, .call ⟨8, .enqueueReconcile "n1"⟩]

/-- The node is reconciled: its inventory, and its answer about the second chunk. -/
def reconciled (listed : List UUID) (answer : CheckResult) : State :=
  run (act oneByOne) State.empty (returnDuring ++ [.claim 9, .known, .inventory (some listed),
    .page, .verify 10 (some ⟨true, 8, some 5, true⟩), .page, .verify 11 (some answer)])

/-- The copy is STALE although the chunk is in flight. The reconciler drops its row when the
node does not list the file yet, and when it does the reconciler takes the copy for a
damaged one, since no checksum is recorded yet, and queues the file for removal. -/
theorem outage_condemns_write :
    (inFlight (run (act oneByOne) State.empty returnDuring).db 11 ∧
        (run (act oneByOne) State.empty returnDuring).db.replicaState 11 "n1" = some .stale) ∧
      (inFlight (reconciled [10] ⟨false, 0, none, false⟩).db 11 ∧
        (reconciled [10] ⟨false, 0, none, false⟩).db.replicaState 11 "n1" = none) ∧
      inFlight (reconciled [10, 11] ⟨true, 8, some 6, true⟩).db 11 ∧
        (reconciled [10, 11] ⟨true, 8, some 6, true⟩).db.replicaState 11 "n1" = some .corrupt ∧
        (reconciled [10, 11] ⟨true, 8, some 6, true⟩).db.queued 11 "n1" := by
  decide +kernel

end FlexStore.Coordinator.Reconcile
