import FlexStore.Metadata.Operation

/-!
# Node health: decided in memory, applied to the database later

The monitor keeps one entry for a node. A heartbeat is written to the database,
then observed, and a sweep re-evaluates the entry against the clock. Both only
decide a transition; the goroutine that decided it applies it afterwards, without
a common lock. A coordinator restart loses the entry and every transition that is
still to be applied, and `Rehydrate` reads the entry back from the node's row.

A `Watch` holds what all of this does for one node. Whenever nothing is in flight,
the row and the entry agree and a HEALTHY node has no UNAVAILABLE copy, provided
that transitions are applied in the order they were decided, that a heartbeat is
observed while it still shows the node HEALTHY, and that no restart falls between
the heartbeat of a node with UNAVAILABLE copies and the end of its transition.
-/

namespace FlexStore.Coordinator

open Metadata Transition

/-- The ages at which a heartbeat makes a node SUSPECT and DEAD. -/
structure Thresholds where
  suspectAfter : Duration
  deadAfter : Duration
  deriving DecidableEq, Repr

/-- Maps the age of the last heartbeat to a state. A node that never reported is DEAD. -/
def classify (t : Thresholds) (last : Option Time) (now : Time) : Health :=
  match last with
  | none => .dead
  | some at_ =>
    if t.deadAfter ≤ now - at_ then .dead
    else if t.suspectAfter ≤ now - at_ then .suspect
    else .healthy

structure HealthTransition where
  src : Health
  dst : Health
  deriving DecidableEq, Repr

structure NodeState where
  address : String
  state : Health
  lastHeartbeat : Option Time
  deriving DecidableEq, Repr

/-- The change from one state to another, if it is one. -/
def transitionTo (src dst : Health) : Option HealthTransition :=
  if dst = src then none else some ⟨src, dst⟩

/-- Records a heartbeat, unless a newer one is known. -/
def observe (t : Thresholds) (now : Time) (entry : Option NodeState) (address : String)
    (at_ : Time) : NodeState × Option HealthTransition :=
  let ns := entry.getD ⟨"", .unknown, none⟩
  if ns.lastHeartbeat.any (at_ < ·) then (ns, none)
  else
    let next := classify t (some at_) now
    (⟨address, next, some at_⟩, transitionTo ns.state next)

/-- Installs known state without a transition. -/
def seed (t : Thresholds) (now : Time) (address : String) (last : Option Time) : NodeState :=
  ⟨address, classify t last now, last⟩

/-- Re-evaluates one entry against the clock. -/
def sweep (t : Thresholds) (now : Time) (ns : NodeState) : NodeState × Option HealthTransition :=
  let next := classify t ns.lastHeartbeat now
  ({ ns with state := next }, transitionTo ns.state next)

/-- Requeues failed repairs, `batch` at a time, if the repair manager is enabled. -/
def onNodeRecovered (batch : Option Nat) (now : Time) (db : Database) : Database :=
  match batch with
  | none => db
  | some limit =>
    match requeueFailedRepairs now limit db with
    | .error _ => db
    | .ok (_, db') => db'

/-- Demotes a returning node's replicas to STALE and queues a reconciliation. -/
def onNodeRejoined (batch : Option Nat) (now : Time) (id : NodeID) (db : Database) : Database :=
  let db := (markReplicasStaleOnNode now id db).2
  match enqueueReconcile now id db with
  | .error _ => db
  | .ok (_, db') => onNodeRecovered batch now db'

def onTransition (batch : Option Nat) (now : Time) (id : NodeID) (change : HealthTransition)
    (db : Database) : Database :=
  let db := (setNodeHealth now id change.dst db).2
  if change.dst = .healthy ∧ (change.src = .dead ∨ change.src = .suspect) then
    onNodeRejoined batch now id db
  else db

/-- Seeds the monitor from the node's row and persists the recomputed state if it differs. -/
def rehydrate (t : Thresholds) (now : Time) (id : NodeID) (db : Database) :
    Option NodeState × Database :=
  match db.nodes.find? id with
  | none => (none, db)
  | some row =>
    let ns := seed t now row.grpcAddress row.lastHeartbeatAt
    (some ns, if ns.state = row.health then db else (setNodeHealth now id ns.state db).2)

/-- A heartbeat whose arrival has been written to the database. -/
structure Heartbeat where
  address : String
  at_ : Time
  deriving DecidableEq, Repr

/-- A transition that waits to be applied, and whether a sweep decided it. -/
structure Waiting where
  change : HealthTransition
  swept : Bool
  deriving DecidableEq, Repr

/-- The system as far as one node is concerned. -/
structure Watch where
  db : Database
  clock : Time
  monitor : Option NodeState
  /-- Recorded heartbeats that have not been observed. -/
  recorded : List Heartbeat
  /-- Decided transitions that have not been applied, the oldest first. -/
  waiting : List Waiting

def Watch.health (s : Watch) : Health := (s.monitor.map (·.state)).getD .unknown

inductive HealthEvent where
  /-- Time passes. -/
  | tick (d : Nat)
  /-- `RecordHeartbeat`, with the time at which the call began. -/
  | record (address : String) (stats : NodeStats) (at_ : Time)
  /-- `Observe`, for the recorded heartbeat at position `k`. -/
  | observe (k : Nat)
  | sweep
  /-- `onTransition`, for the waiting transition at position `k`. -/
  | apply (k : Nat)
  /-- The coordinator stops and starts again. -/
  | restart

/-- What a decision adds to the waiting transitions. -/
def Watch.decide (s : Watch) (ns : NodeState) (change : Option HealthTransition) (swept : Bool) :
    Watch :=
  { s with
    monitor := some ns
    waiting := s.waiting ++ (change.map (⟨·, swept⟩)).toList }

def Watch.boot (t : Thresholds) (now : Time) (id : NodeID) (db : Database) : Watch :=
  let started := rehydrate t now id db
  { db := started.2, clock := now, monitor := started.1, recorded := [], waiting := [] }

/-- One event. The sweeping goroutine applies its transition before it sweeps again. -/
def Watch.step (t : Thresholds) (batch : Option Nat) (id : NodeID) (s : Watch) :
    HealthEvent → Watch
  | .tick d => { s with clock := s.clock + d }
  | .record address stats at_ =>
    match recordHeartbeat s.clock id address stats .healthy at_ s.db with
    | .error _ => s
    | .ok db => { s with db, recorded := s.recorded ++ [⟨address, at_⟩] }
  | .observe k =>
    match s.recorded[k]? with
    | none => s
    | some hb =>
      let seen := Coordinator.observe t s.clock s.monitor hb.address hb.at_
      { s with recorded := s.recorded.eraseIdx k }.decide seen.1 seen.2 false
  | .sweep =>
    match s.monitor with
    | none => s
    | some ns =>
      if s.waiting.any (·.swept) then s
      else
        let seen := Coordinator.sweep t s.clock ns
        s.decide seen.1 seen.2 true
  | .apply k =>
    match s.waiting[k]? with
    | none => s
    | some w =>
      { s with
        db := onTransition batch s.clock id w.change s.db
        waiting := s.waiting.eraseIdx k }
  | .restart => .boot t s.clock id s.db

def NoneUnavailable (id : NodeID) (db : Database) : Prop :=
  ∀ chunk, db.replicaState chunk id ≠ some .unavailable

theorem noneUnavailable_iff {id : NodeID} {db : Database} : NoneUnavailable id db ↔
    ∀ r ∈ db.replicas.rows, r.nodeID = id → r.state ≠ .unavailable := by
  constructor
  · rintro none r member rfl unavailable
    exact none r.chunkID (replicaState_eq_some.mpr ⟨r, member, rfl, rfl, unavailable⟩)
  · intro all chunk held
    obtain ⟨r, member, -, node, unavailable⟩ := replicaState_eq_some.mp held
    exact all r member node unavailable

instance (id : NodeID) (db : Database) : Decidable (NoneUnavailable id db) :=
  decidable_of_iff _ noneUnavailable_iff.symm

/-- The row says what the monitor says, and a HEALTHY node has no copy left that was demoted
when it was DEAD. -/
def Watch.Agrees (id : NodeID) (s : Watch) : Prop :=
  (s.db.nodes.find? id).map (·.health) = some s.health ∧
    (s.health = .healthy → NoneUnavailable id s.db)

instance (id : NodeID) (s : Watch) : Decidable (s.Agrees id) :=
  inferInstanceAs (Decidable (_ ∧ _))

/-- Transitions are applied in the order they were decided. A heartbeat that is observed leaves
the node HEALTHY. A restart finds nothing in flight or no UNAVAILABLE copy. -/
def Watch.Orderly (t : Thresholds) (id : NodeID) (s : Watch) : HealthEvent → Prop
  | .observe k => ∀ hb ∈ s.recorded[k]?,
      (Coordinator.observe t s.clock s.monitor hb.address hb.at_).1.state = .healthy
  | .apply k => k = 0
  | .restart => (s.recorded = [] ∧ s.waiting = []) ∨ NoneUnavailable id s.db
  | _ => True

instance (t : Thresholds) (id : NodeID) (s : Watch) :
    ∀ event, Decidable (s.Orderly t id event)
  | .observe k => inferInstanceAs (Decidable (∀ hb ∈ s.recorded[k]?, _ = Health.healthy))
  | .apply k => inferInstanceAs (Decidable (k = 0))
  | .restart => inferInstanceAs (Decidable (_ ∨ NoneUnavailable id s.db))
  | .tick _ | .record .. | .sweep => isTrue trivial

/-- A heartbeat is recorded only while the monitor holds the node HEALTHY or a transition
waits. -/
def Watch.Expected (s : Watch) : HealthEvent → Prop
  | .record .. => s.health = .healthy ∨ s.waiting ≠ []
  | _ => True

instance (s : Watch) : ∀ event, Decidable (s.Expected event)
  | .record .. => inferInstanceAs (Decidable (_ ∨ _))
  | .tick _ | .observe _ | .sweep | .apply _ | .restart => isTrue trivial

section Facts

variable {t : Thresholds} {batch : Option Nat} {id : NodeID} {now now' : Time}
variable {last : Option Time} {db : Database}

theorem classify_ne_unknown : classify t last now ≠ .unknown := by
  unfold classify
  split
  · simp
  · split_ifs <;> simp

theorem classify_eq_healthy : classify t last now = .healthy ↔
    ∃ at_, last = some at_ ∧ now - at_ < t.deadAfter ∧ now - at_ < t.suspectAfter := by
  cases last with
  | none => simp [classify]
  | some at_ =>
    simp only [classify, Option.some.injEq, exists_eq_left', ← not_le]
    split_ifs with dead suspect <;> simp [*]

/-- A heartbeat that shows the node HEALTHY did so earlier, and so does any later one. -/
theorem classify_healthy_of_le {older newer : Time} (time : now ≤ now') (order : older ≤ newer)
    (healthy : classify t (some older) now' = .healthy) :
    classify t (some newer) now = .healthy := by
  rw [classify_eq_healthy] at healthy ⊢
  obtain ⟨at_, same, alive, fresh⟩ := healthy
  cases same
  have age : now - newer ≤ now' - older := Int.sub_le_sub time order
  exact ⟨newer, rfl, Int.lt_of_le_of_lt age alive, Int.lt_of_le_of_lt age fresh⟩

theorem classify_healthy_earlier (time : now ≤ now') (healthy : classify t last now' = .healthy) :
    classify t last now = .healthy := by
  obtain ⟨at_, rfl, -⟩ := classify_eq_healthy.mp healthy
  exact classify_healthy_of_le time le_rfl healthy

theorem view_onNodeRecovered (batch : Option Nat) (now : Time) (db : Database) :
    (onNodeRecovered batch now db).view = db.view := by
  unfold onNodeRecovered
  split
  · rfl
  · next limit =>
      split
      · rfl
      · next requeued =>
          simp only [requeueFailedRepairs, bind_eq_ok, pure_eq_ok, Prod.mk.injEq] at requeued
          obtain ⟨-, -, -, rfl⟩ := requeued
          rfl

theorem view_onNodeRejoined (batch : Option Nat) (now : Time) (id : NodeID) (db : Database) :
    (onNodeRejoined batch now id db).view = db.view.mapReplicas fun _ n s =>
      if n = id && s = .unavailable then .stale else s := by
  unfold onNodeRejoined
  rw [← view_markReplicasStaleOnNode now id db]
  generalize (markReplicasStaleOnNode now id db).2 = marked
  dsimp only
  split
  · rfl
  · next queued =>
      simp only [enqueueReconcile, bind_eq_ok, pure_eq_ok, Prod.mk.injEq] at queued
      obtain ⟨-, -, -, rfl⟩ := queued
      exact view_onNodeRecovered ..

/-- A node that rejoins keeps no UNAVAILABLE copy. -/
theorem noneUnavailable_onNodeRejoined :
    NoneUnavailable id (onNodeRejoined batch now id db) := by
  intro chunk
  change ((onNodeRejoined batch now id db).view.slots chunk id).replica ≠ _
  rw [view_onNodeRejoined]
  simp only [View.mapReplicas]
  cases (db.view.slots chunk id).replica with
  | none => simp
  | some state => cases state <;> simp

theorem noneUnavailable_setNodeHealth {health : Health} (alive : health ≠ .dead)
    (served : NoneUnavailable id db) : NoneUnavailable id (setNodeHealth now id health db).2 := by
  intro chunk
  change ((setNodeHealth now id health db).2.view.slots chunk id).replica ≠ _
  rw [view_setNodeHealth, if_neg alive]
  exact served chunk

/-- A transition sets the health in the row. -/
theorem nodes_onTransition {change : HealthTransition} {row : NodeRow}
    (found : db.view.nodes id = some row) :
    (onTransition batch now id change db).view.nodes id = some (row.setHealth now change.dst) := by
  unfold onTransition
  dsimp only
  split
  · rw [view_onNodeRejoined]
    exact nodes_setNodeHealth found
  · exact nodes_setNodeHealth found

/-- The transition of a returning node leaves no UNAVAILABLE copy on it. -/
theorem noneUnavailable_onTransition {change : HealthTransition} (healthy : change.dst = .healthy)
    (returns : change.src = .dead ∨ change.src = .suspect) :
    NoneUnavailable id (onTransition batch now id change db) := by
  unfold onTransition
  rw [if_pos ⟨healthy, returns⟩]
  exact noneUnavailable_onNodeRejoined

theorem transitionTo_eq_some {src dst : Health} {change : HealthTransition} :
    transitionTo src dst = some change ↔ src ≠ dst ∧ change = ⟨src, dst⟩ := by
  unfold transitionTo
  split_ifs with same
  · simp [same]
  · simp [Ne.symm same, eq_comm]

theorem transitionTo_eq_none {src dst : Health} : transitionTo src dst = none ↔ src = dst := by
  unfold transitionTo
  split_ifs with same
  · simp [same]
  · simp [Ne.symm same]

/-- `Observe` reports the change of the entry, and the heartbeat the entry then has is the
newest so far. -/
theorem observe_spec (t : Thresholds) (now : Time) (ns : NodeState) (address : String)
    (at_ : Time) : ∃ ns' seen,
      observe t now (some ns) address at_ = (ns', transitionTo ns.state ns'.state) ∧
        ns'.lastHeartbeat = some seen ∧ at_ ≤ seen ∧
          ∀ old, ns.lastHeartbeat = some old → old ≤ seen := by
  unfold observe
  simp only [Option.getD_some]
  split_ifs with older
  · obtain ⟨seen, known, later⟩ : ∃ seen, ns.lastHeartbeat = some seen ∧ at_ < seen := by
      simpa [Option.any_eq_true] using older
    refine ⟨ns, seen, ?_, known, Int.le_of_lt later, ?_⟩
    · rw [transitionTo_eq_none.mpr rfl]
    · intro old same
      exact (Option.some.inj (same.symm.trans known)).le
  · refine ⟨_, at_, rfl, rfl, le_rfl, ?_⟩
    intro old same
    simpa [same] using older

end Facts

/-- What holds of a watched node whose monitor entry is `ns` and whose row is `row`. With
`strict` no recorded heartbeat may be ahead of the monitor. -/
structure Watch.Sound (t : Thresholds) (id : NodeID) (strict : Prop) (s : Watch) (ns : NodeState)
    (row : NodeRow) : Prop where
  entry : s.monitor = some ns
  registered : s.db.view.nodes id = some row
  known : ns.state ≠ .unknown
  /-- The transition decided last leads to the monitor's state. -/
  newest : ∀ w, s.waiting.getLast? = some w → w.change.dst = ns.state
  moves : ∀ w ∈ s.waiting, w.change.src ≠ w.change.dst ∧ w.change.src ≠ .unknown
  persisted : s.waiting = [] →
    row.health = ns.state ∨ (¬strict ∧ s.recorded ≠ [] ∧ row.health = .healthy)
  served : s.waiting = [] → ns.state = .healthy → NoneUnavailable id s.db
  /-- The monitor's last heartbeat does not show a node HEALTHY that it holds not to be. -/
  aged : ns.state ≠ .healthy → classify t ns.lastHeartbeat s.clock ≠ .healthy
  /-- The monitor knows the heartbeat in the row, or will. -/
  heard : ∀ at_, row.lastHeartbeatAt = some at_ →
    (∃ seen, ns.lastHeartbeat = some seen ∧ at_ ≤ seen) ∨ ∃ hb ∈ s.recorded, hb.at_ = at_

def Watch.Invariant (t : Thresholds) (id : NodeID) (strict : Prop) (s : Watch) : Prop :=
  ∃ ns row, s.Sound t id strict ns row

namespace Watch

variable {t : Thresholds} {batch : Option Nat} {id : NodeID} {strict : Prop} {s : Watch}
variable {ns : NodeState} {row : NodeRow}

theorem Sound.health (sound : s.Sound t id strict ns row) : s.health = ns.state := by
  simp [Watch.health, sound.entry]

theorem Sound.tick (sound : s.Sound t id strict ns row) (d : Nat) :
    Sound t id strict { s with clock := s.clock + d } ns row :=
  { sound with
    aged := by
      intro late healthy
      refine sound.aged late (classify_healthy_earlier ?_ healthy)
      exact Int.le_add_of_nonneg_right (by simp) }

theorem Sound.record (sound : s.Sound t id strict ns row) {address : String} {stats : NodeStats}
    {at_ : Time} {db : Database}
    (recorded : recordHeartbeat s.clock id address stats .healthy at_ s.db = .ok db)
    (expected : strict → s.health = .healthy ∨ s.waiting ≠ []) :
    Sound t id strict { s with db, recorded := s.recorded ++ [⟨address, at_⟩] } ns
      (row.refresh s.clock address .healthy stats at_) := by
  obtain ⟨old, found, view⟩ := recordHeartbeat_refresh recorded
  obtain rfl : old = row := Option.some.inj (found.symm.trans sound.registered)
  exact {
    entry := sound.entry
    registered := by rw [view]; simp
    known := sound.known
    newest := sound.newest
    moves := sound.moves
    persisted := by
      intro none
      by_cases held : strict
      · obtain healthy | some := expected held
        · exact .inl (healthy.symm.trans sound.health)
        · exact absurd none some
      · exact .inr ⟨held, by simp, rfl⟩
    served := by
      intro none healthy chunk
      have held := sound.served none healthy chunk
      change (db.view.slots chunk id).replica ≠ _
      rw [view]
      exact held
    aged := sound.aged
    heard := by
      intro at' same
      cases same
      exact .inr ⟨⟨address, at_⟩, by simp, rfl⟩ }

/-- A decision keeps the invariant if the new entry is true to its heartbeat. When the set of
recorded heartbeats changes, the node must have been found HEALTHY. -/
theorem Sound.decide (sound : s.Sound t id strict ns row) {hbs : List Heartbeat} {ns' : NodeState}
    (swept : Bool) (known : ns'.state ≠ .unknown)
    (aged : ns'.state ≠ .healthy → classify t ns'.lastHeartbeat s.clock ≠ .healthy)
    (heard : ∀ at_, row.lastHeartbeatAt = some at_ →
      (∃ seen, ns'.lastHeartbeat = some seen ∧ at_ ≤ seen) ∨ ∃ hb ∈ hbs, hb.at_ = at_)
    (kept : ns'.state = .healthy ∨ hbs = s.recorded) :
    Sound t id strict
      ({ s with recorded := hbs }.decide ns' (transitionTo ns.state ns'.state) swept) ns' row := by
  cases decided : transitionTo ns.state ns'.state with
  | none =>
    have same : ns.state = ns'.state := transitionTo_eq_none.mp decided
    have waits : (Watch.decide { s with recorded := hbs } ns' none swept).waiting =
        s.waiting := by
      simp [Watch.decide]
    exact {
      entry := rfl
      registered := sound.registered
      known
      newest := by rw [waits, ← same]; exact sound.newest
      moves := by rw [waits]; exact sound.moves
      persisted := by
        rw [waits, ← same]
        intro none
        obtain agrees | ⟨lax, ahead, healthy⟩ := sound.persisted none
        · exact .inl agrees
        · obtain found | rfl := kept
          · exact .inl (healthy.trans (found.symm.trans same.symm))
          · exact .inr ⟨lax, ahead, healthy⟩
      served := by rw [waits, ← same]; exact sound.served
      aged
      heard }
  | some change =>
    obtain ⟨moved, rfl⟩ := transitionTo_eq_some.mp decided
    exact {
      entry := rfl
      registered := sound.registered
      known
      newest := by
        intro w last
        simp only [Watch.decide, Option.map_some, Option.toList_some, List.getLast?_concat,
          Option.some.injEq] at last
        rw [← last]
      moves := by
        intro w member
        simp only [Watch.decide, Option.map_some, Option.toList_some, List.mem_append,
          List.mem_singleton] at member
        obtain old | rfl := member
        · exact sound.moves w old
        · exact ⟨moved, sound.known⟩
      persisted := by simp [Watch.decide]
      served := by simp [Watch.decide]
      aged
      heard }

theorem Sound.observe (sound : s.Sound t id strict ns row) {k : Nat} {hb : Heartbeat}
    (member : s.recorded[k]? = some hb)
    (punctual : (Coordinator.observe t s.clock s.monitor hb.address hb.at_).1.state = .healthy) :
    ∃ ns', Sound t id strict (s.step t batch id (.observe k)) ns' row := by
  obtain ⟨ns', seen, same, last, latest, newer⟩ := observe_spec t s.clock ns hb.address hb.at_
  rw [← sound.entry] at same
  have healthy : ns'.state = .healthy := by rw [same] at punctual; exact punctual
  refine ⟨ns', ?_⟩
  simp only [Watch.step, member, same]
  refine sound.decide false (by simp [healthy]) (absurd healthy) ?_ (.inl healthy)
  intro at_ recorded
  obtain ⟨old, known, before⟩ | ⟨other, waits, rfl⟩ := sound.heard at_ recorded
  · exact .inl ⟨seen, last, before.trans (newer old known)⟩
  · by_cases this : other = hb
    · exact .inl ⟨seen, last, this ▸ latest⟩
    · refine .inr ⟨other, ?_, rfl⟩
      obtain ⟨j, found⟩ := List.mem_iff_getElem?.mp waits
      refine List.mem_eraseIdx_iff_getElem?.mpr ⟨j, ?_, found⟩
      rintro rfl
      exact this (Option.some.inj (found.symm.trans member))

theorem Sound.sweep (sound : s.Sound t id strict ns row) :
    ∃ ns', Sound t id strict (s.step t batch id .sweep) ns' row := by
  simp only [Watch.step, sound.entry]
  split_ifs
  · exact ⟨ns, sound⟩
  · refine ⟨_, sound.decide true classify_ne_unknown (fun late => late) sound.heard (.inr rfl)⟩

/-- The oldest waiting transition is applied. -/
theorem Sound.apply (sound : s.Sound t id strict ns row) :
    ∃ row', Sound t id strict (s.step t batch id (.apply 0)) ns row' := by
  cases waits : s.waiting with
  | nil =>
    refine ⟨row, ?_⟩
    simpa only [Watch.step, waits, List.getElem?_nil] using sound
  | cons w rest =>
    have oldest := sound.moves w (by simp [waits])
    have last : rest = [] → w.change.dst = ns.state := by
      rintro rfl
      exact sound.newest w (by simp [waits])
    refine ⟨row.setHealth s.clock w.change.dst, ?_⟩
    simp only [Watch.step, waits, List.getElem?_cons_zero, List.eraseIdx_cons_zero]
    exact {
      entry := sound.entry
      registered := nodes_onTransition sound.registered
      known := sound.known
      newest := by
        intro w' newest
        apply sound.newest
        cases rest with
        | nil => simp at newest
        | cons => simpa [waits] using newest
      moves := by
        intro w' member
        exact sound.moves w' (by simp [waits, member])
      persisted := by
        intro none
        exact .inl (last none)
      served := by
        intro none healthy
        have target := (last none).trans healthy
        refine noneUnavailable_onTransition target ?_
        cases source : w.change.src <;> simp_all
      aged := sound.aged
      heard := sound.heard }

/-- A coordinator that starts on a registered node, HEALTHY only without UNAVAILABLE copies. -/
theorem sound_boot {now : Time} {db : Database} (found : db.view.nodes id = some row)
    (served : classify t row.lastHeartbeatAt now = .healthy → NoneUnavailable id db) :
    (boot t now id db).Invariant t id strict := by
  have entry : rehydrate t now id db = (some (seed t now row.grpcAddress row.lastHeartbeatAt),
      if classify t row.lastHeartbeatAt now = row.health then db
      else (setNodeHealth now id (classify t row.lastHeartbeatAt now) db).2) := by
    unfold rehydrate
    rw [show db.nodes.find? id = some row from found]
    rfl
  refine ⟨seed t now row.grpcAddress row.lastHeartbeatAt,
    { row with
      health := classify t row.lastHeartbeatAt now
      updatedAt := if classify t row.lastHeartbeatAt now = row.health then row.updatedAt else now },
    ?_⟩
  exact {
    entry := by simp [boot, entry]
    registered := by
      simp only [boot, entry]
      split_ifs with same
      · rw [found, same]
      · exact nodes_setNodeHealth found
    known := classify_ne_unknown
    newest := by simp [boot]
    moves := by simp [boot]
    persisted := fun _ => .inl rfl
    served := by
      intro _ healthy
      have held := served healthy
      simp only [boot, entry]
      split_ifs
      · exact held
      · refine noneUnavailable_setNodeHealth ?_ held
        rw [show classify t row.lastHeartbeatAt now = .healthy from healthy]
        simp
    aged := fun late => late
    heard := fun at_ known => .inl ⟨at_, known, le_rfl⟩ }

/-- Without a heartbeat in flight, the row of a node that the monitor does not hold HEALTHY
does not show it HEALTHY either. -/
theorem Sound.restart (sound : s.Sound t id strict ns row)
    (quiet : (s.recorded = [] ∧ s.waiting = []) ∨ NoneUnavailable id s.db) :
    (s.step t batch id .restart).Invariant t id strict := by
  refine sound_boot sound.registered ?_
  intro healthy
  obtain ⟨nothing, none⟩ | served := quiet
  · by_cases held : ns.state = .healthy
    · exact sound.served none held
    · obtain ⟨at_, last, -⟩ := classify_eq_healthy.mp healthy
      obtain ⟨seen, known, before⟩ | ⟨hb, member, -⟩ := sound.heard at_ last
      · rw [last] at healthy
        have fresh := classify_healthy_of_le le_rfl before healthy
        exact absurd (known ▸ fresh) (sound.aged held)
      · simp [nothing] at member
  · exact served

/-- Every event of an orderly run keeps the invariant. -/
theorem Invariant.step {event : HealthEvent} (inv : s.Invariant t id strict)
    (orderly : s.Orderly t id event) (expected : strict → s.Expected event) :
    (s.step t batch id event).Invariant t id strict := by
  obtain ⟨ns, row, sound⟩ := inv
  cases event with
  | tick d => exact ⟨ns, row, sound.tick d⟩
  | record address stats at_ =>
    cases written : recordHeartbeat s.clock id address stats .healthy at_ s.db with
    | error _ =>
      simp only [Watch.step, written]
      exact ⟨ns, row, sound⟩
    | ok db =>
      simp only [Watch.step, written]
      exact ⟨ns, _, sound.record written expected⟩
  | observe k =>
    cases member : s.recorded[k]? with
    | none =>
      simp only [Watch.step, member]
      exact ⟨ns, row, sound⟩
    | some hb =>
      obtain ⟨ns', seen⟩ := sound.observe member (orderly hb member)
      exact ⟨ns', row, seen⟩
  | sweep =>
    obtain ⟨ns', swept⟩ := sound.sweep
    exact ⟨ns', row, swept⟩
  | apply k =>
    obtain rfl : k = 0 := orderly
    obtain ⟨row', applied⟩ := sound.apply
    exact ⟨ns, row', applied⟩
  | restart => exact sound.restart orderly

theorem Invariant.agrees (inv : s.Invariant t id strict) (settled : s.waiting = [])
    (level : strict ∨ s.recorded = []) : s.Agrees id := by
  obtain ⟨ns, row, sound⟩ := inv
  have found : s.db.nodes.find? id = some row := sound.registered
  constructor
  · rw [found, sound.health]
    obtain same | ⟨lax, ahead, -⟩ := sound.persisted settled
    · exact congrArg some same
    · exact (level.elim lax ahead).elim
  · rw [sound.health]
    exact sound.served settled

end Watch

section Runs

variable {t : Thresholds} {batch : Option Nat} {id : NodeID} {now : Time} {db : Database}
variable {row : NodeRow}

/-- A node registered at time 0 that holds one copy. -/
def storedOnce : List Call :=
  [⟨0, .upsertNode "n1" "n1:9000" .healthy {} 0⟩, ⟨1, .beginUpload 1 "b" "k" "" 8⟩,
    ⟨2, .reserveChunk 10 ⟨some 1, none⟩ 0 3⟩, ⟨3, .recordChunkTargets 10 ["n1"]⟩,
    ⟨4, .commitChunk 10 5 3 ["n1"] [] 1⟩]

/-- The coordinator starts on it at time 5. -/
def watchedNode : Watch := .boot ⟨10, 30⟩ 5 "n1" (run Metadata.step Database.empty storedOnce)

def diesAndReturns : List HealthEvent :=
  [.tick 40, .sweep, .apply 0, .restart, .record "n1:9000" {} 45, .observe 0, .apply 0, .restart]

def fallsSilent : List HealthEvent :=
  [.record "n1:9000" {} 5, .observe 0, .tick 12, .sweep, .apply 0, .tick 30, .sweep, .apply 0,
    .restart]

/-- A sweep decides that the node is DEAD, a heartbeat brings it back, and only then is the
sweep's transition applied: the row says DEAD and the monitor HEALTHY. -/
def lateDeath : List HealthEvent :=
  [.tick 40, .sweep, .record "n1:9000" {} 45, .observe 0, .apply 1, .apply 0]

/-- The heartbeat of a DEAD node is recorded and the coordinator restarts before observing it:
the node is HEALTHY and its copy stays UNAVAILABLE. -/
def lostReturn : List HealthEvent :=
  [.tick 40, .sweep, .apply 0, .record "n1:9000" {} 45, .restart]

end Runs

end FlexStore.Coordinator
