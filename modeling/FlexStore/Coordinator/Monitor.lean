import FlexStore.Coordinator.Health

/-!
# The health monitor and late heartbeats

The monitor keeps one entry for each node. A heartbeat carries the time at which its call
began, and `Observe` compares that time with the clock of its own moment: what lies in
between, the store's transaction among other things, makes the heartbeat older. The sweep
is meant to be the only step that moves a node towards SUSPECT or DEAD. It is as long as a
heartbeat of a HEALTHY node is observed before it is SUSPECT by age, and that of a SUSPECT
node before it is DEAD by age; a later one demotes the node that sent it.
-/

namespace FlexStore.Coordinator

open Metadata Relational Transition

structure Tracked where
  nodeID : NodeID
  entry : NodeState
  deriving DecidableEq, Repr

/-- The monitor. Its map of nodes is a table: no node has two entries. -/
structure Monitor where
  thresholds : Thresholds
  nodes : Table Tracked.nodeID

/-- A state change as the coordinator is told of it. The zero time has no age. -/
structure NodeTransition where
  nodeID : NodeID
  change : HealthTransition
  at_ : Time
  age : Option Duration
  address : String
  deriving DecidableEq, Repr

/-- `at.Before(last)`. The zero time, here `none`, is before every other. -/
def before : Option Time → Option Time → Bool
  | none, some _ => true
  | some at_, some last => at_ < last
  | _, none => false

namespace Monitor

def new (t : Thresholds) : Monitor := ⟨t, .empty⟩

/-- `m.nodes[nodeID]`. -/
def lookup (m : Monitor) (id : NodeID) : Option NodeState := (m.nodes.find? id).map (·.entry)

/-- `m.nodes[nodeID] = ns`. -/
def put (m : Monitor) (id : NodeID) (ns : NodeState) : Monitor :=
  { m with nodes := m.nodes.upsert ⟨id, ns⟩ fun e => { e with entry := ns } }

/-- The state of a node, UNKNOWN if it is not tracked. -/
def state (m : Monitor) (id : NodeID) : Health := ((m.lookup id).map (·.state)).getD .unknown

/-- Records a heartbeat, unless a newer one is known, and returns the change of state. -/
def observe (m : Monitor) (now : Time) (id : NodeID) (address : String) (at_ : Option Time) :
    Monitor × Option NodeTransition :=
  let ns := (m.lookup id).getD ⟨"", .unknown, none⟩
  if before at_ ns.lastHeartbeat then (m.put id ns, none)
  else
    let next := classify m.thresholds at_ now
    (m.put id ⟨address, next, at_⟩,
      (transitionTo ns.state next).map (⟨id, ·, now, at_.map (now - ·), address⟩))

/-- Installs known state without a transition. -/
def seed (m : Monitor) (now : Time) (id : NodeID) (address : String) (last : Option Time) :
    Monitor :=
  m.put id (Coordinator.seed m.thresholds now address last)

/-- Re-evaluates every node against the clock and returns all transitions. -/
def sweep (m : Monitor) (now : Time) : Monitor × List NodeTransition :=
  ({ m with
      nodes := m.nodes.updateWhere (fun _ => true) fun e =>
        { e with entry := (Coordinator.sweep m.thresholds now e.entry).1 } },
    m.nodes.rows.filterMap fun e => (Coordinator.sweep m.thresholds now e.entry).2.map
      (⟨e.nodeID, ·, now, e.entry.lastHeartbeat.map (now - ·), e.entry.address⟩))

section Entries

variable {m : Monitor} {now : Time} {id k : NodeID} {address : String} {at_ : Option Time}

@[simp] theorem lookup_new (t : Thresholds) (k : NodeID) : (new t).lookup k = none := rfl

theorem lookup_put (m : Monitor) (id : NodeID) (ns : NodeState) (k : NodeID) :
    (m.put id ns).lookup k = if id = k then some ns else m.lookup k := by
  unfold put lookup
  simp only [Table.find?_upsert]
  split_ifs with same
  · cases m.nodes.find? k <;> rfl
  · rfl

theorem lookup_seed (m : Monitor) (now : Time) (id : NodeID) (address : String)
    (last : Option Time) (k : NodeID) :
    (m.seed now id address last).lookup k =
      if id = k then some (Coordinator.seed m.thresholds now address last) else m.lookup k :=
  lookup_put _ _ _ _

theorem lookup_sweep (m : Monitor) (now : Time) (k : NodeID) :
    (m.sweep now).1.lookup k =
      (m.lookup k).map fun ns =>
        { ns with state := classify m.thresholds ns.lastHeartbeat now } := by
  unfold sweep lookup
  simp only [Table.find?_updateWhere, if_true, Option.map_map]
  rfl

/-- A heartbeat changes nothing but the entry of its own node. -/
theorem lookup_observe_other (other : k ≠ id) :
    (m.observe now id address at_).1.lookup k = m.lookup k := by
  unfold observe
  dsimp only
  split <;> rw [lookup_put, if_neg other.symm]

/-- What a heartbeat makes of the entry of its node. -/
theorem lookup_observe_self (m : Monitor) (now : Time) (id : NodeID) (address : String)
    (at_ : Option Time) :
    (m.observe now id address at_).1.lookup id =
      some (if before at_ ((m.lookup id).bind (·.lastHeartbeat)) then
          (m.lookup id).getD ⟨"", .unknown, none⟩
        else ⟨address, classify m.thresholds at_ now, at_⟩) := by
  have last : ((m.lookup id).getD ⟨"", .unknown, none⟩).lastHeartbeat =
      (m.lookup id).bind (·.lastHeartbeat) := by
    cases m.lookup id <;> rfl
  unfold observe
  dsimp only
  rw [last]
  split <;> rw [lookup_put, if_pos rfl]

@[simp] theorem thresholds_observe :
    (m.observe now id address at_).1.thresholds = m.thresholds := by
  unfold observe
  dsimp only
  split <;> rfl

/-- On one node, with a proper timestamp, this is the step that the coordinator's view of a
node is built from. -/
theorem lookup_observe_some (m : Monitor) (now : Time) (id : NodeID) (address : String)
    (at_ : Time) :
    (m.observe now id address (some at_)).1.lookup id =
      some (Coordinator.observe m.thresholds now (m.lookup id) address at_).1 := by
  rw [lookup_observe_self]
  unfold Coordinator.observe
  cases m.lookup id with
  | none => rfl
  | some ns =>
    obtain ⟨old, state, _ | last⟩ := ns
    · rfl
    · by_cases older : at_ < last <;> simp [before, older]

end Entries

end Monitor

/-- The first state is better than the second. -/
def worsens : Health → Health → Bool
  | .healthy, .suspect => true
  | .healthy, .dead => true
  | .suspect, .dead => true
  | _, _ => false

structure Lookout where
  monitor : Monitor
  clock : Time

inductive LookoutEvent where
  /-- Time passes. -/
  | tick (d : Nat)
  | observe (id : NodeID) (address : String) (at_ : Option Time)
  | sweep

namespace Lookout

/-- A monitor that has been seeded from the listed rows. -/
def start (t : Thresholds) (now : Time) (rows : List (NodeID × String × Option Time)) : Lookout :=
  ⟨rows.foldl (fun m row => m.seed now row.1 row.2.1 row.2.2) (.new t), now⟩

def step (s : Lookout) : LookoutEvent → Lookout
  | .tick d => { s with clock := s.clock + d }
  | .observe id address at_ => { s with monitor := (s.monitor.observe s.clock id address at_).1 }
  | .sweep => { s with monitor := (s.monitor.sweep s.clock).1 }

/-- The event moves a node that is already tracked to a worse state. -/
def Demotes (s : Lookout) (event : LookoutEvent) (id : NodeID) : Prop :=
  ∃ ns ns', s.monitor.lookup id = some ns ∧ (s.step event).monitor.lookup id = some ns' ∧
    worsens ns.state ns'.state

/-- A heartbeat that is not older than the last one is observed before its age exceeds what
the state of its node allows. -/
def Punctual (t : Thresholds) (s : Lookout) : LookoutEvent → Prop
  | .observe id _ (some at_) => ∀ ns ∈ s.monitor.lookup id, ns.lastHeartbeat.all (· ≤ at_) →
      (ns.state = .healthy → s.clock - at_ < t.suspectAfter) ∧
        (ns.state = .suspect → s.clock - at_ < t.deadAfter)
  | _ => True

instance (t : Thresholds) (s : Lookout) : ∀ event, Decidable (s.Punctual t event)
  | .observe id _ (some at_) => inferInstanceAs (Decidable (∀ ns ∈ s.monitor.lookup id,
      _ → (_ → s.clock - at_ < t.suspectAfter) ∧ (_ → s.clock - at_ < t.deadAfter)))
  | .observe _ _ none | .tick _ | .sweep => isTrue trivial

/-- Every entry comes from a heartbeat. One with the zero time is DEAD. -/
structure Heard (t : Thresholds) (s : Lookout) : Prop where
  thresholds : s.monitor.thresholds = t
  known : ∀ id ns, s.monitor.lookup id = some ns → ns.state ≠ .unknown
  silent : ∀ id ns, s.monitor.lookup id = some ns → ns.lastHeartbeat = none → ns.state = .dead

variable {t : Thresholds} {s : Lookout}

theorem heard_start (t : Thresholds) (now : Time) (rows : List (NodeID × String × Option Time)) :
    (start t now rows).Heard t := by
  suffices h : ∀ m : Monitor, (⟨m, now⟩ : Lookout).Heard t →
      (⟨rows.foldl (fun m row => m.seed now row.1 row.2.1 row.2.2) m, now⟩ : Lookout).Heard t by
    exact h _ ⟨rfl, by simp, by simp⟩
  induction rows with
  | nil => exact fun m heard => heard
  | cons row rest ih =>
    intro m heard
    refine ih _ ⟨heard.thresholds, ?_, ?_⟩
    · intro id ns found
      rw [Monitor.lookup_seed] at found
      split_ifs at found
      · cases found
        exact classify_ne_unknown
      · exact heard.known id ns found
    · intro id ns found none_
      rw [Monitor.lookup_seed] at found
      split_ifs at found
      · cases found
        rw [show row.2.2 = none from none_]
        rfl
      · exact heard.silent id ns found none_

theorem Heard.step (heard : s.Heard t) (event : LookoutEvent) : (s.step event).Heard t := by
  cases event with
  | tick => exact ⟨heard.thresholds, heard.known, heard.silent⟩
  | observe id address at_ =>
    -- The entry is the old one, or classified from the heartbeat.
    have entry (k : NodeID) (ns : NodeState)
        (found : (s.monitor.observe s.clock id address at_).1.lookup k = some ns) :
        s.monitor.lookup k = some ns ∨
          ns = ⟨address, classify s.monitor.thresholds at_ s.clock, at_⟩ := by
      by_cases same : k = id
      · subst same
        rw [Monitor.lookup_observe_self] at found
        cases known : s.monitor.lookup k with
        | none =>
          rw [known] at found
          cases at_ <;> exact Or.inr (Option.some.inj found).symm
        | some old =>
          rw [known] at found
          split_ifs at found
          · exact Or.inl found
          · exact Or.inr (Option.some.inj found).symm
      · rw [Monitor.lookup_observe_other same] at found
        exact Or.inl found
    refine ⟨Monitor.thresholds_observe.trans heard.thresholds, ?_, ?_⟩
    · intro k ns found
      obtain old | rfl := entry k ns found
      · exact heard.known k ns old
      · exact classify_ne_unknown
    · intro k ns found none_
      obtain old | rfl := entry k ns found
      · exact heard.silent k ns old none_
      · rw [show at_ = none from none_]
        rfl
  | sweep =>
    refine ⟨heard.thresholds, ?_, ?_⟩
    · intro k ns found
      rw [Lookout.step, Monitor.lookup_sweep] at found
      obtain ⟨old, -, rfl⟩ := Option.map_eq_some_iff.mp found
      exact classify_ne_unknown
    · intro k ns found none_
      rw [Lookout.step, Monitor.lookup_sweep] at found
      obtain ⟨old, -, rfl⟩ := Option.map_eq_some_iff.mp found
      rw [show old.lastHeartbeat = none from none_]
      rfl

/-- What a heartbeat's age makes worse than HEALTHY or SUSPECT. -/
theorem worsens_classify (ordered : t.suspectAfter < t.deadAfter) (state : Health)
    (now at_ : Time) :
    worsens state (classify t (some at_) now) = false ↔
      (state = .healthy → now - at_ < t.suspectAfter) ∧
        (state = .suspect → now - at_ < t.deadAfter) := by
  unfold classify
  dsimp only
  split_ifs with dead suspect
  · have late : t.suspectAfter ≤ now - at_ := ordered.le.trans dead
    cases state <;> simp [worsens, dead, late]
  · cases state <;> simp [worsens, suspect, not_le.mp dead]
  · cases state <;> simp [worsens, not_le.mp dead, not_le.mp suspect]

/-- A heartbeat demotes its node exactly if it is not punctual. -/
theorem demotes_observe_iff (ordered : t.suspectAfter < t.deadAfter) (heard : s.Heard t)
    (id : NodeID) (address : String) (at_ : Option Time) :
    (∀ k, ¬ s.Demotes (.observe id address at_) k) ↔
      s.Punctual t (.observe id address at_) := by
  have stays (state : Health) : worsens state state = false := by cases state <;> rfl
  -- Only the node that sent the heartbeat can be demoted by it.
  have own : (∀ k, ¬ s.Demotes (.observe id address at_) k) ↔
      ∀ ns, s.monitor.lookup id = some ns → ¬ before at_ ns.lastHeartbeat →
        worsens ns.state (classify t at_ s.clock) = false := by
    constructor
    · intro none_ ns found newer
      by_contra worse
      refine none_ id ⟨ns, ⟨address, classify t at_ s.clock, at_⟩, found, ?_, by simpa using worse⟩
      rw [Lookout.step, Monitor.lookup_observe_self, found, heard.thresholds]
      exact congrArg some (if_neg newer)
    · rintro all k ⟨ns, ns', found, after, worse⟩
      by_cases same : k = id
      · subst same
        rw [Lookout.step, Monitor.lookup_observe_self, found, heard.thresholds] at after
        dsimp only [Option.bind_some] at after
        split_ifs at after with older
        · cases after
          simp [stays] at worse
        · cases after
          simp [all ns found older] at worse
      · rw [Lookout.step, Monitor.lookup_observe_other same, found] at after
        cases after
        simp [stays] at worse
  rw [own]
  cases at_ with
  | none =>
    refine iff_of_true (fun ns found newer => ?_) trivial
    have last : ns.lastHeartbeat = none := by
      cases known : ns.lastHeartbeat with
      | none => rfl
      | some last => simp [known, before] at newer
    rw [heard.silent id ns found last]
    exact stays _
  | some at_ =>
    refine forall_congr' fun ns => ?_
    have newer : ¬ before (some at_) ns.lastHeartbeat ↔ ns.lastHeartbeat.all (· ≤ at_) := by
      cases ns.lastHeartbeat <;> simp [before]
    rw [newer, worsens_classify ordered]
    rfl

end Lookout

open Lookout in
/-- For every monitor that starts from any recorded heartbeats and every sequence of
heartbeats, sweeps and passing time: a node that is already tracked is moved to a worse state
by sweeps only exactly if every heartbeat is observed punctually. -/
theorem only_sweeps_demote_iff {t : Thresholds} (ordered : t.suspectAfter < t.deadAfter)
    (now : Time) (rows : List (NodeID × String × Option Time)) (events : List LookoutEvent) :
    Guarded Lookout.step (fun s event => ∀ id, s.Demotes event id → event = .sweep)
        (.start t now rows) events ↔
      Guarded Lookout.step (Punctual t) (.start t now rows) events := by
  have agree (s : Lookout) (event : LookoutEvent) (heard : s.Heard t) :
      (∀ id, s.Demotes event id → event = .sweep) ↔ s.Punctual t event := by
    cases event with
    | tick d =>
      refine iff_of_true (fun id demoted => ?_) trivial
      obtain ⟨ns, ns', found, after, worse⟩ := demoted
      obtain rfl : ns = ns' := Option.some.inj (found.symm.trans after)
      cases state : ns.state <;> simp [state, worsens] at worse
    | observe id address at_ =>
      rw [← demotes_observe_iff ordered heard id address at_]
      refine forall_congr' fun k => ?_
      constructor
      · intro swept demoted
        cases swept demoted
      · intro calm demoted
        exact absurd demoted calm
    | sweep => exact iff_of_true (fun _ _ => rfl) trivial
  constructor
  · exact Guarded.of_invariant (fun s event heard _ => heard.step event)
      (fun s event heard => (agree s event heard).mp) (heard_start t now rows)
  · exact Guarded.of_invariant (fun s event heard _ => heard.step event)
      (fun s event heard => (agree s event heard).mpr) (heard_start t now rows)

/-- A node that is heard of in time, falls silent, is swept and returns. -/
def comesAndGoes : List LookoutEvent :=
  [.observe "n1" "n1:9000" (some 0), .tick 10, .observe "n1" "n1:9000" (some 8), .tick 30, .sweep,
    .tick 30, .sweep, .observe "n1" "n1:9000" (some 65)]

theorem only_sweeps_demote_comesAndGoes :
    Guarded Lookout.step (fun s event => ∀ id, s.Demotes event id → event = .sweep)
      (.start ⟨15, 45⟩ 0 []) comesAndGoes :=
  (only_sweeps_demote_iff (by decide) 0 [] comesAndGoes).mpr (by decide +kernel)

/-- No sweep runs at all. A heartbeat that is newer than the last one, but took long to be
observed, makes the HEALTHY node that sent it SUSPECT, or DEAD. -/
theorem late_heartbeat_demotes :
    let s := run Lookout.step (.start ⟨15, 45⟩ 0 []) [.observe "n1" "n1:9000" (some 0), .tick 20]
    let s' := run Lookout.step (.start ⟨15, 45⟩ 0 []) [.observe "n1" "n1:9000" (some 0), .tick 60]
    s.monitor.state "n1" = .healthy ∧
      (s.step (.observe "n1" "n1:9000" (some 1))).monitor.state "n1" = .suspect ∧
      s'.monitor.state "n1" = .healthy ∧
      (s'.step (.observe "n1" "n1:9000" (some 1))).monitor.state "n1" = .dead := by
  decide +kernel

end FlexStore.Coordinator
