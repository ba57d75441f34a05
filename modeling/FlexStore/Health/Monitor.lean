import FlexStore.Coordinator.Monitor
import Mathlib.Order.Bounds.Basic

/-!
# What the health monitor remembers and reports

`Observe` and `Sweep` with the times of Go: an instant is a number, the zero time is one of
them and not a missing value, and the difference of two instants is cut off where a `Duration`
ends. `Observe` reads the clock once for the state and twice more for what it reports.

Whatever is observed and swept, and whatever the clock shows: the monitor remembers the latest
heartbeat of a node that is not before the zero time, and what it reports of a node is a chain
of changes from UNKNOWN to the state that the node is in. For heartbeats that are not before
the zero time this is the monitor of the coordinator's model (`run_matches`), which has no
instants before it.

The order in which a sweep reports the nodes is that of the table; the map of the source has
no order. Each node is reported once, so nothing that is said of one node depends on it.
-/

namespace FlexStore.Health

open Metadata Relational Transition
open Coordinator (Thresholds)

/-- Nanoseconds since the zero time. -/
abbrev Instant := Int

/-- `t.Sub(u)`. -/
def sub (t u : Instant) : Duration := max (-2 ^ 63) (min (2 ^ 63 - 1) (t - u))

def classify (last now : Instant) (t : Thresholds) : Metadata.Health :=
  if last = 0 then .dead
  else
    let age := sub now last
    if t.deadAfter ≤ age then .dead
    else if t.suspectAfter ≤ age then .suspect
    else .healthy

structure StateChange where
  nodeID : NodeID
  src : Metadata.Health
  dst : Metadata.Health
  at_ : Instant
  age : Duration
  address : String
  deriving DecidableEq, Repr

structure NodeState where
  address : String
  state : Metadata.Health
  lastHeartbeat : Instant
  deriving DecidableEq, Repr

def NodeState.new : NodeState := ⟨"", .unknown, 0⟩

structure Tracked where
  nodeID : NodeID
  entry : NodeState
  deriving DecidableEq, Repr

/-- The monitor. Its map of nodes is a table: no node has two entries. -/
structure Monitor where
  thresholds : Thresholds
  nodes : Table Tracked.nodeID

/-- A call, with what the clock shows when it is read. -/
inductive Event where
  | observe (id : NodeID) (address : String) (at_ now reported aged : Instant)
  | sweep (now : Instant)
  deriving DecidableEq, Repr

namespace Monitor

def new (t : Thresholds) : Monitor := ⟨t, .empty⟩

/-- `m.nodes[nodeID]`. -/
def lookup (m : Monitor) (id : NodeID) : Option NodeState := (m.nodes.find? id).map (·.entry)

/-- `m.nodes[nodeID] = ns`. -/
def put (m : Monitor) (id : NodeID) (ns : NodeState) : Monitor :=
  { m with nodes := m.nodes.upsert ⟨id, ns⟩ fun e => { e with entry := ns } }

/-- The entry of a node, or the one that it would start with. -/
def entry (m : Monitor) (id : NodeID) : NodeState := (m.lookup id).getD .new

def observe (m : Monitor) (id : NodeID) (address : String) (at_ now reported aged : Instant) :
    Monitor × Option StateChange :=
  let ns := m.entry id
  if at_ < ns.lastHeartbeat then (m.put id ns, none)
  else
    let next := classify at_ now m.thresholds
    (m.put id ⟨address, next, at_⟩,
      if next = ns.state then none
      else some ⟨id, ns.state, next, reported, sub aged at_, address⟩)

/-- The change of one node that a sweep reports. -/
def sweepChange (t : Thresholds) (now : Instant) (e : Tracked) : Option StateChange :=
  let next := classify e.entry.lastHeartbeat now t
  if next = e.entry.state then none
  else some ⟨e.nodeID, e.entry.state, next, now, sub now e.entry.lastHeartbeat, e.entry.address⟩

def sweep (m : Monitor) (now : Instant) : Monitor × List StateChange :=
  ({ m with
      nodes := m.nodes.updateWhere (fun _ => true) fun e =>
        { e with entry :=
          { e.entry with state := classify e.entry.lastHeartbeat now m.thresholds } } },
    m.nodes.rows.filterMap (sweepChange m.thresholds now))

def next (m : Monitor) : Event → Monitor
  | .observe id address at_ now reported aged => (m.observe id address at_ now reported aged).1
  | .sweep now => (m.sweep now).1

def emits (m : Monitor) : Event → List StateChange
  | .observe id address at_ now reported aged =>
    (m.observe id address at_ now reported aged).2.toList
  | .sweep now => (m.sweep now).2

def history : Monitor → List Event → List StateChange
  | _, [] => []
  | m, event :: rest => m.emits event ++ history (m.next event) rest

end Monitor

def heartbeats (id : NodeID) (events : List Event) : List Instant :=
  events.filterMap fun event =>
    match event with
    | .observe k _ at_ _ _ _ => if k = id then some at_ else none
    | .sweep _ => none

/-- Changes that lead from one state to another, each from where the one before it ended. -/
def Chain : Metadata.Health → List StateChange → Metadata.Health → Prop
  | start, [], final => final = start
  | start, change :: rest, final =>
    change.src = start ∧ change.src ≠ change.dst ∧ Chain change.dst rest final

section Chains

variable {start middle final : Metadata.Health}

theorem Chain.append {first second : List StateChange} (left : Chain start first middle)
    (right : Chain middle second final) : Chain start (first ++ second) final := by
  induction first generalizing start with
  | nil =>
    rw [Chain] at left
    rwa [List.nil_append, ← left]
  | cons change rest ih =>
    obtain ⟨from_, differs, others⟩ := left
    exact ⟨from_, differs, ih others⟩

end Chains

namespace Monitor

variable {m : Monitor} {id k : NodeID}

theorem lookup_put (m : Monitor) (id : NodeID) (ns : NodeState) (k : NodeID) :
    (m.put id ns).lookup k = if id = k then some ns else m.lookup k := by
  rw [put, lookup, Table.find?_upsert]
  split_ifs with same
  · cases m.nodes.find? k <;> rfl
  · rfl

theorem lookup_sweep (m : Monitor) (now : Instant) (k : NodeID) :
    (m.sweep now).1.lookup k = (m.lookup k).map fun ns =>
      { ns with state := classify ns.lastHeartbeat now m.thresholds } := by
  rw [sweep, lookup, lookup, Table.find?_updateWhere, Option.map_map, Option.map_map]
  rfl

/-- What a sweep reports of a node. -/
theorem filter_sweep (m : Monitor) (now : Instant) (id : NodeID) :
    (m.sweep now).2.filter (·.nodeID = id) =
      ((m.nodes.find? id).bind (sweepChange m.thresholds now)).toList := by
  apply Table.filter_filterMap
  intro e change reported
  rw [sweepChange] at reported
  split_ifs at reported
  cases reported
  rfl

@[simp] theorem thresholds_next (m : Monitor) (event : Event) :
    (m.next event).thresholds = m.thresholds := by
  cases event with
  | sweep now => rfl
  | observe id address at_ now reported aged =>
    rw [next, observe]
    dsimp only
    split_ifs <;> rfl

/-- A heartbeat leaves the other nodes alone, and its own node remembers the later time. -/
theorem lookup_observe (m : Monitor) (id : NodeID) (address : String)
    (at_ now reported aged : Instant) (k : NodeID) :
    ((m.observe id address at_ now reported aged).1).lookup k =
      if id = k then
        some (if at_ < (m.entry id).lastHeartbeat then m.entry id
          else ⟨address, classify at_ now m.thresholds, at_⟩)
      else m.lookup k := by
  rw [observe]
  by_cases older : at_ < (m.entry id).lastHeartbeat
  · rw [if_pos older, if_pos older]
    exact lookup_put m id (m.entry id) k
  · rw [if_neg older, if_neg older]
    exact lookup_put m id _ k

theorem entry_observe (m : Monitor) (id : NodeID) (address : String)
    (at_ now reported aged : Instant) (k : NodeID) :
    ((m.observe id address at_ now reported aged).1).entry k =
      if id = k then
        if at_ < (m.entry id).lastHeartbeat then m.entry id
        else ⟨address, classify at_ now m.thresholds, at_⟩
      else m.entry k := by
  rw [entry, lookup_observe]
  split_ifs <;> rfl

theorem entry_sweep (m : Monitor) (now : Instant) (k : NodeID) :
    ((m.sweep now).1).entry k =
      if (m.lookup k).isSome then
        { m.entry k with state := classify (m.entry k).lastHeartbeat now m.thresholds }
      else m.entry k := by
  rw [entry, lookup_sweep, entry]
  cases m.lookup k <;> rfl

/-- The time that a node remembers after a call. -/
theorem lastHeartbeat_next (m : Monitor) (event : Event) (id : NodeID) :
    ((m.next event).entry id).lastHeartbeat =
      (heartbeats id [event]).foldl max (m.entry id).lastHeartbeat := by
  cases event with
  | sweep now =>
    show (((m.sweep now).1).entry id).lastHeartbeat = (m.entry id).lastHeartbeat
    rw [entry_sweep]
    split_ifs <;> rfl
  | observe k address at_ now reported aged =>
    rw [next, entry_observe]
    by_cases same : k = id
    · subst same
      have one : heartbeats k [.observe k address at_ now reported aged] = [at_] := by
        simp [heartbeats]
      rw [if_pos rfl, one, List.foldl_cons, List.foldl_nil]
      by_cases older : at_ < (m.entry k).lastHeartbeat
      · rw [if_pos older, max_eq_left older.le]
      · rw [if_neg older, max_eq_right (not_lt.mp older)]
    · have none_ : heartbeats id [.observe k address at_ now reported aged] = [] := by
        simp [heartbeats, same]
      rw [if_neg same, none_, List.foldl_nil]

/-- What a call reports of a node leads from the state before it to the state after it. -/
theorem chain_next (m : Monitor) (event : Event) (id : NodeID) :
    Chain (m.entry id).state ((m.emits event).filter (·.nodeID = id))
      ((m.next event).entry id).state := by
  cases event with
  | sweep now =>
    show Chain _ ((m.sweep now).2.filter (·.nodeID = id)) (((m.sweep now).1).entry id).state
    rw [filter_sweep, entry_sweep]
    cases found : m.nodes.find? id with
    | none =>
      have unknown : m.lookup id = none := by rw [lookup, found, Option.map_none]
      rw [unknown]
      rfl
    | some e =>
      have known : m.lookup id = some e.entry := by rw [lookup, found, Option.map_some]
      have entry_eq : m.entry id = e.entry := by rw [entry, known, Option.getD_some]
      rw [known, entry_eq, Option.bind_some, sweepChange]
      by_cases same : classify e.entry.lastHeartbeat now m.thresholds = e.entry.state
      · simp only [same, if_true]
        rfl
      · simp only [same, if_false]
        exact ⟨rfl, Ne.symm same, rfl⟩
  | observe k address at_ now reported aged =>
    rw [next, emits, entry_observe, observe]
    by_cases older : at_ < (m.entry k).lastHeartbeat
    · simp only [older, if_true]
      split_ifs with same
      · rw [same]
        rfl
      · rfl
    · simp only [older, if_false]
      by_cases stays : classify at_ now m.thresholds = (m.entry k).state
      · simp only [stays, if_true]
        split_ifs with same
        · rw [same]
          rfl
        · rfl
      · simp only [stays, if_false]
        by_cases same : k = id
        · subst same
          simp only [if_true, Option.toList_some, List.filter_cons, decide_true,
            List.filter_nil]
          exact ⟨rfl, Ne.symm stays, rfl⟩
        · simp only [same, if_false, Option.toList_some, List.filter_cons, decide_false,
            List.filter_nil]
          rfl

/-- A second sweep at the same time finds nothing to change. -/
theorem sweep_sweep (m : Monitor) (now : Instant) : ((m.sweep now).1.sweep now).2 = [] := by
  have settled : ∀ e ∈ (m.sweep now).1.nodes.rows, sweepChange m.thresholds now e = none := by
    intro e listed
    obtain ⟨old, _, rfl⟩ := List.mem_map.mp listed
    exact if_pos rfl
  exact List.filterMap_eq_nil_iff.mpr settled

/-- A node is tracked from its first heartbeat on. -/
theorem isSome_lookup_next (m : Monitor) (event : Event) (id : NodeID) :
    ((m.next event).lookup id).isSome ↔ (m.lookup id).isSome ∨ heartbeats id [event] ≠ [] := by
  cases event with
  | sweep now =>
    rw [next, lookup_sweep, Option.isSome_map]
    simp [heartbeats]
  | observe k address at_ now reported aged =>
    rw [next, lookup_observe]
    by_cases same : k = id
    · simp [heartbeats, same]
    · simp [heartbeats, same]

end Monitor

section Runs

variable (m : Monitor) (events : List Event) (id : NodeID)

theorem heartbeats_cons (event : Event) (events : List Event) (id : NodeID) :
    heartbeats id (event :: events) = heartbeats id [event] ++ heartbeats id events :=
  List.filterMap_append (l := [event])

/-- The time that a node remembers after any calls. -/
theorem lastHeartbeat_run :
    ((run Monitor.next m events).entry id).lastHeartbeat =
      (heartbeats id events).foldl max (m.entry id).lastHeartbeat := by
  induction events generalizing m with
  | nil => rfl
  | cons event events ih =>
    rw [run_cons, ih, Monitor.lastHeartbeat_next, heartbeats_cons event events, List.foldl_append]

/-- The reports of any calls on a node lead from its state before to its state after. -/
theorem chain_run :
    Chain (m.entry id).state ((m.history events).filter (·.nodeID = id))
      ((run Monitor.next m events).entry id).state := by
  induction events generalizing m with
  | nil => rfl
  | cons event events ih =>
    rw [run_cons, Monitor.history, List.filter_append]
    exact (m.chain_next event id).append (ih (m.next event))

theorem isSome_lookup_run :
    ((run Monitor.next m events).lookup id).isSome ↔
      (m.lookup id).isSome ∨ heartbeats id events ≠ [] := by
  induction events generalizing m with
  | nil => simp [heartbeats]
  | cons event events ih =>
    rw [run_cons, ih, Monitor.isSome_lookup_next, heartbeats_cons event events, or_assoc]
    simp only [ne_eq, List.append_eq_nil_iff, not_and_or]

theorem thresholds_run : (run Monitor.next m events).thresholds = m.thresholds := by
  induction events generalizing m with
  | nil => rfl
  | cons event events ih => rw [run_cons, ih, Monitor.thresholds_next]

end Runs

/-- The greatest element of a list and a number. -/
theorem isGreatest_foldl_max (l : List Int) (a : Int) :
    IsGreatest {x | x ∈ a :: l} (l.foldl max a) := by
  induction l generalizing a with
  | nil => simp
  | cons b l ih =>
    obtain ⟨member, bound⟩ := ih (max a b)
    have first : max a b ≤ l.foldl max (max a b) := bound List.mem_cons_self
    rw [List.foldl_cons]
    constructor
    · obtain same | later := List.mem_cons.mp member
      · obtain left | right := max_choice a b
        · exact List.mem_cons.mpr (Or.inl (same.trans left))
        · exact List.mem_cons_of_mem a (List.mem_cons.mpr (Or.inl (same.trans right)))
      · exact List.mem_cons_of_mem a (List.mem_cons_of_mem b later)
    · intro x listed
      obtain rfl | later := List.mem_cons.mp listed
      · exact (le_max_left x b).trans first
      · obtain rfl | later := List.mem_cons.mp later
        · exact (le_max_right a x).trans first
        · exact bound (List.mem_cons_of_mem _ later)

/-- For every sequence of heartbeats and sweeps on a fresh monitor, and for each node: the
remembered time is the largest of the zero time and the timestamps that were observed; the
changes that were reported form a chain from UNKNOWN to the state of the node; after a sweep
the state of a node that has been heard of is that of the remembered time; and a second sweep
at the same time reports nothing. -/
theorem monitor_remembers_and_reports (t : Thresholds) (events : List Event) (id : NodeID) :
    IsGreatest {at_ | at_ ∈ 0 :: heartbeats id events}
      ((run Monitor.next (.new t) events).entry id).lastHeartbeat ∧
    Chain .unknown ((Monitor.history (.new t) events).filter (·.nodeID = id))
      ((run Monitor.next (.new t) events).entry id).state ∧
    (((run Monitor.next (.new t) events).lookup id).isSome ↔ heartbeats id events ≠ []) ∧
    ∀ now,
      ((run Monitor.next (.new t) events).sweep now).1.lookup id =
        ((run Monitor.next (.new t) events).lookup id).map (fun ns =>
          { ns with state := classify ns.lastHeartbeat now t }) ∧
      (((run Monitor.next (.new t) events).sweep now).1.sweep now).2 = [] := by
  refine ⟨?_, chain_run (.new t) events id, ?_, ?_⟩
  · rw [lastHeartbeat_run]
    exact isGreatest_foldl_max _ 0
  · rw [isSome_lookup_run]
    exact or_iff_right fun absurd_ => by cases absurd_
  · intro now
    refine ⟨?_, Monitor.sweep_sweep _ now⟩
    rw [Monitor.lookup_sweep, thresholds_run]
    rfl

/-- A heartbeat from before the zero time. -/
def earlyHeartbeat : List Event := [.observe "n1" "n1:9000" (-1) 5 5 5]

/-- It is ignored: the node remembers the zero time, which it has never reported. -/
theorem early_heartbeat_ignored :
    heartbeats "n1" earlyHeartbeat = [-1] ∧
      ((run Monitor.next (.new ⟨15, 45⟩) earlyHeartbeat).entry "n1").lastHeartbeat = 0 ∧
      ¬ IsGreatest {at_ | at_ ∈ heartbeats "n1" earlyHeartbeat}
        ((run Monitor.next (.new ⟨15, 45⟩) earlyHeartbeat).entry "n1").lastHeartbeat := by
  have seen : heartbeats "n1" earlyHeartbeat = [-1] := rfl
  have remembered :
      ((run Monitor.next (.new ⟨15, 45⟩) earlyHeartbeat).entry "n1").lastHeartbeat = 0 := by
    rw [lastHeartbeat_run, seen]
    rfl
  refine ⟨seen, remembered, ?_⟩
  rw [seen, remembered]
  intro greatest
  exact absurd greatest.1 (by decide)

section Refinement

/-- The entry of the coordinator's model, in which the zero time is a missing value. -/
def NodeState.abstract (ns : NodeState) : Coordinator.NodeState where
  address := ns.address
  state := ns.state
  lastHeartbeat := if ns.lastHeartbeat = 0 then none else some ns.lastHeartbeat

/-- The timestamp of the coordinator's model. -/
def abstractTime (at_ : Instant) : Option Time := if at_ = 0 then none else some at_

/-- The two monitors know the same, and nothing is from before the zero time. -/
structure Matches (m : Monitor) (c : Coordinator.Monitor) : Prop where
  thresholds : m.thresholds = c.thresholds
  entries : ∀ k, (m.lookup k).map NodeState.abstract = c.lookup k
  nonneg : ∀ k, 0 ≤ (m.entry k).lastHeartbeat

/-- Thresholds that a `Duration` can hold and exceed. -/
structure Bounded (t : Thresholds) : Prop where
  suspect : -2 ^ 63 < t.suspectAfter ∧ t.suspectAfter < 2 ^ 63
  dead : -2 ^ 63 < t.deadAfter ∧ t.deadAfter < 2 ^ 63

/-- Cutting a number off does not change how it compares with a number in the range. -/
theorem le_clamp_iff {d n : Int} (low : -2 ^ 63 < d) (high : d < 2 ^ 63) :
    d ≤ max (-2 ^ 63) (min (2 ^ 63 - 1) n) ↔ d ≤ n := by
  omega

theorem le_sub_iff {d : Duration} (low : -2 ^ 63 < d) (high : d < 2 ^ 63) (t u : Instant) :
    d ≤ sub t u ↔ d ≤ t - u :=
  le_clamp_iff low high

theorem classify_eq {t : Thresholds} (bounded : Bounded t) (last now : Instant) :
    classify last now t = Coordinator.classify t (abstractTime last) now := by
  rw [classify, abstractTime]
  split_ifs with zero
  · rfl
  · simp only [Coordinator.classify, le_sub_iff bounded.suspect.1 bounded.suspect.2,
      le_sub_iff bounded.dead.1 bounded.dead.2]

theorem before_eq {at_ last : Instant} (at_nonneg : 0 ≤ at_) (nonneg : 0 ≤ last) :
    Coordinator.before (abstractTime at_) (abstractTime last) = decide (at_ < last) := by
  rw [abstractTime, abstractTime]
  split_ifs with first second second
  · rw [first, second]
    rfl
  · rw [first]
    exact (decide_eq_true (lt_of_le_of_ne nonneg (Ne.symm second))).symm
  · rw [second]
    exact (decide_eq_false (not_lt.mpr at_nonneg)).symm
  · rfl

variable {m : Monitor} {c : Coordinator.Monitor}

theorem matches_new (t : Thresholds) : Matches (.new t) (.new t) :=
  ⟨rfl, fun _ => rfl, fun _ => Int.le_refl 0⟩

theorem Matches.lastHeartbeat (matches_ : Matches m c) (k : NodeID) :
    (c.lookup k).bind (·.lastHeartbeat) = abstractTime (m.entry k).lastHeartbeat := by
  rw [← matches_.entries, Monitor.entry]
  cases m.lookup k <;> rfl

/-- A heartbeat that is not from before the zero time does the same to both. -/
theorem Matches.observe (matches_ : Matches m c) (bounded : Bounded m.thresholds) (id : NodeID)
    (address : String) {at_ : Instant} (nonneg : 0 ≤ at_) (now reported aged : Instant) :
    Matches (m.observe id address at_ now reported aged).1
      (c.observe now id address (abstractTime at_)).1 where
  thresholds := by
    rw [Coordinator.Monitor.thresholds_observe, ← matches_.thresholds]
    exact m.thresholds_next (.observe id address at_ now reported aged)
  entries k := by
    rw [Monitor.lookup_observe]
    by_cases same : id = k
    · subst same
      rw [if_pos rfl, Coordinator.Monitor.lookup_observe_self, matches_.lastHeartbeat,
        before_eq nonneg (matches_.nonneg id), Option.map_some, ← matches_.thresholds,
        ← classify_eq bounded, ← matches_.entries]
      by_cases older : at_ < (m.entry id).lastHeartbeat
      · rw [if_pos older, if_pos (decide_eq_true older), Monitor.entry]
        cases m.lookup id <;> rfl
      · rw [if_neg older, if_neg (by rw [decide_eq_true_eq]; exact older)]
        rfl
    · rw [if_neg same, Coordinator.Monitor.lookup_observe_other (Ne.symm same), matches_.entries]
  nonneg k := by
    rw [Monitor.entry_observe]
    split_ifs
    · exact matches_.nonneg id
    · exact nonneg
    · exact matches_.nonneg k

/-- A sweep does the same to both. -/
theorem Matches.sweep (matches_ : Matches m c) (bounded : Bounded m.thresholds) (now : Instant) :
    Matches (m.sweep now).1 (c.sweep now).1 where
  thresholds := matches_.thresholds
  entries k := by
    rw [Monitor.lookup_sweep, Coordinator.Monitor.lookup_sweep, ← matches_.entries,
      ← matches_.thresholds, Option.map_map, Option.map_map]
    congr 1
    funext ns
    simp only [Function.comp, NodeState.abstract, classify_eq bounded]
    rfl
  nonneg k := by
    rw [Monitor.entry_sweep]
    split_ifs <;> exact matches_.nonneg k

/-- The event in the coordinator's model. -/
def follow (c : Coordinator.Monitor) : Event → Coordinator.Monitor
  | .observe id address at_ now _ _ => (c.observe now id address (abstractTime at_)).1
  | .sweep now => (c.sweep now).1

/-- The event is no heartbeat from before the zero time. -/
def Event.Timely : Event → Prop
  | .observe _ _ at_ _ _ _ => 0 ≤ at_
  | .sweep _ => True

theorem Matches.next (matches_ : Matches m c) (bounded : Bounded m.thresholds) {event : Event}
    (timely : event.Timely) : Matches (m.next event) (follow c event) := by
  cases event with
  | observe id address at_ now reported aged =>
    exact matches_.observe bounded id address timely now reported aged
  | sweep now => exact matches_.sweep bounded now

/-- Over every run of timely events the two monitors know the same. -/
theorem run_matches {t : Thresholds} (bounded : Bounded t) {events : List Event}
    (timely : ∀ event ∈ events, event.Timely) :
    Matches (run Monitor.next (.new t) events) (run follow (.new t) events) := by
  suffices follows : ∀ m c, Matches m c → Bounded m.thresholds →
      Matches (run Monitor.next m events) (run follow c events) from
    follows _ _ (matches_new t) bounded
  induction events with
  | nil => exact fun _ _ start _ => start
  | cons event rest ih =>
    obtain ⟨here, later⟩ := List.forall_mem_cons.mp timely
    intro m c start bounded
    refine ih later _ _ (start.next bounded here) ?_
    rwa [Monitor.thresholds_next]

theorem run_matches_silent : Matches
    (run Monitor.next (.new ⟨10, 30⟩) [.observe "n1" "n1:9000" 5 6 6 6, .sweep 20])
    (run follow (.new ⟨10, 30⟩) [.observe "n1" "n1:9000" 5 6 6 6, .sweep 20]) :=
  run_matches ⟨by decide, by decide⟩ (by simp [Event.Timely])

end Refinement

end FlexStore.Health
