import FlexStore.Coordinator.RepairManager
import FlexStore.Placement.Strategy

/-!
# Reserving a destination

The repair workers share a map with the number of repairs that each node is the destination
of. A worker reads it under the lock to exclude the nodes that have as many as they may have,
selects a node without the lock, and takes the lock again to count its own repair. Whatever
the workers do in between, the map has the number of reservations that have not been
released. The bound on it does not follow: a worker that reserves a node after another one
has looked makes the other one's look out of date.
-/

namespace FlexStore.Coordinator

open Go Metadata Relational Transition

/-- An entry of `inFlightPerNode`. -/
structure InFlight where
  nodeID : NodeID
  count : Int
  deriving DecidableEq, Repr

/-- The map from nodes to the repairs they are the destination of. -/
abbrev InFlightPerNode := Table InFlight.nodeID

namespace InFlightPerNode

/-- `m.inFlightPerNode[id]`, which is 0 without an entry. -/
def get (m : InFlightPerNode) (id : NodeID) : Int := ((m.find? id).map (·.count)).getD 0

/-- The nodes with as many repairs as a node may have. -/
def saturated (m : InFlightPerNode) (maxPerNode : Int) : List NodeID :=
  (m.select fun e => maxPerNode ≤ e.count).map (·.nodeID)

/-- `m.inFlightPerNode[id] += d`. -/
def add (m : InFlightPerNode) (id : NodeID) (d : Int) : InFlightPerNode :=
  m.upsert ⟨id, d⟩ fun e => { e with count := e.count + d }

/-- The critical section of `release`. -/
def release (m : InFlightPerNode) (id : NodeID) : InFlightPerNode :=
  let m := m.add id (-1)
  if m.get id ≤ 0 then m.deleteWhere (·.nodeID = id) else m

variable {m : InFlightPerNode} {id k : NodeID}

theorem get_add (m : InFlightPerNode) (id : NodeID) (d : Int) (k : NodeID) :
    (m.add id d).get k = m.get k + if id = k then d else 0 := by
  unfold add get
  rw [Table.find?_upsert]
  split_ifs with same
  · cases m.find? k <;> simp
  · simp

theorem get_release (positive : 0 < m.get id) (k : NodeID) :
    (m.release id).get k = m.get k - if id = k then 1 else 0 := by
  have counted : (m.add id (-1)).get k = m.get k - if id = k then 1 else 0 := by
    rw [get_add]
    split <;> omega
  unfold release
  dsimp only
  split
  next drained =>
    rw [← counted]
    by_cases same : id = k
    · subst same
      have zero : (m.add id (-1)).get id = 0 := by
        rw [get_add, if_pos rfl] at drained ⊢
        omega
      rw [zero]
      unfold get
      rw [Table.find?_deleteWhere]
      cases found : (m.add id (-1)).find? id with
      | none => rfl
      | some e => simp [Option.filter_some, (Table.mem_of_find? found).2]
    · unfold get
      rw [Table.find?_deleteWhere]
      cases found : (m.add id (-1)).find? k with
      | none => rfl
      | some e =>
        have other : e.nodeID ≠ id := fun equal =>
          same (equal.symm.trans (Table.mem_of_find? found).2)
        simp [Option.filter_some, other]
  next => exact counted

/-- A node that is not saturated is below the bound. -/
theorem get_lt_of_not_saturated {maxPerNode : Int} (positive : 1 ≤ maxPerNode)
    (free : id ∉ m.saturated maxPerNode) : m.get id < maxPerNode := by
  unfold get
  cases found : m.find? id with
  | none => exact Int.lt_of_lt_of_le (by decide) positive
  | some e =>
    obtain ⟨member, same⟩ := Table.mem_of_find? found
    by_contra full
    refine free (List.mem_map.mpr ⟨e, List.mem_filter.mpr ⟨member, ?_⟩, same⟩)
    simpa using full

end InFlightPerNode

/-- The nodes that the store lists: their identifiers are its primary key. -/
structure Roster where
  nodes : List Placement.NodeInfo
  distinct : (nodes.map (·.id)).Nodup

/-- Where a worker is. Between its two critical sections it has the nodes, the request it has
put together and, for the record, the map as it was when it looked. -/
inductive Phase where
  | idle
  | looked (roster : Roster) (req : Placement.Request) (seen : InFlightPerNode)
  | reserved (id : NodeID)

/-- The worker has reserved the node and not released it. -/
def Phase.holds (id : NodeID) : Phase → Bool
  | .reserved n => n = id
  | _ => false

structure Dispatch where
  inFlight : InFlightPerNode
  workers : List Phase

/-- The given number of workers, none of which has begun. -/
def Dispatch.start (workers : Nat) : Dispatch := ⟨.empty, List.replicate workers .idle⟩

/-- How many reservations of a node have not been released. -/
def Dispatch.reservations (s : Dispatch) (id : NodeID) : Nat := s.workers.countP (·.holds id)

/-- The request of a repair: one node that has nothing to do with the chunk and is not
saturated. -/
def repairRequest (target : RepairTarget) (saturated : List NodeID) : Placement.Request where
  key := toString target.chunkID
  replicas := 1
  chunkSize := target.size
  exclude := target.occupied ++ saturated

/-- The two critical sections of `pickDestination` and the one of `release`. -/
inductive DispatchEvent (F : Type) where
  | look (worker : Nat) (target : RepairTarget) (roster : Roster)
  | reserve (worker : Nat) (strategy : Placement.Strategy F)
  | release (worker : Nat)

section Step

variable {F : Type} [Float64 F] (sorter : Sorter) (cfg : Placement.Config F) (maxPerNode : Int)

/-- The destination that a worker selects, if the strategy finds one. -/
def destination (roster : Roster) (req : Placement.Request) (strategy : Placement.Strategy F) :
    Option NodeID :=
  match strategy.selectNodes sorter cfg roster.nodes req with
  | .ok selected => selected.head?.map (·.id)
  | .error _ => none

/-- One step. A worker that finds no destination gives up, and one that has released its
reservation does not release it again. -/
def Dispatch.step (s : Dispatch) : DispatchEvent F → Dispatch
  | .look w target roster =>
    match s.workers[w]? with
    | some .idle =>
      let req := repairRequest target (s.inFlight.saturated maxPerNode)
      { s with workers := s.workers.set w (.looked roster req s.inFlight) }
    | _ => s
  | .reserve w strategy =>
    match s.workers[w]? with
    | some (.looked roster req _) =>
      match destination sorter cfg roster req strategy with
      | some id => ⟨s.inFlight.add id 1, s.workers.set w (.reserved id)⟩
      | none => { s with workers := s.workers.set w .idle }
    | _ => s
  | .release w =>
    match s.workers[w]? with
    | some (.reserved id) => ⟨s.inFlight.release id, s.workers.set w .idle⟩
    | _ => s

/-- What a worker that has looked reserves next, and the map it has looked at. -/
def Phase.choice (strategy : Placement.Strategy F) : Phase → Option (NodeID × InFlightPerNode)
  | .looked roster req seen => (destination sorter cfg roster req strategy).map (·, seen)
  | _ => none

/-- The node that a worker reserves has no more repairs than when the worker looked. -/
def Dispatch.UpToDate (s : Dispatch) : DispatchEvent F → Prop
  | .reserve w strategy => ∀ c ∈ (s.workers[w]?).bind (Phase.choice sorter cfg strategy),
      s.inFlight.get c.1 ≤ c.2.get c.1
  | _ => True

instance (s : Dispatch) : ∀ e : DispatchEvent F, Decidable (s.UpToDate sorter cfg e)
  | .reserve w strategy => inferInstanceAs (Decidable
      (∀ c ∈ (s.workers[w]?).bind (Phase.choice sorter cfg strategy), _ ≤ _))
  | .look .. | .release _ => isTrue trivial

end Step

def Dispatch.Counts (s : Dispatch) : Prop := ∀ id, s.inFlight.get id = s.reservations id

section Facts

variable {F : Type} [Float64 F] {sorter : Sorter} {cfg : Placement.Config F} {maxPerNode : Int}
  {s : Dispatch}

/-- The destination is not excluded. -/
theorem destination_not_excluded {roster : Roster} {req : Placement.Request}
    {strategy : Placement.Strategy F} {id : NodeID}
    (chosen : destination sorter cfg roster req strategy = some id) : id ∉ req.exclude := by
  unfold destination at chosen
  split at chosen
  next selected success =>
    obtain ⟨n, first, rfl⟩ := Option.map_eq_some_iff.mp chosen
    exact (Placement.Strategy.selects_of_ok roster.distinct success).excluded n
      (List.mem_of_head? first)
  next => cases chosen

/-- A strategy on a list of nodes is a placer for the repair of one chunk. -/
def Placer.ofStrategy (sorter : Sorter) (cfg : Placement.Config F) (roster : Roster)
    (target : RepairTarget) (saturated : List NodeID) (strategy : Placement.Strategy F) :
    Placer where
  place exclude :=
    match destination sorter cfg roster
      { repairRequest target saturated with exclude := exclude ++ saturated } strategy with
    | some id => .ok id
    | none => .error .insufficientNodes
  outside := by
    intro exclude id placed listed
    split at placed
    next chosen =>
      cases placed
      exact destination_not_excluded chosen (List.mem_append_left _ listed)
    next => cases placed

theorem reservations_set {w : Nat} {old : Phase} (at_ : s.workers[w]? = some old) (new : Phase)
    (m : InFlightPerNode) (id : NodeID) :
    ((Dispatch.mk m (s.workers.set w new)).reservations id : Int) =
      s.reservations id - (if old.holds id then 1 else 0) + if new.holds id then 1 else 0 := by
  obtain ⟨inside, rfl⟩ := List.getElem?_eq_some_iff.mp at_
  have counted : (if s.workers[w].holds id then 1 else 0) ≤ s.workers.countP (·.holds id) := by
    split
    next held => exact List.countP_pos_iff.mpr ⟨_, List.getElem_mem inside, held⟩
    next => exact Nat.zero_le _
  simp only [Dispatch.reservations, List.countP_set inside]
  split at counted <;> split <;> simp_all

theorem reservations_pos {w : Nat} {id : NodeID} (at_ : s.workers[w]? = some (.reserved id)) :
    0 < s.reservations id :=
  List.countP_pos_iff.mpr ⟨_, List.mem_of_getElem? at_, by simp [Phase.holds]⟩

/-- Every step of every worker keeps the count. -/
theorem Dispatch.Counts.step (counts : s.Counts) (e : DispatchEvent F) :
    (s.step sorter cfg maxPerNode e).Counts := by
  cases e with
  | look w target roster =>
    unfold Dispatch.step
    dsimp only
    split
    next at_ =>
      intro id
      rw [reservations_set at_, counts id]
      simp [Phase.holds]
    next => exact counts
  | reserve w strategy =>
    unfold Dispatch.step
    dsimp only
    split
    next at_ =>
      split
      next id chosen =>
        intro k
        rw [reservations_set at_, InFlightPerNode.get_add, counts k]
        simp [Phase.holds]
      next =>
        intro k
        rw [reservations_set at_, counts k]
        simp [Phase.holds]
    next => exact counts
  | release w =>
    unfold Dispatch.step
    dsimp only
    split
    next id at_ =>
      intro k
      have positive : 0 < s.inFlight.get id := by
        rw [counts id]
        exact_mod_cast reservations_pos at_
      rw [reservations_set at_, InFlightPerNode.get_release positive, counts k]
      simp [Phase.holds]
    next => exact counts

theorem counts_start (workers : Nat) : (Dispatch.start workers).Counts := by
  intro id
  have none_ : (List.replicate workers Phase.idle).countP (·.holds id) = 0 :=
    List.countP_eq_zero.mpr fun p listed => by simp [List.eq_of_mem_replicate listed, Phase.holds]
  simp only [Dispatch.reservations, Dispatch.start, none_]
  rfl

/-- No node is above the bound, and who has looked excludes the nodes that were at it. -/
structure Dispatch.Bounded (maxPerNode : Int) (s : Dispatch) : Prop where
  bound : ∀ id, s.inFlight.get id ≤ maxPerNode
  looked : ∀ (w : Nat) roster req seen, s.workers[w]? = some (.looked roster req seen) →
    ∀ id, id ∉ req.exclude → seen.get id < maxPerNode

/-- Moving a worker keeps what the others have looked at. -/
theorem Dispatch.Bounded.move (bounded : s.Bounded maxPerNode) {w : Nat} {new : Phase}
    {m : InFlightPerNode} (bound : ∀ id, m.get id ≤ maxPerNode)
    (looked : ∀ roster req seen, new = .looked roster req seen →
      ∀ id, id ∉ req.exclude → seen.get id < maxPerNode) :
    (Dispatch.mk m (s.workers.set w new)).Bounded maxPerNode where
  bound
  looked := by
    intro k roster req seen at_
    rw [List.getElem?_set] at at_
    split_ifs at at_
    · exact looked roster req seen (Option.some.inj at_)
    · exact bounded.looked k roster req seen at_

theorem Dispatch.Bounded.step (positive : 1 ≤ maxPerNode) (counts : s.Counts)
    (bounded : s.Bounded maxPerNode) {e : DispatchEvent F} (current : s.UpToDate sorter cfg e) :
    (s.step sorter cfg maxPerNode e).Bounded maxPerNode := by
  cases e with
  | look w target roster =>
    unfold Dispatch.step
    dsimp only
    split
    next =>
      refine bounded.move bounded.bound ?_
      rintro roster req seen ⟨⟩ id free
      refine InFlightPerNode.get_lt_of_not_saturated positive fun saturated => ?_
      exact free (List.mem_append_right _ saturated)
    next => exact bounded
  | reserve w strategy =>
    unfold Dispatch.step
    dsimp only
    split
    next roster req seen at_ =>
      split
      next id chosen =>
        refine bounded.move (fun k => ?_) (fun _ _ _ none_ => by cases none_)
        rw [InFlightPerNode.get_add]
        split_ifs with same
        · subst same
          have fresh : s.inFlight.get id ≤ seen.get id :=
            current (id, seen) (by simp [at_, Phase.choice, chosen])
          have below := bounded.looked w roster req seen at_ id
            (destination_not_excluded chosen)
          omega
        · have := bounded.bound k
          omega
      next => exact bounded.move bounded.bound (fun _ _ _ none_ => by cases none_)
    next => exact bounded
  | release w =>
    unfold Dispatch.step
    dsimp only
    split
    next id at_ =>
      refine bounded.move (fun k => ?_) (fun _ _ _ none_ => by cases none_)
      have held : 0 < s.inFlight.get id := by
        rw [counts id]
        exact_mod_cast reservations_pos at_
      have := bounded.bound k
      rw [InFlightPerNode.get_release held]
      split <;> omega
    next => exact bounded

end Facts

/-- For every number of workers, every strategy and every interleaving: the map has the number
of reservations that are not released. If no worker reserves a node that has more repairs than
when the worker looked, no node ever has more than it may have. -/
theorem inFlight_counts_reservations {F : Type} [Float64 F] (sorter : Sorter)
    (cfg : Placement.Config F) {maxPerNode : Int} (positive : 1 ≤ maxPerNode) (workers : Nat)
    (events : List (DispatchEvent F)) :
    Always (Dispatch.step sorter cfg maxPerNode) Dispatch.Counts (.start workers) events ∧
      (Guarded (Dispatch.step sorter cfg maxPerNode) (Dispatch.UpToDate sorter cfg)
          (.start workers) events →
        Always (Dispatch.step sorter cfg maxPerNode)
          (fun s => s.Counts ∧ ∀ id, s.inFlight.get id ≤ maxPerNode) (.start workers) events) := by
  have start : (Dispatch.start workers).Bounded maxPerNode := by
    refine ⟨fun id => ?_, fun w roster req seen at_ => ?_⟩
    · have zero : (Dispatch.start workers).inFlight.get id = 0 := rfl
      omega
    · cases List.eq_of_mem_replicate (List.mem_of_getElem? at_)
  constructor
  · exact always_of_preserved (fun _ e counts _ => counts.step e) (counts_start workers)
      (guarded_of_forall (p := fun _ => True) (fun _ _ => trivial) _)
  · intro current
    have both := always_of_preserved
      (P := fun s : Dispatch => s.Counts ∧ s.Bounded maxPerNode)
      (fun _ e inv guard => ⟨inv.1.step e, inv.2.step positive inv.1 guard⟩)
      ⟨counts_start workers, start⟩ current
    exact both.mono fun _ inv => ⟨inv.1, inv.2.bound⟩

/-- A chunk of one byte with a copy on another node. -/
def shortChunk : RepairTarget := ⟨1, 10, 1, "", 0, 1, some 5, 1, [], ["n1"], 0, 0⟩

def oneNode : Roster := ⟨[⟨"n2", "n2:9000", .healthy, 1000, 0, 1000, 0, 0⟩], by decide⟩

/-- Two workers with one slot on the node, one after the other. -/
def takingTurns : List (DispatchEvent Rat) :=
  [.look 0 shortChunk oneNode, .reserve 0 .rendezvous, .look 1 shortChunk oneNode,
    .reserve 1 .rendezvous, .release 0, .look 1 shortChunk oneNode, .reserve 1 .rendezvous,
    .release 1]

theorem inFlight_counts_takingTurns :
    Always (Dispatch.step .merge (Placement.defaultConfig : Placement.Config Rat) 1)
      (fun s => s.Counts ∧ ∀ id, s.inFlight.get id ≤ 1) (.start 2) takingTurns :=
  (inFlight_counts_reservations .merge (Placement.defaultConfig : Placement.Config Rat)
    (by decide) 2 takingTurns).2 (by decide +kernel)

/-- Both look before either reserves, and the node has two repairs where it may have one. -/
theorem both_reserve_the_last_slot :
    (run (Dispatch.step .merge (Placement.defaultConfig : Placement.Config Rat) 1) (.start 2)
      [.look 0 shortChunk oneNode, .look 1 shortChunk oneNode, .reserve 0 .rendezvous,
        .reserve 1 .rendezvous]).inFlight.get "n2" = 2 := by
  decide +kernel

end FlexStore.Coordinator
