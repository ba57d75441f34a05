import FlexStore.Metadata.View
import Mathlib.Data.String.Basic

/-!
# Storage nodes

Registration, heartbeats and persisted health transitions. Marking a node DEAD
demotes its AVAILABLE and WRITING replicas in the same transaction; returning to
HEALTHY restores nothing.
-/

namespace FlexStore.Metadata

open Relational Transition

variable {db db' : Database} {id : NodeID} {now at_ : Time} {health : Health} {address : String}
  {stats : NodeStats}

/-- The columns that a registration or a heartbeat overwrites. -/
@[reducible] def NodeRow.refresh (now : Time) (address : String) (health : Health)
    (stats : NodeStats) (at_ : Time) (old : NodeRow) : NodeRow :=
  { old with
    grpcAddress := address
    health
    stats
    lastHeartbeatAt := some at_
    updatedAt := now }

/-- Registers a node or refreshes an existing registration. -/
def upsertNode (now : Time) (id : NodeID) (address : String) (health : Health) (stats : NodeStats)
    (at_ : Time) (db : Database) : Result Database := do
  require stats.valid (.constraint .check)
  let row : NodeRow :=
    { id, grpcAddress := address, health, stats, lastHeartbeatAt := some at_,
      registeredAt := now, updatedAt := now }
  pure { db with nodes := db.nodes.upsert row (NodeRow.refresh now address health stats at_) }

theorem upsertNode_ok (h : upsertNode now id address health stats at_ db = .ok db') :
    ∃ row, row.health = health ∧ db'.view = { db.view with
      nodes := Function.update db.view.nodes id (some row) } := by
  simp only [upsertNode, bind_eq_ok, require_eq_ok, pure_eq_ok] at h
  obtain ⟨-, -, rfl⟩ := h
  refine ⟨_, ?_, View.ext (Table.find?_upsert_eq _ _ _ _) rfl rfl rfl rfl rfl⟩
  cases db.nodes.find? id <;> rfl

/-- Updates liveness and capacity for an already-registered node. -/
def recordHeartbeat (now : Time) (id : NodeID) (address : String) (stats : NodeStats)
    (health : Health) (at_ : Time) (db : Database) : Result Database := do
  let _ ← lookup (db.nodes.find? id) .notFound
  require stats.valid (.constraint .check)
  pure { db with
    nodes := db.nodes.updateWhere (·.id = id) (NodeRow.refresh now address health stats at_) }

theorem recordHeartbeat_refresh (h : recordHeartbeat now id address stats health at_ db = .ok db') :
    ∃ old, db.view.nodes id = some old ∧ db'.view = { db.view with
      nodes := Function.update db.view.nodes id
        (some (old.refresh now address health stats at_)) } := by
  simp only [recordHeartbeat, bind_eq_ok, require_eq_ok, lookup_eq_ok, pure_eq_ok] at h
  obtain ⟨old, found, -, -, rfl⟩ := h
  exact ⟨old, found, View.ext (Table.find?_updateKey found) rfl rfl rfl rfl rfl⟩

theorem recordHeartbeat_ok (h : recordHeartbeat now id address stats health at_ db = .ok db') :
    ∃ row, row.health = health ∧ db'.view = { db.view with
      nodes := Function.update db.view.nodes id (some row) } := by
  obtain ⟨old, -, view⟩ := recordHeartbeat_refresh h
  exact ⟨old.refresh now address health stats at_, rfl, view⟩

/-- The replicas a dead node can no longer serve: AVAILABLE and WRITING ones. -/
def servedBy (id : NodeID) (r : ReplicaRow) : Bool :=
  r.nodeID = id && (r.state = .available || r.state = .writing)

/-- Flips a node's replicas to UNAVAILABLE and returns how many there were. -/
def markReplicasUnavailableOnNode (now : Time) (id : NodeID) (db : Database) : Nat × Database :=
  (db.replicas.count (servedBy id), db.setReplicaState now (servedBy id) .unavailable)

/-- The copies that a node was serving or about to serve become UNAVAILABLE. -/
def View.demoteNode (v : View) (id : NodeID) : View :=
  v.mapReplicas fun _ n s =>
    if n = id && (s = .available || s = .writing) then .unavailable else s

theorem view_markReplicasUnavailableOnNode (now : Time) (id : NodeID) (db : Database) :
    (markReplicasUnavailableOnNode now id db).2.view = db.view.demoteNode id :=
  view_setReplicaState fun _ n s => n = id && (s = .available || s = .writing)

/-- The columns that a health transition overwrites. -/
@[reducible] def NodeRow.setHealth (now : Time) (health : Health) (old : NodeRow) : NodeRow :=
  { old with health, updatedAt := now }

/-- Persists a health transition and keeps replica states consistent with it. -/
def setNodeHealth (now : Time) (id : NodeID) (health : Health) (db : Database) :
    Nat × Database :=
  let db := { db with nodes := db.nodes.updateWhere (·.id = id) (NodeRow.setHealth now health) }
  if health = .dead then markReplicasUnavailableOnNode now id db else (0, db)

theorem view_setNodeHealth (now : Time) (id : NodeID) (health : Health) (db : Database) :
    (setNodeHealth now id health db).2.view =
      if health = .dead then
        (db.view.mapNodes (·.id = id) (NodeRow.setHealth now health)).demoteNode id
      else db.view.mapNodes (·.id = id) (NodeRow.setHealth now health) := by
  unfold setNodeHealth
  split
  · rw [view_markReplicasUnavailableOnNode, view_updateNodes]
  · exact view_updateNodes

theorem nodes_setNodeHealth {row : NodeRow} (found : db.view.nodes id = some row) :
    (setNodeHealth now id health db).2.view.nodes id = some (row.setHealth now health) := by
  have same : row.id = id := (Table.mem_of_find? found).2
  have row' : (db.view.mapNodes (·.id = id) (NodeRow.setHealth now health)).nodes id =
      some (row.setHealth now health) := by
    simp [View.mapNodes, found, same]
  rw [view_setNodeHealth]
  split
  · exact row'
  · exact row'

end FlexStore.Metadata
