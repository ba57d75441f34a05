import FlexStore.Metadata.Integrity

/-!
# Dead nodes

A node that is declared DEAD loses its AVAILABLE copies in the same transaction.
Nothing stops a later report, sent before the declaration, from making a copy on the
node AVAILABLE again: commits, finished repairs and promotions do not look at the
node's health. Without such reports a DEAD node never has an AVAILABLE copy.
-/

namespace FlexStore.Metadata

open Relational Transition View

def Database.deadNode (db : Database) (n : NodeID) : Bool :=
  (db.nodes.find? n).any (·.health = .dead)

def DeadNodesUnavailable (db : Database) : Prop :=
  ∀ c n, db.deadNode n → db.replicaState c n ≠ some .available

/-- The call makes a copy on a DEAD node AVAILABLE. -/
def Op.revivesDead (db : Database) : Op → Bool
  | .commitChunk _ _ _ succeeded _ _ => succeeded.any db.deadNode
  | .completeRepair _ _ n => db.deadNode n
  | .promoteVerifiedReplica c n => db.deadNode n && db.replicaState c n = some .stale
  | _ => false

/-- Registrations and heartbeats carry HEALTHY, as the service sends them. -/
def Op.registersHealthy (op : Op) : Bool := op.registers.all (·.2 = .healthy)

variable {db db' : Database} {op : Op} {r : Reply}

theorem Op.reports_deadNode {c : UUID} {n : NodeID} (report : op.reports db c n)
    (dead : db.deadNode n) : op.revivesDead db := by
  cases op with
  | commitChunk =>
    simp only [reports, Bool.and_eq_true, decide_eq_true_eq] at report
    simpa [revivesDead] using ⟨n, report.2, dead⟩
  | completeRepair =>
    simp only [reports, Bool.and_eq_true, decide_eq_true_eq] at report
    simpa [revivesDead, report.2] using dead
  | promoteVerifiedReplica =>
    simp only [reports, Bool.and_eq_true, decide_eq_true_eq] at report
    simpa [revivesDead, report.1.1, report.1.2, report.2] using dead
  | _ => simp [reports] at report

/-- What declaring a node DEAD does. -/
theorem Change.declared_dead {n : NodeID} (change : Change db db' (.setNodeHealth n .dead) r) :
    ∃ now, db'.view =
      (db.view.mapNodes (·.id = n) (NodeRow.setHealth now .dead)).demoteNode n := by
  cases change with
  | healthSet _ _ now view => exact ⟨now, view⟩
  | registered _ _ _ call => cases call
  | bookkeeping quiet | failed quiet | sessionsAborted quiet | trimmed quiet | purged quiet
  | sessionsPurged quiet => cases quiet.2

theorem Change.unavailable_of_dead {n : NodeID}
    (change : Change db db' (.setNodeHealth n .dead) r) (c : UUID) :
    db'.replicaState c n ≠ some .available := by
  intro demoted
  obtain ⟨now, view⟩ := change.declared_dead
  change (db'.view.slots c n).replica = _ at demoted
  rw [view, View.demoteNode, slot_mapReplicas] at demoted
  obtain ⟨old, -, state⟩ := Option.map_eq_some_iff.mp demoted
  cases old <;> simp at state

/-- A node is DEAD because it was, or because a registration says so, or because its
copies have just been demoted. -/
theorem Change.dead_node (change : Change db db' op r) {n : NodeID} (after : db'.deadNode n) :
    db.deadNode n ∨ op.registers = some (n, .dead) ∨
      ∀ c, db'.replicaState c n ≠ some .available := by
  have move := change.node_move n
  change (db'.view.nodes n).any _ = true at after
  change (db.view.nodes n).any _ = true ∨ _
  generalize db.view.nodes n = o at *
  generalize db'.view.nodes n = o' at *
  cases move with
  | same => exact Or.inl after
  | registered call => exact Or.inr (Or.inl (by simpa [of_decide_eq_true after] using call))
  | healthSet health now call =>
    obtain rfl : health = .dead := of_decide_eq_true after
    subst call
    exact Or.inr (Or.inr change.unavailable_of_dead)

theorem Change.deadNodesUnavailable (change : Change db db' op r)
    (consistent : db.view.Consistent) (healthy : op.registersHealthy)
    (spares : op.revivesDead db = false) (holds : DeadNodesUnavailable db) :
    DeadNodesUnavailable db' := by
  intro c n dead available
  rcases change.dead_node dead with before | registered | demoted
  · rcases change.available consistent available with kept | report
    · exact holds c n before kept
    · simp [Op.reports_deadNode report before] at spares
  · simp [Op.registersHealthy, registered] at healthy
  · exact demoted c available

/-- In a run in which no report is accepted for a DEAD node, no DEAD node ever has an
AVAILABLE replica. -/
theorem dead_node_never_available {calls : List Call}
    (permitted : Guarded step (fun db call =>
      call.op.registersHealthy ∧ call.op.revivesDead db = false) Database.empty calls) :
    Always step DeadNodesUnavailable Database.empty calls := by
  refine always_of_change ?_ consistent_empty ?_ permitted
  · rintro db db' call r consistent ⟨healthy, spares⟩ holds change
    exact change.deadNodesUnavailable consistent healthy spares holds
  · intro c n dead
    simp [Database.deadNode, Database.empty] at dead

/-- A node that dies after its only chunk was committed. -/
def nodeDies : List Call :=
  [⟨0, .upsertNode "n1" "n1:9000" .healthy {} 0⟩, ⟨1, .beginUpload 1 "b" "k" "" 8⟩,
    ⟨2, .reserveChunk 10 ⟨some 1, none⟩ 0 8⟩, ⟨3, .recordChunkTargets 10 ["n1"]⟩,
    ⟨4, .commitChunk 10 0 8 ["n1"] [] 1⟩, ⟨5, .setNodeHealth "n1" .dead⟩]

theorem dead_node_never_available_nodeDies :
    (run step Database.empty nodeDies).deadNode "n1" ∧
      (run step Database.empty nodeDies).replicaState 10 "n1" = some .unavailable ∧
      Always step DeadNodesUnavailable Database.empty nodeDies :=
  ⟨by decide, by decide, dead_node_never_available (by decide)⟩

/-- The same upload, with the node declared DEAD between the write and its commit. -/
def commitAfterDeath : List Call :=
  [⟨0, .upsertNode "n1" "n1:9000" .healthy {} 0⟩, ⟨1, .beginUpload 1 "b" "k" "" 8⟩,
    ⟨2, .reserveChunk 10 ⟨some 1, none⟩ 0 8⟩, ⟨3, .recordChunkTargets 10 ["n1"]⟩,
    ⟨4, .setNodeHealth "n1" .dead⟩, ⟨5, .commitChunk 10 0 8 ["n1"] [] 1⟩]

theorem commit_makes_dead_node_available :
    (∀ call ∈ commitAfterDeath, call.op.registersHealthy) ∧
      ¬DeadNodesUnavailable (run step Database.empty commitAfterDeath) :=
  ⟨by decide, fun holds => holds 10 "n1" (by decide) (by decide)⟩

end FlexStore.Metadata
