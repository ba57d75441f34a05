import FlexStore.Metadata.Integrity

/-!
# Which bytes an AVAILABLE copy was reported for

A replica row does not say which checksum the node acknowledged. The ledger adds that:
beside the database it keeps, for each chunk and node, the checksum of the last report
that made the copy AVAILABLE. The rows of a chunk survive a second allocation of its
position, so a commit with another checksum can count copies of the earlier bytes. A
commit that accounts for every AVAILABLE copy, or repeats the recorded checksum, keeps
the ledger and the chunk table in agreement.
-/

namespace FlexStore.Metadata

open Relational Transition View

/-- The database with the checksum each copy was last reported for. -/
structure Ledger where
  db : Database
  reported : UUID → NodeID → Option Checksum

/-- The checksum that the chunk table records. -/
def Database.recorded (db : Database) (c : UUID) : Option Checksum :=
  (db.chunks.find? c).bind (·.checksum)

/-- The checksum a report is about: a commit carries it, and a repair or a promotion is
checked against the recorded one. -/
def Op.attests (db : Database) (c : UUID) : Op → Option Checksum
  | .commitChunk _ checksum .. => some checksum
  | _ => db.recorded c

namespace Ledger

def empty : Ledger := ⟨Database.empty, fun _ _ => none⟩

/-- A call on the ledger: the call on the database, and the report it makes. -/
def step (s : Ledger) (call : Call) : Ledger :=
  match exec call s.db with
  | .ok (_, db') => ⟨db', fun c n =>
    if call.op.reports s.db c n then call.op.attests s.db c else s.reported c n⟩
  | .error _ => s

/-- Every AVAILABLE copy of a COMMITTED chunk was last reported for the checksum of the
chunk. -/
def Attested (s : Ledger) : Prop :=
  ∀ c row, s.db.chunks.find? c = some row → row.state = .committed →
    ∀ n, s.db.replicaState c n = some .available → s.reported c n = row.checksum

/-- The ledger runs on top of the store. -/
theorem db_step (s : Ledger) (call : Call) : (s.step call).db = Metadata.step s.db call := by
  unfold step Metadata.step
  split <;> simp_all

theorem db_run (s : Ledger) (calls : List Call) :
    (run step s calls).db = run Metadata.step s.db calls := by
  induction calls generalizing s with
  | nil => rfl
  | cons call rest ih => rw [run_cons, ih, db_step, run_cons]

end Ledger

/-- The call commits a chunk with a checksum other than the recorded one and leaves an
AVAILABLE copy of it unmentioned. -/
def Op.mixes (db : Database) : Op → Bool
  | .commitChunk c checksum _ succeeded failed _ =>
    db.recorded c ≠ some checksum && db.replicas.rows.any fun r =>
      r.chunkID = c && r.state = .available && r.nodeID ∉ succeeded && r.nodeID ∉ failed
  | _ => false

variable {db db' : Database} {op : Op} {r : Reply} {c : UUID} {n : NodeID}

/-- The reported checksum of an AVAILABLE copy is the recorded one, whatever the state of
the chunk. -/
def Ledger.Agrees (s : Ledger) : Prop :=
  ∀ c n, s.db.replicaState c n = some .available → s.reported c n = s.db.recorded c

theorem Ledger.Agrees.attested {s : Ledger} (agrees : s.Agrees) : s.Attested := by
  intro c row found _ n available
  rw [agrees c n available, Database.recorded, found]
  rfl

/-- The recorded checksum changes only with a commit of the chunk, or with the chunk
itself. -/
theorem ChunkMove.recorded {o o' : Option ChunkRow} (move : ChunkMove db db' op c o o') :
    o'.bind (·.checksum) = o.bind (·.checksum) ∨ o' = none ∨
      (o = none ∧ ∃ own index sizeBytes, op = .reserveChunk c own index sizeBytes) ∨
      ∃ checksum sizeBytes succeeded failed minReplicas,
        op = .commitChunk c checksum sizeBytes succeeded failed minReplicas ∧
        o'.bind (·.checksum) = some checksum := by
  cases move with
  | same | reset | orphaned | assembled => exact Or.inl rfl
  | reserved own index size call => exact Or.inr (Or.inr (Or.inl ⟨rfl, own, index, size, call⟩))
  | purged => exact Or.inr (Or.inl rfl)
  | committed now checksum size succeeded failed minimum call =>
    exact Or.inr (Or.inr (Or.inr ⟨checksum, size, succeeded, failed, minimum, call, rfl⟩))

theorem present_of_available (consistent : db.view.Consistent)
    (available : db.replicaState c n = some .available) : db.view.chunks c ≠ none := by
  have held : (db.view.slots c n).replica.isSome := Option.isSome_of_mem available
  have known := consistent.copy held
  simp only [referenced, Bool.and_eq_true] at known
  exact Option.isSome_iff_ne_none.mp known.1

/-- A copy that a commit leaves AVAILABLE without a report is not mentioned by it. -/
theorem Change.unmentioned {checksum : Checksum} {sizeBytes minReplicas : Int}
    {succeeded failed : List NodeID}
    (change : Change db db' (.commitChunk c checksum sizeBytes succeeded failed minReplicas) r)
    (other : n ∉ succeeded) (after : db'.replicaState c n = some .available) : n ∉ failed := by
  obtain ⟨-, -, -, -, -, -, slots⟩ := change.commit
  change (db'.view.slots c n).replica = _ at after
  rw [slots] at after
  intro refused
  simp [View.acknowledge, View.setReplicas, slot_mapReplicas, other, refused] at after

theorem Change.agrees (change : Change db db' op r) (consistent : db.view.Consistent)
    (pure_ : op.mixes db = false) {reported : UUID → NodeID → Option Checksum}
    (agrees : Ledger.Agrees ⟨db, reported⟩) : Ledger.Agrees ⟨db', fun c n =>
      if op.reports db c n then op.attests db c else reported c n⟩ := by
  intro c n after
  have present' := present_of_available (change.consistent consistent) after
  have kept := (change.chunk_move c).recorded
  change (if op.reports db c n then op.attests db c else reported c n) =
    (db'.view.chunks c).bind (·.checksum)
  by_cases report : op.reports db c n = true
  · rw [if_pos report]
    cases op with
    | commitChunk k checksum =>
      simp only [Op.reports, Bool.and_eq_true, decide_eq_true_eq] at report
      obtain ⟨rfl, -⟩ := report
      obtain ⟨now, row, -, -, -, chunks, -⟩ := change.commit
      simp [Op.attests, chunks, ChunkRow.commit]
    | completeRepair | promoteVerifiedReplica =>
      rcases kept with same | gone | ⟨-, _, _, _, call⟩ | ⟨_, _, _, _, _, call, -⟩
      · exact same.symm
      · exact absurd gone present'
      · cases call
      · cases call
    | _ => cases report
  · rw [if_neg report]
    have before := (change.available consistent after).resolve_right report
    have recorded : reported c n = (db.view.chunks c).bind (·.checksum) := agrees c n before
    rw [recorded]
    rcases kept with same | gone | ⟨new, -⟩ | ⟨checksum, size, succeeded, failed, minimum, rfl, now⟩
    · exact same.symm
    · exact absurd gone present'
    · exact absurd new (present_of_available consistent before)
    · rw [now]
      have unreported : n ∉ succeeded := by simpa [Op.reports] using report
      have unrefused := change.unmentioned unreported after
      obtain ⟨row, member, rfl, rfl, state⟩ := replicaState_eq_some.mp before
      by_contra other
      have mixed :
          Op.mixes db (.commitChunk row.chunkID checksum size succeeded failed minimum) := by
        simp only [Op.mixes, Bool.and_eq_true, decide_eq_true_eq, List.any_eq_true]
        exact ⟨other, row, member, ⟨⟨rfl, state⟩, unreported⟩, unrefused⟩
      simp [mixed] at pure_

/-- In a run in which no commit with another checksum leaves AVAILABLE copies unmentioned,
every AVAILABLE copy of a COMMITTED chunk was last reported for the chunk's checksum. -/
theorem available_copies_attested {calls : List Call}
    (permitted : Guarded Ledger.step (fun s call => call.op.mixes s.db = false) Ledger.empty
      calls) :
    Always Ledger.step Ledger.Attested Ledger.empty calls := by
  have agrees :
      Always Ledger.step (fun s => s.db.view.Consistent ∧ s.Agrees) Ledger.empty calls := by
    refine always_of_preserved ?_ ⟨consistent_empty, ?_⟩ permitted
    · rintro ⟨db, reported⟩ call ⟨consistent, agrees⟩ allowed
      unfold Ledger.step
      split
      next r db' h =>
        have change := exec_change h
        exact ⟨change.consistent consistent, change.agrees consistent allowed agrees⟩
      next => exact ⟨consistent, agrees⟩
    · intro c n available
      simp [Ledger.empty, Database.replicaState, Database.empty] at available
  exact agrees.mono fun _ holds => holds.2.attested

/-- A chunk written twice with the same bytes, the second time on other nodes. -/
def retriedWrite : List Call :=
  [⟨0, .upsertNode "n1" "n1:9000" .healthy {} 0⟩, ⟨0, .upsertNode "n2" "n2:9000" .healthy {} 0⟩,
    ⟨0, .upsertNode "n3" "n3:9000" .healthy {} 0⟩, ⟨1, .beginUpload 1 "b" "k" "" 8⟩,
    ⟨2, .reserveChunk 10 ⟨some 1, none⟩ 0 8⟩, ⟨3, .recordChunkTargets 10 ["n1", "n2"]⟩,
    ⟨4, .commitChunk 10 1 8 ["n1", "n2"] [] 2⟩, ⟨5, .reserveChunk 11 ⟨some 1, none⟩ 0 8⟩,
    ⟨6, .recordChunkTargets 10 ["n1", "n3"]⟩, ⟨7, .commitChunk 10 1 8 ["n1"] ["n3"] 2⟩]

theorem available_copies_attested_retriedWrite :
    (run Ledger.step Ledger.empty retriedWrite).db.countAvailable 10 = 2 ∧
      Always Ledger.step Ledger.Attested Ledger.empty retriedWrite :=
  ⟨by decide, available_copies_attested (by decide)⟩

/-- The same retry with other bytes: the copy on the second node is of the first write, and
the commit counts it. -/
def rewrittenChunk : List Call :=
  [⟨0, .upsertNode "n1" "n1:9000" .healthy {} 0⟩, ⟨0, .upsertNode "n2" "n2:9000" .healthy {} 0⟩,
    ⟨0, .upsertNode "n3" "n3:9000" .healthy {} 0⟩, ⟨1, .beginUpload 1 "b" "k" "" 8⟩,
    ⟨2, .reserveChunk 10 ⟨some 1, none⟩ 0 8⟩, ⟨3, .recordChunkTargets 10 ["n1", "n2"]⟩,
    ⟨4, .commitChunk 10 1 8 ["n1", "n2"] [] 2⟩, ⟨5, .reserveChunk 11 ⟨some 1, none⟩ 0 8⟩,
    ⟨6, .recordChunkTargets 10 ["n1", "n3"]⟩, ⟨7, .commitChunk 10 2 8 ["n1"] ["n3"] 2⟩]

theorem commit_counts_copy_of_other_bytes :
    ¬(run Ledger.step Ledger.empty rewrittenChunk).Attested := by
  intro attested
  have copy := attested 10 _ rfl (by decide) "n2" (by decide)
  revert copy
  decide

end FlexStore.Metadata
