import FlexStore.Metadata.Declared
import Mathlib.Data.Fintype.EquivFin

/-!
# Parts of closed sessions

The write guards look at the part's own state, and recording targets or committing a
chunk looks at no owner at all. So a part of a session that is over refuses every
write exactly when it is not UPLOADING and has no chunk left, and a session has to
be closed in that condition: an assembly must find every part COMPLETE, or FAILED and
empty, and an abort must find every part empty.
-/

namespace FlexStore.Metadata

open Relational Transition View

/-- The session is COMPLETED or ABORTED. -/
def Database.closedSession (db : Database) (uploadID : UUID) : Bool :=
  (db.uploads.find? uploadID).any fun u => u.state = .completed || u.state = .aborted

def Database.closedPart (db : Database) (id : UUID) : Bool :=
  (db.parts.find? id).any fun p => db.closedSession p.uploadID

/-- The call allocates or writes a chunk of the part, or completes the part. -/
def Op.writesPart (db : Database) (id : UUID) : Op → Bool
  | .reserveChunk _ owner _ _ => owner.single = some (.part id)
  | .recordChunkTargets c _ => (db.chunks.find? c).any (·.owner = .part id)
  | .commitChunk c .. => (db.chunks.find? c).any (·.owner = .part id)
  | .completePart k .. => k = id
  | _ => false

/-- The call fails and changes nothing. -/
def Refused (db : Database) (call : Call) : Prop :=
  (∃ e, exec call db = .error e) ∧ step db call = db

/-- No chunk and no copy of a chunk of the part is new, and the part has not become COMPLETE. -/
structure Unextended (db db' : Database) (id : UUID) : Prop where
  chunks : ∀ c row, db'.chunks.find? c = some row → row.owner = .part id →
    (db.chunks.find? c).any (·.owner = .part id)
  copies : ∀ c row n, db'.chunks.find? c = some row → row.owner = .part id →
    (db'.replicaState c n).isSome → (db.replicaState c n).isSome
  state : (db'.parts.find? id).any (·.state = .complete) →
    (db.parts.find? id).any (·.state = .complete)

/-- Every write to the part is refused, and no call at all extends it. -/
def Frozen (db : Database) (id : UUID) : Prop :=
  (∀ call, call.op.writesPart db id → Refused db call) ∧
    ∀ call, Unextended db (step db call) id

/-- The part is not UPLOADING and owns no chunk. -/
def AtRest (db : Database) (id : UUID) : Prop :=
  (db.parts.find? id).all (·.state ≠ .uploading) ∧ chunksOf (.part id) db = []

def Call.closes (db : Database) (call : Call) (uploadID : UUID) : Bool :=
  db.view.progressing uploadID && !(step db call).view.progressing uploadID

def Op.assembles : Op → Bool
  | .completeMultipartUpload .. => true
  | _ => false

/-- A session that the call closes keeps no chunk, and none of its parts is left UPLOADING. -/
def ClosesClean (db : Database) (call : Call) : Prop :=
  ∀ p ∈ db.parts.rows, call.closes db p.uploadID →
    (call.op.assembles ∧ p.state = .complete) ∨
      ((call.op.assembles → p.state = .failed) ∧ chunksOf (.part p.id) db = [])

instance (db : Database) (call : Call) : Decidable (ClosesClean db call) :=
  inferInstanceAs (Decidable (∀ p ∈ db.parts.rows, _))

variable {db db' : Database} {op : Op} {r : Reply} {id : UUID}

theorem chunksOf_eq_nil {o : Owner} : chunksOf o db = [] ↔ db.view.Unused o := by
  constructor
  · intro empty c row found mine
    have listed : row ∈ chunksOf o db :=
      mem_chunksOf.mpr ⟨by rw [chunk_id found]; exact found, mine⟩
    simp [empty] at listed
  · intro unused
    refine List.eq_nil_iff_forall_not_mem.mpr fun row listed => ?_
    obtain ⟨found, mine⟩ := mem_chunksOf.mp listed
    exact unused found mine

theorem atRest_iff : AtRest db id ↔
    (∀ row, db.view.parts id = some row → row.state ≠ .uploading) ∧
      db.view.Unused (.part id) := by
  unfold AtRest
  rw [chunksOf_eq_nil]
  cases found : db.parts.find? id <;> simp [Database.view, found]

/-- A part that owns no chunk gets none while it is not UPLOADING or nothing is allocated. -/
theorem Change.unused_kept (change : Change db db' op r)
    (idle : db.view.writable (.part id) = false ∨ op.allocates = false)
    (unused : db.view.Unused (.part id)) : db'.view.Unused (.part id) := by
  intro c row found mine
  have move := change.chunk_move c
  rw [found] at move
  generalize before : db.view.chunks c = old at move
  cases move with
  | same | reset | committed | orphaned => exact unused before mine
  | reserved _ _ _ call _ writable =>
    obtain closed | other := idle
    · simp [mine, closed] at writable
    · simp [call, Op.allocates] at other
  | assembled => cases mine

theorem not_writable_part (rest : ∀ row, db.view.parts id = some row → row.state ≠ .uploading) :
    db.view.writable (.part id) = false := by
  cases found : db.view.parts id with
  | none => simp [View.writable, found]
  | some row => simpa [View.writable, found] using rest row found

/-- A part at rest refuses every write. -/
theorem AtRest.refused (rest : AtRest db id) {call : Call} (writes : call.op.writesPart db id) :
    Refused db call := by
  obtain ⟨idle, unused⟩ := atRest_iff.mp rest
  have closed := not_writable_part idle
  cases outcome : exec call db with
  | error e => exact ⟨⟨e, outcome⟩, by rw [step, outcome]⟩
  | ok answer =>
    obtain ⟨reply, db'⟩ := answer
    obtain ⟨now, op⟩ := call
    exfalso
    cases op with
    | reserveChunk newID owner index size =>
      simp only [exec, answer_eq_ok] at outcome
      obtain ⟨c, reserved, -⟩ := outcome
      obtain ⟨o, single, writable, -⟩ := reserveChunk_ok reserved
      obtain rfl : o = .part id := by simpa [Op.writesPart, single] using writes
      simp [closed] at writable
    | recordChunkTargets c _ | commitChunk c _ _ _ _ _ =>
      obtain ⟨row, found, mine⟩ := (Option.any_eq_true _ _).mp writes
      exact unused found (of_decide_eq_true mine)
    | completePart k size count etag =>
      obtain rfl : k = id := of_decide_eq_true writes
      simp only [exec, silent_eq_ok] at outcome
      obtain ⟨row, found, uploading, -⟩ := completePart_ok outcome.1
      exact idle row found uploading
    | _ => cases writes

/-- No call extends a part at rest that exists. -/
theorem AtRest.unextended (rest : AtRest db id) (present : (db.view.parts id).isSome)
    (call : Call) : Unextended db (step db call) id := by
  obtain ⟨idle, unused⟩ := atRest_iff.mp rest
  refine step_cases (R := fun db' => Unextended db db' id) ?_ ?_
  · exact ⟨fun c row found mine => absurd mine (unused found),
      fun c row n found mine => absurd mine (unused found), fun complete => complete⟩
  · intro reply db' h
    have change := exec_change h
    have unused' : db'.view.Unused (.part id) :=
      change.unused_kept (.inl (not_writable_part idle)) unused
    refine ⟨fun c row found mine => absurd mine (unused' found),
      fun c row n found mine => absurd mine (unused' found), ?_⟩
    intro complete
    have move := change.part_move id
    change (db'.view.parts id).any _ at complete
    change (db.view.parts id).any _
    generalize before : db.view.parts id = old at move present
    generalize db'.view.parts id = new at move complete
    cases move with
    | same => exact complete
    | begun => cases present
    | completed _ _ _ _ _ uploading => exact absurd uploading (idle _ before)
    | failed | purged => simp at complete

/-- An UPLOADING part accepts a chunk, whatever its session. -/
theorem reserveChunk_accepted {now : Time} {newID : UUID} (fresh : db.chunks.find? newID = none)
    (writable : db.view.writable (.part id)) (e : StoreError) :
    reserveChunk now newID ⟨none, some id⟩ 0 0 db ≠ .error e := by
  intro refused
  have owner : assertOwnerWritable (.part id) db = .ok () := assertOwnerWritable_ok.mpr writable
  simp only [reserveChunk, ChunkOwner.single, bind_eq_error, lookup_eq_error, lookup_eq_ok,
    require_eq_error, reduceCtorEq, false_and, Option.some.injEq, exists_eq_left', false_or, owner,
    le_refl, and_self, not_true_eq_false, require_eq_ok, true_and, exists_const] at refused
  split at refused
  · exact pure_ne_error refused
  · rw [bind_eq_error, lookup_eq_error] at refused
    obtain ⟨taken, -⟩ | ⟨_, -, done⟩ := refused
    · simp [Table.insert?, fresh] at taken
    · exact pure_ne_error done

/-- A chunk accepts a commit, whatever its owner. -/
theorem commitChunk_accepted {now : Time} {c : UUID} {row : ChunkRow}
    (found : db.chunks.find? c = some row) (e : StoreError) :
    commitChunk now c 0 0 [] [] 0 db ≠ .error e := by
  intro refused
  simp only [commitChunk, bind_eq_error, lookup_eq_error, lookup_eq_ok, require_eq_error,
    pure_ne_error, found, List.foldl_nil, List.foldlM_nil, pure_eq_ok] at refused
  simp at refused

theorem Frozen.atRest (frozen : Frozen db id) : AtRest db id := by
  refine atRest_iff.mpr ⟨fun row found uploading => ?_, fun {c row} found mine => ?_⟩
  · obtain ⟨newID, fresh⟩ :=
      Infinite.exists_notMem_finset (db.chunks.rows.map (·.id)).toFinset
    have absent : db.chunks.find? newID = none := by
      rw [Table.find?_eq_none]
      simpa using fresh
    have writable : db.view.writable (.part id) := by simp [View.writable, found, uploading]
    obtain ⟨⟨e, refused⟩, -⟩ := frozen.1 ⟨0, .reserveChunk newID ⟨none, some id⟩ 0 0⟩ (by
      simp [Op.writesPart, ChunkOwner.single])
    exact reserveChunk_accepted absent writable e (answer_eq_error.mp refused)
  · have held : db.chunks.find? c = some row := found
    obtain ⟨⟨e, refused⟩, -⟩ := frozen.1 ⟨0, .commitChunk c 0 0 [] [] 0⟩ (by
      simp [Op.writesPart, held, mine])
    exact commitChunk_accepted held e (answer_eq_error.mp refused)

/-- The exact condition under which a part refuses every write. -/
theorem frozen_iff (present : (db.view.parts id).isSome) : Frozen db id ↔ AtRest db id :=
  ⟨Frozen.atRest, fun rest => ⟨fun _ => rest.refused, rest.unextended present⟩⟩

/-- A session is closed by an assembly, or by an abort that fails its parts. -/
theorem Change.closing (change : Change db db' op r) {uploadID : UUID}
    (before : db.view.progressing uploadID) (after : db'.view.progressing uploadID = false) :
    (∃ objectID expected, op = .completeMultipartUpload objectID uploadID expected) ∨
      op.acts = false ∧
        ∀ id row, db'.view.parts id = some row → row.uploadID = uploadID → row.state = .failed := by
  have stays (same : db'.view.progressing uploadID = db.view.progressing uploadID) : False := by
    simp [same, before] at after
  cases change with
  | committed _ _ _ _ _ _ _ _ _ _ _ _ _ view | partBegun _ _ _ _ _ _ _ _ view
  | purged _ _ _ _ _ _ view =>
    have rows := congrArg View.uploads view
    exact (stays (progressing_mapUploads rows (fun _ => rfl) uploadID)).elim
  | sessionCreated k _ _ _ _ row state fresh view =>
    refine (stays ?_).elim
    rw [view]
    have other : uploadID ≠ k := by
      rintro rfl
      simp [View.progressing, fresh] at before
    simp [View.progressing, other]
  | assembled objectID k expected _ _ _ _ _ _ _ _ _ _ _ _ _ _ _ _ view =>
    by_cases same : uploadID = k
    · subst same
      exact Or.inl ⟨objectID, expected, rfl⟩
    · refine (stays ?_).elim
      rw [view]
      simp [View.progressing, same]
  | sessionsAborted quiet now selected view =>
    refine Or.inr ⟨quiet.2, fun id row found mine => ?_⟩
    obtain ⟨u, open_, progress⟩ := (Option.any_eq_true _ _).mp before
    have chosen : selected uploadID = true := by
      by_contra skipped
      refine stays ?_
      rw [view]
      simp [View.progressing, View.abortSessions, open_, skipped]
    rw [congrArg View.parts view, View.abortSessions_parts] at found
    obtain ⟨old, -, rfl⟩ := Option.map_eq_some_iff.mp found
    have session : old.uploadID = uploadID := by
      split at mine <;> exact mine
    have closes : db.view.closes selected old.uploadID = true := by
      simp_all [View.closes, MultipartUploadRow.isOpen]
    by_cases failed : old.state = .failed
    · simp [failed]
    · simp [closes, failed]
  | sessionsPurged _ upload closed _ view =>
    refine (stays ?_).elim
    rw [view]
    obtain ⟨u, open_, progress⟩ := (Option.any_eq_true _ _).mp before
    have kept : upload u = false := by
      by_contra gone
      exact closed _ u open_ (by simpa using gone) (of_decide_eq_true progress)
    simp [View.progressing, open_, kept, Option.filter_some]
  | healthSet _ health _ view =>
    refine (stays ?_).elim
    rw [view]
    split <;> rfl
  | _ =>
    rename db'.view = _ => view
    have rows := congrFun (congrArg View.uploads view) uploadID
    exact (stays (congrArg (fun u => u.any (·.state = .inProgress)) rows)).elim

/-- The parts of sessions that are over are at rest. -/
def StoppedAtRest (db : Database) : Prop :=
  ∀ id row, db.view.parts id = some row → db.view.progressing row.uploadID = false → AtRest db id

/-- An assembly takes over every chunk of a COMPLETE part. -/
theorem Change.unused_assembled {objectID uploadID : UUID} {expected : List CompletedPartRef}
    (change : Change db db' (.completeMultipartUpload objectID uploadID expected) r)
    (sealed : Sealed db) {part : PartRow} (found : db.view.parts id = some part)
    (session : part.uploadID = uploadID) (progress : db.view.progressing uploadID)
    (complete : part.state = .complete) : db'.view.Unused (.part id) := by
  have taken : ∀ c row, db.view.chunks c = some row → row.owner = .part id →
      db'.view.chunks c =
        some (row.reparent objectID ((assembledChunks uploadID db).map (·.id))) := by
    intro c row before mine
    have named : part.id = id := (Table.mem_of_find? found).2
    have listed : part ∈ completeParts uploadID db :=
      mem_completeParts.mpr ⟨by rw [named]; exact found, session, complete⟩
    have owned : row ∈ chunksOf (.part part.id) db :=
      mem_chunksOf.mpr ⟨by rw [chunk_id before]; exact before, by rw [named]; exact mine⟩
    have assembled : row ∈ assembledChunks uploadID db :=
      (assembledChunks_perm sealed progress).mem_iff.mpr
        (List.mem_flatMap.mpr ⟨part, listed, owned⟩)
    refine change.assembly before ?_
    rw [← chunk_id before]
    exact List.mem_map_of_mem assembled
  intro c row after mine
  have move := change.chunk_move c
  rw [after] at move
  generalize before : db.view.chunks c = old at move
  have moved : ∀ x, old = some x → x.owner = .part id → False := by
    rintro x rfl owner
    have row' := (taken c x before owner).symm.trans after
    rw [← Option.some.inj row'] at mine
    cases mine
  cases move with
  | same | orphaned => exact moved _ rfl mine
  | assembled => cases mine
  | reserved _ _ _ call | reset _ _ _ _ call | committed _ _ _ _ _ _ call => cases call

/-- Closing a session cleanly leaves its parts at rest. -/
theorem Change.atRest_of_closing {call : Call} (change : Change db db' call.op r)
    (reached : step db call = db') (sealed : Sealed db) (clean : ClosesClean db call)
    {old : PartRow} (found : db.view.parts id = some old)
    (before : db.view.progressing old.uploadID)
    (after : db'.view.progressing old.uploadID = false) : AtRest db' id := by
  have named : old.id = id := (Table.mem_of_find? found).2
  have closes : call.closes db old.uploadID := by simp [Call.closes, reached, before, after]
  have tidy := clean old (Table.mem_of_find? found).1 closes
  rw [named, chunksOf_eq_nil] at tidy
  have move := change.part_move id
  rw [found] at move
  rw [atRest_iff]
  obtain ⟨objectID, expected, assembly⟩ | ⟨quiet, failed⟩ := change.closing before after
  · have done : old.state = .complete ∨ old.state = .failed ∧ db.view.Unused (.part id) := by
      simpa [assembly, Op.assembles] using tidy
    constructor
    · intro row present
      rw [present] at move
      cases move with
      | same => obtain complete | ⟨failed, -⟩ := done <;> simp [*]
      | completed => simp
      | failed => simp
    · obtain complete | ⟨failed, unused⟩ := done
      · rw [assembly] at change
        exact change.unused_assembled sealed found rfl before complete
      · refine change.unused_kept (.inr ?_) unused
        rw [assembly]
        rfl
  · have silent : call.op.assembles = false ∧ call.op.allocates = false := by
      cases shape : call.op <;> simp_all [Op.acts, Op.assembles, Op.allocates]
    constructor
    · intro row present
      have session : row.uploadID = old.uploadID := by
        rw [present] at move
        cases move <;> rfl
      simp [failed id row present session]
    · obtain ⟨assembles, -⟩ | ⟨-, unused⟩ := tidy
      · simp [silent.1] at assembles
      · refine change.unused_kept (.inr silent.2) unused

/-- In a run that closes sessions cleanly, the parts of sessions that are over are at rest. -/
theorem stoppedAtRest_step {call : Call} (sealed : Sealed db) (clean : ClosesClean db call)
    (holds : StoppedAtRest db) : StoppedAtRest (step db call) := by
  cases outcome : exec call db with
  | error e => rwa [step, outcome]
  | ok answer =>
    obtain ⟨reply, db'⟩ := answer
    have change := exec_change outcome
    have reached : step db call = db' := step_of_ok outcome
    rw [reached]
    intro id row found stopped
    have move := change.part_move id
    rw [found] at move
    generalize before : db.view.parts id = old at move
    obtain ⟨x, rfl, session⟩ : ∃ x, old = some x ∧ x.uploadID = row.uploadID := by
      cases move with
      | same => exact ⟨row, rfl, rfl⟩
      | begun _ progress => simp [stopped] at progress
      | completed | failed => exact ⟨_, rfl, rfl⟩
    rw [← session] at stopped
    by_cases progress : db.view.progressing x.uploadID = true
    · exact change.atRest_of_closing reached sealed clean before progress stopped
    · have rest := holds id x before (by simpa using progress)
      obtain ⟨idle, unused⟩ := atRest_iff.mp rest
      refine atRest_iff.mpr ⟨?_, change.unused_kept (.inl (not_writable_part idle)) unused⟩
      intro row' present
      obtain rfl : row' = row := Option.some.inj (present.symm.trans found)
      cases move with
      | same => exact idle _ before
      | completed _ _ _ _ _ uploading => exact absurd uploading (idle _ before)
      | failed => simp

theorem closedPart_iff : db.closedPart id ↔ ∃ row, db.view.parts id = some row ∧
    db.closedSession row.uploadID := by
  simp [Database.closedPart, Option.any_eq_true, Database.view]

theorem closedSession_stopped {uploadID : UUID} (closed : db.closedSession uploadID) :
    db.view.progressing uploadID = false := by
  obtain ⟨u, found, state⟩ := (Option.any_eq_true _ _).mp closed
  have held : db.view.uploads uploadID = some u := found
  simp only [View.progressing, held, Option.any_some]
  cases shape : u.state <;> simp_all

/-- In every state that calls of the store can reach, the parts of closed sessions refuse every
write, and no call extends one of them, exactly if they are at rest. They are so throughout
every run that closes sessions cleanly. -/
theorem closed_parts_frozen (calls : List Call) :
    ((∀ id, (run step Database.empty calls).closedPart id →
        Frozen (run step Database.empty calls) id) ↔
      ∀ id, (run step Database.empty calls).closedPart id →
        AtRest (run step Database.empty calls) id) ∧
    (Guarded step ClosesClean Database.empty calls →
      Always step (fun db => ∀ id, db.closedPart id → Frozen db id) Database.empty calls) := by
  have exact_ {db : Database} {id : UUID} (closed : db.closedPart id) :
      Frozen db id ↔ AtRest db id := by
    obtain ⟨row, found, -⟩ := closedPart_iff.mp closed
    exact frozen_iff (by simp [found])
  constructor
  · exact forall₂_congr fun id closed => exact_ closed
  · intro clean
    have kept : Always step (fun db => Sealed db ∧ db.view.Consistent ∧ StoppedAtRest db)
        Database.empty calls := by
      refine always_of_preserved ?_ ⟨sealed_empty, consistent_empty, ?_⟩ clean
      · rintro db call ⟨sealed, consistent, holds⟩ clean
        refine ⟨?_, consistent_step consistent, stoppedAtRest_step sealed clean holds⟩
        exact step_cases sealed fun _ _ h => (exec_change h).sealed consistent sealed
      · intro id row found
        simp [Database.view, Database.empty] at found
    refine kept.mono fun db h id closed => (exact_ closed).mpr ?_
    obtain ⟨row, found, session⟩ := closedPart_iff.mp closed
    exact h.2.2 id row found (closedSession_stopped session)

/-- A session with one COMPLETE part of one chunk. -/
def onePartSession : List Call :=
  [⟨0, .upsertNode "n1" "n1:9000" .healthy {} 0⟩, ⟨0, .createMultipartUpload 1 "b" "k" "" 8⟩,
    ⟨1, .beginPart 11 1 1⟩, ⟨2, .reserveChunk 100 ⟨none, some 11⟩ 0 3⟩,
    ⟨3, .recordChunkTargets 100 ["n1"]⟩, ⟨4, .commitChunk 100 5 3 ["n1"] [] 1⟩,
    ⟨5, .completePart 11 3 1 "e"⟩]

theorem closed_parts_frozen_onePart :
    Always step (fun db => ∀ id, db.closedPart id → Frozen db id) Database.empty
        (onePartSession ++ [⟨6, .completeMultipartUpload 50 1 []⟩]) ∧
      (run step Database.empty
        (onePartSession ++ [⟨6, .completeMultipartUpload 50 1 []⟩])).closedPart 11 := by
  refine ⟨(closed_parts_frozen _).2 ?_, ?_⟩
  · decide +kernel
  · decide +kernel

/-- A second part is UPLOADING when the client completes the session with a manifest. -/
def manifestCompletion : List Call :=
  onePartSession ++ [⟨6, .beginPart 12 1 2⟩, ⟨7, .completeMultipartUpload 50 1 [⟨1, ""⟩]⟩]

/-- The late gateway writes the second part to its end. -/
def lateWrites : List Call :=
  [⟨8, .reserveChunk 101 ⟨none, some 12⟩ 0 3⟩, ⟨9, .recordChunkTargets 101 ["n1"]⟩,
    ⟨10, .commitChunk 101 5 3 ["n1"] [] 1⟩, ⟨11, .completePart 12 3 1 "f"⟩]

/-- A part of a COMPLETED session is allocated a chunk, gets an AVAILABLE copy and becomes
COMPLETE, and in an ABORTED session a chunk becomes COMMITTED again. -/
theorem closed_parts_written :
    (run step Database.empty manifestCompletion).closedPart 12 ∧
      ¬Frozen (run step Database.empty manifestCompletion) 12 ∧
      ((run step Database.empty (manifestCompletion ++ lateWrites)).parts.find? 12).map
        (·.state) = some .complete ∧
      (run step Database.empty (manifestCompletion ++ lateWrites)).replicaState 101 "n1" =
        some .available ∧
      (run step Database.empty (onePartSession ++
        [⟨6, .abortMultipartUpload 1⟩])).closedPart 11 ∧
      ¬Frozen (run step Database.empty (onePartSession ++ [⟨6, .abortMultipartUpload 1⟩])) 11 ∧
      ((run step Database.empty (onePartSession ++ [⟨6, .abortMultipartUpload 1⟩,
        ⟨7, .commitChunk 100 5 3 ["n1"] [] 1⟩])).chunks.find? 100).map (·.state) =
          some .committed := by
  refine ⟨by decide +kernel, fun frozen => ?_, by decide +kernel, by decide +kernel,
    by decide +kernel, fun frozen => ?_, by decide +kernel⟩
  · exact absurd frozen.atRest.1 (by decide +kernel)
  · exact absurd frozen.atRest.2 (by decide +kernel)

end FlexStore.Metadata
