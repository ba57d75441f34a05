import FlexStore.Metadata.Operation

/-!
# The reapers of abandoned uploads

An upload that has gone quiet is failed. For single uploads that is one transaction, which
looks at the last progress and fails the upload under the same lock. For multipart sessions
it is a scan and then one transaction for each id found, and that transaction does not look
at the progress again: a part that is begun, or a chunk that is committed, in between does
not save the session.

The state keeps what the database does not: the ids that a scan has found and that are not
worked off, the time of the last progress of every upload, and a record of every upload
that a reaper has failed.
-/

namespace FlexStore.Metadata.Reapers

open Relational Transition

/-- An upload of one body, or a multipart session. -/
inductive Upload where
  | single (objectID : UUID)
  | session (uploadID : UUID)
deriving DecidableEq

/-- A reaper has failed this upload, with this threshold and this last progress. -/
structure Failure where
  upload : Upload
  at_ : Time
  olderThan : Duration
  progress : Time
deriving DecidableEq

structure State where
  db : Database
  clock : Time
  listed : List (UUID × Duration)
  progress : Upload → Time
  failures : List Failure

/-- One step: a transaction, or the scan that opens a sweep over the sessions. -/
inductive Action where
  | beginPart (id uploadID : UUID) (partNumber : Int)
  | commitChunk (chunkID : UUID) (checksum : Checksum) (sizeBytes : Int)
      (succeeded failed : List NodeID) (minReplicas : Int)
  | reapStaleUploads (olderThan : Duration) (limit : Nat)
  | scanSessions (olderThan : Duration) (limit : Nat)
  | abortSession (uploadID : UUID) (olderThan : Duration)

structure Event where
  now : Time
  action : Action

/-- The query of `reapStaleMultipartUploads`. -/
def staleSessions (now : Time) (olderThan : Duration) (limit : Nat) (db : Database) : List UUID :=
  (((db.uploads.select fun u =>
      u.state = .inProgress && u.updatedAt < now - olderThan).insertionSort
    fun a b => a.updatedAt ≤ b.updatedAt).take limit).map (·.id)

def uploadOf (db : Database) (chunkID : UUID) : Option Upload :=
  (db.chunks.find? chunkID).bind fun row =>
    match row.owner with
    | .object id => some (.single id)
    | .part id => (db.parts.find? id).map fun part => .session part.uploadID

/-- The uploads that are open in the first database and failed in the second. -/
def failedBetween (db db' : Database) : List Upload :=
  ((db.objects.select fun o => o.state = .uploading &&
      (db'.objects.find? o.id).any (·.state = .failed)).map fun o => .single o.id) ++
    (db.uploads.select fun u => u.isOpen &&
      (db'.uploads.find? u.id).any (·.state = .aborted)).map fun u => .session u.id

namespace State

/-- The upload that makes progress if the action succeeds. -/
def advances (s : State) : Action → Option Upload
  | .beginPart _ uploadID _ => some (.session uploadID)
  | .commitChunk chunkID .. => uploadOf s.db chunkID
  | _ => none

def advance (s : State) (upload : Option Upload) (db : Database) : State :=
  { s with
    db
    progress := fun u => if upload = some u then s.clock else s.progress u }

def reaped (s : State) (olderThan : Duration) (db : Database) : State :=
  { s with
    db
    failures := s.failures ++ (failedBetween s.db db).map fun u =>
      ⟨u, s.clock, olderThan, s.progress u⟩ }

/-- What an action does at the current time. A refused transaction changes nothing. -/
def act (s : State) (action : Action) : State :=
  match action with
  | .beginPart id uploadID partNumber =>
    match Metadata.beginPart s.clock id uploadID partNumber s.db with
    | .ok (_, db) => s.advance (s.advances action) db
    | .error _ => s
  | .commitChunk chunkID checksum sizeBytes succeeded failed minReplicas =>
    match Metadata.commitChunk s.clock chunkID checksum sizeBytes succeeded failed minReplicas
        s.db with
    | .ok (_, db) => s.advance (s.advances action) db
    | .error _ => s
  | .reapStaleUploads olderThan limit =>
    s.reaped olderThan (Metadata.reapStaleUploads s.clock olderThan limit s.db).2
  | .scanSessions olderThan limit =>
    { s with listed := s.listed ++
        (staleSessions s.clock olderThan limit s.db).map fun id => (id, olderThan) }
  | .abortSession uploadID olderThan =>
    if (uploadID, olderThan) ∈ s.listed then
      let s := { s with listed := s.listed.erase (uploadID, olderThan) }
      match abortMultipartUpload s.clock uploadID s.db with
      | .ok db => s.reaped olderThan db
      | .error _ => s
    else s

/-- Time passes, and then the action happens. -/
def step (s : State) (e : Event) : State := act { s with clock := e.now } e.action

/-- The last progress of an upload as the database records it. -/
def recordedProgress (db : Database) : Upload → Time
  | .single id => ((db.objects.find? id).map (·.updatedAt)).getD 0
  | .session id => ((db.uploads.find? id).map (·.updatedAt)).getD 0

/-- No sweep is going on, and `updated_at` is the last progress. -/
def start (db : Database) (clock : Time) : State where
  db
  clock
  listed := []
  progress := recordedProgress db
  failures := []

/-- No reaper has failed an upload whose last progress was within the threshold. -/
def Fair (s : State) : Prop := ∀ f ∈ s.failures, f.progress ≤ f.at_ - f.olderThan

/-- Time does not run backwards, and no session makes progress while it is on the list of a
scan. -/
def permits (s : State) (e : Event) : Prop :=
  s.clock ≤ e.now ∧ ∀ entry ∈ s.listed, s.advances e.action ≠ some (.session entry.1)

instance (s : State) : Decidable s.Fair :=
  inferInstanceAs (Decidable (∀ f ∈ s.failures, f.progress ≤ f.at_ - f.olderThan))

instance (s : State) (e : Event) : Decidable (s.permits e) :=
  inferInstanceAs (Decidable (s.clock ≤ e.now ∧
    ∀ entry ∈ s.listed, s.advances e.action ≠ some (.session entry.1)))

end State

/-- The aborts of a sweep that nothing interrupts. -/
theorem run_aborts {now : Time} {olderThan : Duration} {ids : List UUID} {s : State}
    (listed : s.listed = ids.map fun id => (id, olderThan))
    (present : ∀ id ∈ ids, (s.db.view.uploads id).isSome) :
    (run State.step s (ids.map fun id => ⟨now, .abortSession id olderThan⟩)).db =
      ids.foldl (Metadata.abortSession now) s.db := by
  induction ids generalizing s with
  | nil => rfl
  | cons id rest ih =>
    obtain ⟨row, found⟩ := Option.isSome_iff_exists.mp (present id List.mem_cons_self)
    have aborted : abortMultipartUpload now id s.db =
        .ok (Metadata.abortSession now s.db id) := by
      rw [abortMultipartUpload, show s.db.uploads.find? id = some row from found]
      rfl
    have member : (id, olderThan) ∈ s.listed := by simp [listed]
    have next : s.step ⟨now, .abortSession id olderThan⟩ =
        ({ s with clock := now
                  listed := s.listed.erase (id, olderThan) } : State).reaped olderThan
          (Metadata.abortSession now s.db id) := by
      simp only [State.step, State.act, if_pos member, aborted]
    rw [List.map_cons, run_cons, next, List.foldl_cons]
    refine ih ?_ fun other later => ?_
    · simp [State.reaped, listed]
    · have kept := present other (List.mem_cons_of_mem id later)
      change ((Metadata.abortSession now s.db id).view.uploads other).isSome
      rw [view_abortSession, View.abortSessions]
      simpa using kept

/-- A sweep over the sessions that nothing interrupts is the atomic call. -/
theorem run_sweep {now : Time} {olderThan : Duration} {limit : Nat} {s : State}
    (idle : s.listed = []) :
    (run State.step s (⟨now, .scanSessions olderThan limit⟩ ::
      (staleSessions now olderThan limit s.db).map
        fun id => ⟨now, .abortSession id olderThan⟩)).db =
        (reapStaleMultipartUploads now olderThan limit s.db).2 := by
  rw [run_cons]
  refine run_aborts (by simp [State.step, State.act, idle]) fun id selected => ?_
  obtain ⟨row, taken, rfl⟩ := List.mem_map.mp selected
  have inTable := (List.mem_filter.mp
    ((List.mem_insertionSort _).mp (List.mem_of_mem_take taken))).1
  exact Option.isSome_of_eq_some (Table.find?_of_mem inTable)

section Tables

variable {now : Time} {db db' : Database}

/-- A part that is begun refreshes its session, and nothing else of the kind. -/
theorem beginPart_refreshes {id uploadID : UUID} {partNumber : Int} {part : Part}
    (h : beginPart now id uploadID partNumber db = .ok (part, db')) :
    db'.view.objects = db.view.objects ∧ db'.view.uploads = fun u => (db.view.uploads u).map
      fun row => if row.id = uploadID then { row with updatedAt := now } else row := by
  obtain ⟨-, -, view⟩ := beginPart_ok h
  rw [view]
  refine ⟨rfl, funext fun u => ?_⟩
  simp [View.mapUploads, View.restartPart, View.reclaim, View.condemnOwned, View.condemn,
    View.mapParts]

/-- A chunk that is committed refreshes its open upload, and nothing else of the kind. -/
theorem commitChunk_refreshes {chunkID : UUID} {checksum : Checksum} {sizeBytes : Int}
    {succeeded failed : List NodeID} {minReplicas : Int} {available : Nat}
    (h : commitChunk now chunkID checksum sizeBytes succeeded failed minReplicas db =
      .ok (available, db')) :
    (db'.view.objects = fun o => (db.view.objects o).map fun row =>
        if uploadOf db chunkID = some (.single row.id) ∧ row.state = .uploading then
          { row with updatedAt := now } else row) ∧
      db'.view.uploads = fun u => (db.view.uploads u).map fun row =>
        if uploadOf db chunkID = some (.session row.id) ∧ row.state = .inProgress then
          { row with updatedAt := now } else row := by
  simp only [commitChunk, bind_eq_ok, lookup_eq_ok, require_eq_ok, pure_eq_ok,
    Prod.mk.injEq] at h
  obtain ⟨row, found, middle, acknowledged, -, -, -, -, -, rfl⟩ := h
  obtain ⟨-, effect⟩ := foldlM_upsert_ok markSucceeded_ok acknowledged
  rw [view_foldl_markFailed] at effect
  have objects : middle.view.objects = db.view.objects := by rw [effect]; rfl
  have uploads : middle.view.uploads = db.view.uploads := by rw [effect]; rfl
  have parts : middle.view.parts = db.view.parts := by rw [effect]; rfl
  rw [← objects, ← uploads]
  have owner : uploadOf db chunkID = match row.owner with
      | .object id => some (.single id)
      | .part id => (middle.view.parts id).map fun part => .session part.uploadID := by
    rw [parts, uploadOf, found]
    rfl
  rw [owner]
  refine ⟨Eq.trans Table.find?_updateWhere_eq (funext fun o => ?_),
    Eq.trans Table.find?_updateWhere_eq (funext fun u => ?_)⟩
  · congr 1
    funext o
    cases row.owner <;> simp
  · congr 1
    funext u
    cases own : row.owner with
    | object => simp [refreshedBy]
    | part id =>
      have member : ((middle.parts.find? id).any fun part => part.uploadID = u.id) = true ↔
          (middle.view.parts id).map (fun part => Upload.session part.uploadID) =
            some (.session u.id) := by
        rw [Option.map_eq_some_iff, Option.any_eq_true]
        simp [Database.view]
      simp only [refreshedBy, Bool.and_eq_true, decide_eq_true_eq, member, and_comm]

/-- An open upload is not failed while its row is the same. -/
theorem mem_failedBetween {u : Upload} (failed : u ∈ failedBetween db db') :
    (∃ id row, u = .single id ∧ db.view.objects id = some row ∧ row.state = .uploading ∧
        db'.view.objects id ≠ db.view.objects id) ∨
      ∃ id row, u = .session id ∧ db.view.uploads id = some row ∧
        db'.view.uploads id ≠ db.view.uploads id := by
  rcases List.mem_append.mp failed with listed | listed
  · obtain ⟨row, selected, rfl⟩ := List.mem_map.mp listed
    obtain ⟨member, holds⟩ := List.mem_filter.mp selected
    obtain ⟨open_, after⟩ := Bool.and_eq_true_iff.mp holds
    have found : db.view.objects row.id = some row := Table.find?_of_mem member
    refine Or.inl ⟨row.id, row, rfl, found, of_decide_eq_true open_, fun same => ?_⟩
    rw [show db'.objects.find? row.id = some row from same.trans found] at after
    simp_all
  · obtain ⟨row, selected, rfl⟩ := List.mem_map.mp listed
    obtain ⟨member, holds⟩ := List.mem_filter.mp selected
    obtain ⟨open_, after⟩ := Bool.and_eq_true_iff.mp holds
    have found : db.view.uploads row.id = some row := Table.find?_of_mem member
    refine Or.inr ⟨row.id, row, rfl, found, fun same => ?_⟩
    rw [show db'.uploads.find? row.id = some row from same.trans found] at after
    simp_all [MultipartUploadRow.isOpen]

/-- The single reaper changes the stale uploads, which are then no longer open. -/
theorem reapStaleUploads_changes (now : Time) (olderThan : Duration) (limit : Nat)
    (db : Database) (id : UUID) :
    (reapStaleUploads now olderThan limit db).2.view.uploads = db.view.uploads ∧
      ((reapStaleUploads now olderThan limit db).2.view.objects id = db.view.objects id ∨
        ∃ row, db.view.objects id = some row ∧ row.updatedAt < now - olderThan ∧
          ∀ row', (reapStaleUploads now olderThan limit db).2.view.objects id = some row' →
            row'.state = .failed) := by
  have view := view_foldl_reapUpload now (((db.objects.select fun o => o.state = .uploading &&
    o.updatedAt < now - olderThan).insertionSort fun a b => a.updatedAt ≤ b.updatedAt).take
      limit |>.map (·.id)) db
  change (reapStaleUploads now olderThan limit db).2.view = _ at view
  rw [view]
  refine ⟨rfl, ?_⟩
  simp only [View.reclaim, View.condemnOwned, View.condemn, View.mapObjects]
  cases found : db.view.objects id with
  | none => exact Or.inl rfl
  | some row =>
    obtain ⟨-, rfl⟩ := Table.mem_of_find? found
    rw [Option.map_some]
    split
    next stale =>
      obtain ⟨o, taken, same⟩ := List.mem_map.mp (of_decide_eq_true stale)
      obtain ⟨member, selected⟩ := List.mem_filter.mp
        ((List.mem_insertionSort _).mp (List.mem_of_mem_take taken))
      obtain rfl : o = row := Table.eq_of_key member (Table.mem_of_find? found).1 same
      refine Or.inr ⟨o, rfl, of_decide_eq_true (Bool.and_eq_true_iff.mp selected).2, ?_⟩
      rintro row' ⟨⟩
      rfl
    next => exact Or.inl rfl

/-- An abort changes the one session, which is then no longer open. -/
theorem abortMultipartUpload_changes {uploadID : UUID}
    (h : abortMultipartUpload now uploadID db = .ok db') (id : UUID) :
    db'.view.objects = db.view.objects ∧ (db'.view.uploads id = db.view.uploads id ∨
      id = uploadID ∧ ∀ row, db'.view.uploads id = some row → row.state = .aborted) := by
  simp only [abortMultipartUpload, bind_eq_ok, lookup_eq_ok, pure_eq_ok] at h
  obtain ⟨row, found, rfl⟩ := h
  rw [view_abortSession]
  refine ⟨rfl, ?_⟩
  simp only [View.abortSessions]
  cases found : db.view.uploads id with
  | none => exact Or.inl rfl
  | some row =>
    rw [Option.map_some]
    split
    next chosen =>
      refine Or.inr ⟨of_decide_eq_true chosen.1, ?_⟩
      rintro row' ⟨⟩
      rfl
    next => exact Or.inl rfl

end Tables

/-- What the reapers rely on: `updated_at` is the last progress of an open upload, the listed
sessions have been quiet for their threshold, and no failure so far was unfair. -/
structure State.Sound (s : State) : Prop where
  uploads {id : UUID} {row : ObjectRow} : s.db.view.objects id = some row →
    row.state = .uploading → s.progress (.single id) = row.updatedAt
  sessions {id : UUID} {row : MultipartUploadRow} : s.db.view.uploads id = some row →
    row.state = .inProgress → s.progress (.session id) = row.updatedAt
  listed {entry : UUID × Duration} : entry ∈ s.listed →
    s.progress (.session entry.1) ≤ s.clock - entry.2
  fair : s.Fair

namespace State.Sound

variable {s : State} {db : Database}

theorem start (db : Database) (clock : Time) : (State.start db clock).Sound where
  uploads found _ := by simp [State.start, recordedProgress, Database.view] at found ⊢; simp [found]
  sessions found _ := by
    simp [State.start, recordedProgress, Database.view] at found ⊢
    simp [found]
  listed member := by cases member
  fair := by
    intro f member
    cases member

/-- Waiting makes the listed sessions older. -/
theorem wait (sound : s.Sound) {now : Time} (later : s.clock ≤ now) :
    ({ s with clock := now } : State).Sound where
  uploads := sound.uploads
  sessions := sound.sessions
  listed member := by
    have := sound.listed member
    change _ ≤ now - _
    simp only [Time] at *
    omega
  fair := sound.fair

/-- A transaction that refreshes the row of the upload it advances keeps the record right. -/
theorem advance (sound : s.Sound) {upload : Option Upload}
    (unlisted : ∀ entry ∈ s.listed, upload ≠ some (.session entry.1))
    (objects : ∀ {id row'}, db.view.objects id = some row' → row'.state = .uploading →
      if upload = some (.single id) then row'.updatedAt = s.clock
      else s.db.view.objects id = some row')
    (sessions : ∀ {id row'}, db.view.uploads id = some row' → row'.state = .inProgress →
      if upload = some (.session id) then row'.updatedAt = s.clock
      else s.db.view.uploads id = some row') :
    (s.advance upload db).Sound where
  uploads {id row} found open_ := by
    have refreshed := objects found open_
    simp only [State.advance]
    split at refreshed
    next mine => rw [if_pos mine, refreshed]
    next other => rw [if_neg other, sound.uploads refreshed open_]
  sessions {id row} found open_ := by
    have refreshed := sessions found open_
    simp only [State.advance]
    split at refreshed
    next mine => rw [if_pos mine, refreshed]
    next other => rw [if_neg other, sound.sessions refreshed open_]
  listed {entry} member := by
    simp only [State.advance]
    rw [if_neg (unlisted entry member)]
    exact sound.listed member
  fair := sound.fair

theorem beginPart (sound : s.Sound) {id uploadID : UUID} {partNumber : Int} {part : Part}
    (unlisted : ∀ entry ∈ s.listed, some (.session uploadID) ≠ some (Upload.session entry.1))
    (h : Metadata.beginPart s.clock id uploadID partNumber s.db = .ok (part, db)) :
    (s.advance (some (.session uploadID)) db).Sound := by
  obtain ⟨objects, uploads⟩ := beginPart_refreshes h
  refine sound.advance unlisted (fun found _ => ?_) (fun {id row'} found _ => ?_)
  · rw [if_neg nofun, ← objects, found]
  · rw [uploads] at found
    obtain ⟨row, before, rfl⟩ := Option.map_eq_some_iff.mp found
    obtain ⟨-, rfl⟩ := Table.mem_of_find? before
    rw [before]
    by_cases mine : row.id = uploadID
    · simp [mine]
    · simp [mine, Ne.symm mine]

theorem commitChunk (sound : s.Sound) {chunkID : UUID} {checksum : Checksum} {sizeBytes : Int}
    {succeeded failed : List NodeID} {minReplicas : Int} {available : Nat}
    (unlisted : ∀ entry ∈ s.listed, uploadOf s.db chunkID ≠ some (.session entry.1))
    (h : Metadata.commitChunk s.clock chunkID checksum sizeBytes succeeded failed minReplicas s.db =
      .ok (available, db)) : (s.advance (uploadOf s.db chunkID) db).Sound := by
  obtain ⟨objects, uploads⟩ := commitChunk_refreshes h
  refine sound.advance unlisted (fun {id row'} found open_ => ?_) (fun {id row'} found open_ => ?_)
  · rw [objects] at found
    obtain ⟨row, before, rfl⟩ := Option.map_eq_some_iff.mp found
    obtain ⟨-, rfl⟩ := Table.mem_of_find? before
    rw [before]
    by_cases mine : uploadOf s.db chunkID = some (.single row.id)
    · by_cases state : row.state = .uploading <;> simp_all
    · simp [mine]
  · rw [uploads] at found
    obtain ⟨row, before, rfl⟩ := Option.map_eq_some_iff.mp found
    obtain ⟨-, rfl⟩ := Table.mem_of_find? before
    rw [before]
    by_cases mine : uploadOf s.db chunkID = some (.session row.id)
    · by_cases state : row.state = .inProgress <;> simp_all
    · simp [mine]

/-- A reaper keeps the record right if it fails only uploads that have been quiet. -/
theorem reaped (sound : s.Sound) {olderThan : Duration}
    (objects : ∀ {id row}, db.view.objects id = some row → row.state = .uploading →
      s.db.view.objects id = some row)
    (sessions : ∀ {id row}, db.view.uploads id = some row → row.state = .inProgress →
      s.db.view.uploads id = some row)
    (quiet : ∀ u ∈ failedBetween s.db db, s.progress u ≤ s.clock - olderThan) :
    (s.reaped olderThan db).Sound where
  uploads found open_ := sound.uploads (objects found open_) open_
  sessions found open_ := sound.sessions (sessions found open_) open_
  listed := sound.listed
  fair := by
    intro f member
    rcases List.mem_append.mp member with old | new
    · exact sound.fair f old
    · obtain ⟨u, failed, rfl⟩ := List.mem_map.mp new
      exact quiet u failed

theorem reapStaleUploads (sound : s.Sound) (olderThan : Duration) (limit : Nat) :
    (s.reaped olderThan (Metadata.reapStaleUploads s.clock olderThan limit s.db).2).Sound := by
  have changes := reapStaleUploads_changes s.clock olderThan limit s.db
  have uploads := (changes 0).1
  refine sound.reaped (fun {id row} found open_ => ?_) (fun found _ => uploads ▸ found)
    fun u failed => ?_
  · rcases (changes id).2 with same | ⟨_, -, -, after⟩
    · rwa [← same]
    · rw [after row found] at open_
      cases open_
  · obtain ⟨id, row, rfl, found, open_, changed⟩ | ⟨id, row, -, -, changed⟩ :=
      mem_failedBetween failed
    · obtain ⟨row', found', stale, -⟩ := (changes id).2.resolve_left changed
      obtain rfl : row = row' := Option.some.inj (found.symm.trans found')
      rw [sound.uploads found open_]
      exact Int.le_of_lt stale
    · exact absurd (congrFun uploads id) changed

theorem scanSessions (sound : s.Sound) (olderThan : Duration) (limit : Nat) :
    ({ s with listed := s.listed ++
      (staleSessions s.clock olderThan limit s.db).map (·, olderThan) } : State).Sound where
  uploads := sound.uploads
  sessions := sound.sessions
  listed {entry} member := by
    rcases List.mem_append.mp member with old | new
    · exact sound.listed old
    · obtain ⟨id, selected, rfl⟩ := List.mem_map.mp new
      obtain ⟨row, taken, rfl⟩ := List.mem_map.mp selected
      obtain ⟨inTable, holds⟩ := List.mem_filter.mp
        ((List.mem_insertionSort _).mp (List.mem_of_mem_take taken))
      obtain ⟨progress, stale⟩ := Bool.and_eq_true_iff.mp holds
      have found : s.db.view.uploads row.id = some row := Table.find?_of_mem inTable
      change s.progress (.session row.id) ≤ _
      rw [sound.sessions found (of_decide_eq_true progress)]
      exact Int.le_of_lt (of_decide_eq_true stale)
  fair := sound.fair

theorem erase (sound : s.Sound) (entry : UUID × Duration) :
    ({ s with listed := s.listed.erase entry } : State).Sound where
  uploads := sound.uploads
  sessions := sound.sessions
  listed member := sound.listed (List.mem_of_mem_erase member)
  fair := sound.fair

theorem abortMultipartUpload (sound : s.Sound) {uploadID : UUID} {olderThan : Duration}
    (quiet : s.progress (.session uploadID) ≤ s.clock - olderThan)
    (h : Metadata.abortMultipartUpload s.clock uploadID s.db = .ok db) :
    (s.reaped olderThan db).Sound := by
  have changes := abortMultipartUpload_changes h
  have objects := (changes 0).1
  refine sound.reaped (fun found _ => objects ▸ found) (fun {id row} found open_ => ?_)
    fun u failed => ?_
  · rcases (changes id).2 with same | ⟨-, after⟩
    · rwa [← same]
    · rw [after row found] at open_
      cases open_
  · rcases mem_failedBetween failed with ⟨id, row, -, -, -, changed⟩ | ⟨id, row, rfl, -, changed⟩
    · exact absurd (congrFun objects id) changed
    · obtain ⟨rfl, -⟩ := (changes id).2.resolve_left changed
      exact quiet

/-- Every step that the condition permits keeps the record right. -/
theorem step (sound : s.Sound) {e : Event} (permitted : s.permits e) : (s.step e).Sound := by
  obtain ⟨later, unlisted⟩ := permitted
  have waited := sound.wait later
  obtain ⟨now, action⟩ := e
  unfold State.step State.act
  cases action with
  | beginPart id uploadID partNumber =>
    dsimp only
    split
    next h => exact waited.beginPart unlisted h
    next => exact waited
  | commitChunk chunkID checksum sizeBytes succeeded failed minReplicas =>
    dsimp only
    split
    next h => exact waited.commitChunk unlisted h
    next => exact waited
  | reapStaleUploads olderThan limit => exact waited.reapStaleUploads olderThan limit
  | scanSessions olderThan limit => exact waited.scanSessions olderThan limit
  | abortSession uploadID olderThan =>
    dsimp only
    split
    next member =>
      split
      next h => exact (waited.erase _).abortMultipartUpload (waited.listed member) h
      next => exact waited.erase _
    next => exact waited

end State.Sound

/-- In every run from any database in which no session makes progress between the scan that
found it and its abort, neither reaper fails an upload that has made progress within the
threshold. -/
theorem reapers_fair {db : Database} {clock : Time} {events : List Event}
    (permitted : Guarded State.step State.permits (State.start db clock) events) :
    Always State.step State.Fair (State.start db clock) events :=
  (always_of_preserved (P := State.Sound) (fun _ _ sound permitted => sound.step permitted)
    (State.Sound.start db clock) permitted).mono fun _ sound => sound.fair

/-- A session that was created at time 0 and has one part with an allocated chunk. -/
def oneSession : Database :=
  run Metadata.step Database.empty
    [⟨0, .upsertNode "n1" "n1:9000" .healthy {} 0⟩, ⟨0, .createMultipartUpload 7 "b" "k" "" 8⟩,
      ⟨1, .beginPart 70 7 1⟩, ⟨2, .reserveChunk 10 ⟨none, some 70⟩ 0 8⟩]

theorem run_sweep_oneSession :
    (run State.step (State.start oneSession 2) (⟨200, .scanSessions 100 10⟩ ::
      (staleSessions 200 100 10 oneSession).map fun id => ⟨200, .abortSession id 100⟩)).db =
        (reapStaleMultipartUploads 200 100 10 oneSession).2 :=
  run_sweep rfl

/-- The session is found quiet and aborted. -/
theorem reapers_fair_quietSession :
    Always State.step State.Fair (State.start oneSession 2)
      [⟨50, .commitChunk 10 5 8 ["n1"] [] 1⟩, ⟨200, .scanSessions 100 10⟩,
        ⟨201, .abortSession 7 100⟩] :=
  reapers_fair (by decide)

/-- A chunk of the session is committed after the scan found it quiet, and one second later
the session is aborted. -/
theorem reaper_aborts_progress :
    ((run State.step (State.start oneSession 2)
      [⟨200, .scanSessions 100 10⟩, ⟨201, .commitChunk 10 5 8 ["n1"] [] 1⟩,
        ⟨202, .abortSession 7 100⟩]).failures = [⟨.session 7, 202, 100, 201⟩]) ∧
      ¬(run State.step (State.start oneSession 2)
        [⟨200, .scanSessions 100 10⟩, ⟨201, .commitChunk 10 5 8 ["n1"] [] 1⟩,
          ⟨202, .abortSession 7 100⟩]).Fair := by
  decide

end FlexStore.Metadata.Reapers
