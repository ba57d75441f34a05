import FlexStore.Metadata.Lifecycle

/-!
# The death of an owner

Completion, deletion, abort, the reapers, the restart of a part and the assembly of a
session all give up owners, each with its own statements. They agree on what that
does: the owners given up are exactly those that become dead, and the copies of the
chunks that still belong to them are condemned in the same transaction.
-/

namespace FlexStore.Metadata

open Relational Transition

/-- The step from one view to the other gives up exactly the owners `p`, and condemns the
copies of the chunks they have left. -/
structure View.Deaths (v w : View) (p : Owner → Bool) : Prop where
  dead : ∀ o, p o → w.status o = .dead
  spared : ∀ o, p o = false → w.status o = .dead → v.status o = .dead
  slots : ∀ c n, w.slots c n = if w.ownedBy p c then (v.slots c n).condemn else v.slots c n

namespace View

variable {v w : View} {id : UUID}

theorem status_object {row : ObjectRow} (found : v.objects id = some row) :
    v.status (.object id) = row.state.status := by
  simp [status, found]

theorem status_part {row : PartRow} (found : v.parts id = some row) :
    v.status (.part id) = v.partStatus row := by
  simp [status, found]

theorem status_object_congr (same : w.objects id = v.objects id) :
    w.status (.object id) = v.status (.object id) := by
  rw [status, same, status]

theorem status_part_congr (same : w.parts id = v.parts id)
    (sessions : ∀ row, v.parts id = some row →
      w.progressing row.uploadID = v.progressing row.uploadID) :
    w.status (.part id) = v.status (.part id) := by
  cases found : v.parts id with
  | none => simp [status, same, found]
  | some row =>
    rw [status_part found, status_part (same.trans found), partStatus, sessions row found,
      partStatus]

theorem progressing_congr (same : w.uploads id = v.uploads id) :
    w.progressing id = v.progressing id := by
  rw [progressing, same, progressing]

/-- Rewriting session rows without touching their states. -/
theorem progressing_mapUploads {p : MultipartUploadRow → Bool}
    {f : MultipartUploadRow → MultipartUploadRow} (uploads : w.uploads = (v.mapUploads p f).uploads)
    (keeps : ∀ u, (f u).state = u.state) (id : UUID) : w.progressing id = v.progressing id := by
  rw [progressing, uploads, progressing]
  cases found : v.uploads id with
  | none => simp [mapUploads, found]
  | some u => by_cases selected : p u = true <;> simp [mapUploads, found, selected, keeps]

theorem status_part_mapUploads {p : MultipartUploadRow → Bool}
    {f : MultipartUploadRow → MultipartUploadRow} (parts : w.parts = v.parts)
    (uploads : w.uploads = (v.mapUploads p f).uploads) (keeps : ∀ u, (f u).state = u.state)
    (id : UUID) : w.status (.part id) = v.status (.part id) :=
  status_part_congr (congrFun parts id) fun _ _ => progressing_mapUploads uploads keeps _

/-- Rewriting object rows without touching their states. -/
theorem status_mapObjects {p : ObjectRow → Bool} {f : ObjectRow → ObjectRow}
    (objects : w.objects = (v.mapObjects p f).objects) (keeps : ∀ o, (f o).state = o.state)
    (id : UUID) : w.status (.object id) = v.status (.object id) := by
  rw [status, objects, status]
  cases found : v.objects id with
  | none => simp [mapObjects, found]
  | some o => by_cases selected : p o = true <;> simp [mapObjects, found, selected, keeps]

/-- A rule that rewrites an object row gives the object up if it selects the row. -/
theorem status_object_selected {p : ObjectRow → Bool} {f : ObjectRow → ObjectRow}
    (objects : w.objects id = (v.objects id).map f)
    (dead : ∀ row, v.objects id = some row → p row → (f row).state.status = .dead)
    (selected : v.objectWith p (.object id)) : w.status (.object id) = .dead := by
  obtain ⟨row, found, chosen⟩ := (Option.any_eq_true _ _).mp selected
  rw [status_object (objects.trans (by rw [found]; rfl))]
  exact dead row found chosen

/-- A rule that rewrites an object row does not touch the status of other objects. -/
theorem status_object_spared {p : ObjectRow → Bool} {f : ObjectRow → ObjectRow}
    (objects : w.objects id = (v.objects id).map f)
    (spared : ∀ row, v.objects id = some row → p row = false →
      (f row).state.status = row.state.status) (other : v.objectWith p (.object id) = false) :
    w.status (.object id) = v.status (.object id) := by
  cases found : v.objects id with
  | none => simp [status, objects, found]
  | some row =>
    rw [status_object found, status_object (objects.trans (by rw [found]; rfl))]
    exact spared row found (by simpa [objectWith, found] using other)

@[inherit_doc status_object_selected]
theorem status_part_selected {p : PartRow → Bool} {f : PartRow → PartRow}
    (parts : w.parts id = (v.parts id).map f)
    (dead : ∀ row, v.parts id = some row → p row → w.partStatus (f row) = .dead)
    (selected : v.partWith p (.part id)) : w.status (.part id) = .dead := by
  obtain ⟨row, found, chosen⟩ := (Option.any_eq_true _ _).mp selected
  rw [status_part (parts.trans (by rw [found]; rfl))]
  exact dead row found chosen

@[inherit_doc status_object_spared]
theorem status_part_spared {p : PartRow → Bool} {f : PartRow → PartRow}
    (parts : w.parts id = (v.parts id).map f)
    (spared : ∀ row, v.parts id = some row → p row = false →
      w.partStatus (f row) = v.partStatus row) (other : v.partWith p (.part id) = false) :
    w.status (.part id) = v.status (.part id) := by
  cases found : v.parts id with
  | none => simp [status, parts, found]
  | some row =>
    rw [status_part found, status_part (parts.trans (by rw [found]; rfl))]
    exact spared row found (by simpa [partWith, found] using other)

theorem ownedBy_congr (same : w.chunks = v.chunks) (p : Owner → Bool) (c : UUID) :
    w.ownedBy p c = v.ownedBy p c := by
  rw [ownedBy, same, ownedBy]

/-- Orphaning a chunk does not change its owner. -/
theorem ownedBy_reclaim (v : View) (p q : Owner → Bool) (c : UUID) :
    (v.reclaim p).ownedBy q c = v.ownedBy q c := by
  cases found : v.chunks c with
  | none => simp [ownedBy, reclaim, found]
  | some row => by_cases h : p row.owner = true <;> simp [ownedBy, reclaim, found, h]

theorem slots_of_reclaim {p : Owner → Bool} (chunks : w.chunks = (v.reclaim p).chunks)
    (slots : w.slots = (v.reclaim p).slots) (c : UUID) (n : NodeID) :
    w.slots c n = if w.ownedBy p c then (v.slots c n).condemn else v.slots c n := by
  rw [ownedBy_congr chunks, ownedBy_reclaim, slots]
  rfl

theorem partStatus_failed (v : View) {p : PartRow} (failed : p.state = .failed) :
    v.partStatus p = .dead := by
  rw [partStatus, failed]
  split <;> rfl

theorem partStatus_closed {p : PartRow} (closed : v.progressing p.uploadID = false) :
    v.partStatus p = .dead := by
  simp [partStatus, closed]

theorem partStatus_congr {p q : PartRow} (state : q.state = p.state)
    (session : w.progressing q.uploadID = v.progressing p.uploadID) :
    w.partStatus q = v.partStatus p := by
  rw [partStatus, session, state, partStatus]

end View

open View

variable {v w : View} {id uploadID : UUID} {now : Time} {bucket key : String} {row : ObjectRow}

/-- Rows that a completion retires are under their own id. -/
theorem not_supersededBy_self (named : row.id = id) : supersededBy bucket key id row = false := by
  simp [supersededBy, named]

theorem View.Deaths.completed (state : row.state = .complete)
    (named : ∀ old, v.objects id = some old → old.id = id)
    (view : w = (v.supersede now bucket key id).promote id row) :
    v.Deaths w (v.objectWith (supersededBy bucket key id)) where
  dead := by
    intro o selected
    cases o with
    | part => simp [objectWith] at selected
    | object k =>
      have other : k ≠ id := by
        rintro rfl
        obtain ⟨old, found, chosen⟩ := (Option.any_eq_true _ _).mp selected
        simp [not_supersededBy_self (named old found)] at chosen
      refine status_object_selected (by rw [view]; exact Function.update_of_ne other _ _)
        (fun old _ chosen => ?_) selected
      simp [chosen, ObjectState.status]
  spared := by
    intro o other after
    cases o with
    | part k => rwa [view] at after
    | object k =>
      by_cases same : k = id
      · subst same
        rw [status_object (by rw [view]; exact Function.update_self _ _ _), state] at after
        cases after
      · rwa [status_object_spared (by rw [view]; exact Function.update_of_ne same _ _)
          (fun old _ spared => by simp [spared]) other] at after
  slots := by
    intro c n
    rw [view]
    rfl

variable {db db' : Database} {op : Op} {r : Reply}

theorem View.Deaths.failed {ids : List UUID} {text : String}
    (accepting : ∀ id ∈ ids, (db.view.objects id).any (·.state = .uploading))
    (view : w = (db.view.mapObjects (fun o => o.id ∈ ids)
      (ObjectRow.fail now text)).reclaim (Owner.objectIn ids)) :
    db.view.Deaths w (Owner.objectIn ids) where
  dead := by
    intro o selected
    cases o with
    | part => simp [Owner.objectIn] at selected
    | object k =>
      have listed : k ∈ ids := by simpa [Owner.objectIn] using selected
      obtain ⟨row, found, -⟩ := (Option.any_eq_true _ _).mp (accepting k listed)
      have after : w.objects k = some (row.fail now text) := by
        rw [view]
        simp [reclaim, condemnOwned, condemn, View.mapObjects, found, object_id found, listed]
      rw [status_object after]
      rfl
  spared := by
    intro o other after
    cases o with
    | part k => rwa [view] at after
    | object k =>
      have unlisted : k ∉ ids := by simpa [Owner.objectIn] using other
      rwa [status_object_congr] at after
      rw [view]
      cases found : db.view.objects k with
      | none => simp [reclaim, condemnOwned, condemn, View.mapObjects, found]
      | some row =>
        simp [reclaim, condemnOwned, condemn, View.mapObjects, found, object_id found,
          unlisted]
  slots := by
    intro c n
    rw [view, ownedBy_reclaim]
    rfl

theorem View.Deaths.deleted (consistent : db.view.Consistent)
    (found : db.view.objects row.id = some row) (current : currentVersion bucket key row)
    (view : w = (db.view.mapObjects (currentVersion bucket key)
      (ObjectRow.retire now)).condemnOwned (· = .object row.id)) :
    db.view.Deaths w (· = .object row.id) where
  dead := by
    intro o selected
    obtain rfl := of_decide_eq_true selected
    have after : w.objects row.id = some (row.retire now) := by
      rw [view]
      simp [condemnOwned, condemn, View.mapObjects, found, current]
    rw [status_object after]
    rfl
  spared := by
    intro o other after
    cases o with
    | part k => rwa [view] at after
    | object k =>
      rwa [status_object_congr] at after
      rw [view]
      cases before : db.view.objects k with
      | none => simp [condemnOwned, condemn, View.mapObjects, before]
      | some x =>
        have older : currentVersion bucket key x = false := by
          by_contra chosen
          simp only [currentVersion, Bool.and_eq_true, decide_eq_true_eq,
            Bool.not_eq_false] at chosen current
          have same := consistent.current before found chosen.2 current.2
            (chosen.1.1.trans current.1.1.symm) (chosen.1.2.trans current.1.2.symm)
          simp [same] at other
        simp [condemnOwned, condemn, View.mapObjects, before, older]
  slots := by
    intro c n
    rw [view]
    rfl

theorem View.Deaths.restarted {partNumber : Int} {touched : MultipartUploadRow → Bool}
    {session : MultipartUploadRow} (found : v.uploads uploadID = some session)
    (progress : session.state = .inProgress) (fresh : v.parts id = none)
    (view : w = { ((v.restartPart now uploadID partNumber).mapUploads touched
        fun u => { u with updatedAt := now }) with
      parts := Function.update (v.restartPart now uploadID partNumber).parts id
        (some (newPart now id uploadID partNumber)) }) :
    v.Deaths w (v.partWith (priorAttempt uploadID partNumber)) := by
  have rows := congrArg View.uploads view
  have sessions : ∀ u, w.progressing u = v.progressing u :=
    progressing_mapUploads rows fun _ => rfl
  have others : ∀ k, k ≠ id → w.parts k = (v.parts k).map fun p =>
      if priorAttempt uploadID partNumber p then p.fail now else p := by
    intro k other
    rw [view]
    exact Function.update_of_ne other _ _
  refine ⟨fun o selected => ?_, fun o other after => ?_, fun c n => ?_⟩
  · cases o with
    | object => simp [partWith] at selected
    | part k =>
      have other : k ≠ id := by
        rintro rfl
        simp [partWith, fresh] at selected
      refine status_part_selected (others k other) (fun row _ chosen => ?_) selected
      exact partStatus_failed _ (by simp [chosen])
  · cases o with
    | object k => rwa [view] at after
    | part k =>
      by_cases same : k = id
      · subst same
        have begun : w.parts k = some (newPart now k uploadID partNumber) := by
          rw [view]
          exact Function.update_self _ _ _
        have accepting : w.status (.part k) = .accepting := by
          rw [status_part begun, partStatus, sessions]
          simp [progressing, newPart, found, progress, PartState.status]
        simp [accepting] at after
      · rwa [status_part_spared (others k same)
          (fun row _ spared => partStatus_congr (by simp [spared]) (by simp [spared, sessions]))
          other] at after
  · exact slots_of_reclaim (by subst view; rfl) (by subst view; rfl) c n

theorem View.Deaths.aborted {selected : UUID → Bool} (view : w = v.abortSessions now selected) :
    v.Deaths w (v.partWith fun p => v.closes selected p.uploadID) := by
  have parts : ∀ k, w.parts k = (v.parts k).map fun p =>
      if v.closes selected p.uploadID ∧ p.state ≠ .failed then p.fail now else p := by
    intro k
    rw [view]
    rfl
  have sessions : ∀ u, w.progressing u = (v.progressing u && !v.closes selected u) := by
    intro u
    rw [view]
    cases found : v.uploads u with
    | none => simp [progressing, abortSessions, found]
    | some row =>
      cases chosen : selected u <;> cases state : row.state <;>
        simp [progressing, abortSessions, closes, MultipartUploadRow.isOpen, found, chosen,
          state]
  refine ⟨fun o h => ?_, fun o other after => ?_, fun c n => ?_⟩
  · cases o with
    | object => simp [partWith] at h
    | part k =>
      refine status_part_selected (parts k) (fun row _ closing => ?_) h
      refine partStatus_closed ?_
      have session : (if v.closes selected row.uploadID ∧ row.state ≠ .failed then row.fail now
          else row).uploadID = row.uploadID := by split <;> rfl
      rw [session, sessions, closing, Bool.not_true, Bool.and_false]
  · cases o with
    | object k => rwa [view] at after
    | part k =>
      rwa [status_part_spared (parts k)
        (fun row _ spared => partStatus_congr (by simp [spared]) (by simp [spared, sessions]))
        other] at after
  · exact slots_of_reclaim (by subst view; rfl) (by subst view; rfl) c n

theorem View.Deaths.assembled {middle : View} {objectID : UUID} {session : MultipartUploadRow}
    {finished : ObjectRow} {ids : List UUID} (fresh : v.objects objectID = none)
    (named : row.id = objectID) (state : finished.state = .complete)
    (promoted : middle = ((v.assemble row ids).supersede now bucket key objectID).promote objectID
      finished) (view : w = { middle.reclaim (middle.partWith (·.uploadID = uploadID)) with
      uploads := Function.update v.uploads uploadID (some (session.close now objectID)) }) :
    v.Deaths w fun o => v.objectWith (supersededBy bucket key objectID) o ||
      v.partWith (·.uploadID = uploadID) o := by
  have objects : ∀ k, k ≠ objectID → w.objects k = (v.objects k).map fun o =>
      if supersededBy bucket key objectID o then o.retire now else o := by
    intro k other
    have before : (v.assemble row ids).objects k = v.objects k :=
      Function.update_of_ne (by rwa [named]) _ _
    rw [← before, view, promoted]
    exact Function.update_of_ne other _ _
  have parts : w.parts = v.parts := by rw [view, promoted]; rfl
  have closed : w.progressing uploadID = false := by
    rw [view]
    simp [progressing]
  have open_ : ∀ u, u ≠ uploadID → w.progressing u = v.progressing u := by
    intro u other
    refine progressing_congr ?_
    rw [view]
    exact Function.update_of_ne other _ _
  refine ⟨fun o h => ?_, fun o other after => ?_, fun c n => ?_⟩
  · cases o with
    | object k =>
      have chosen : v.objectWith (supersededBy bucket key objectID) (.object k) := by
        simpa [partWith] using h
      have other : k ≠ objectID := by
        rintro rfl
        simp [objectWith, fresh] at chosen
      refine status_object_selected (objects k other) (fun old _ selected => ?_) chosen
      simp [selected, ObjectState.status]
    | part k =>
      have chosen : v.partWith (·.uploadID = uploadID) (.part k) := by
        simpa [objectWith] using h
      refine status_part_selected (by rw [parts, Option.map_id']) (fun old _ mine => ?_) chosen
      exact partStatus_closed (by rwa [of_decide_eq_true mine])
  · cases o with
    | object k =>
      by_cases same : k = objectID
      · subst same
        have new : w.objects k = some finished := by
          rw [view, promoted]
          exact Function.update_self _ _ _
        rw [status_object new, state] at after
        cases after
      · have spared : v.objectWith (supersededBy bucket key objectID) (.object k) = false := by
          simpa [partWith] using other
        rwa [status_object_spared (objects k same) (fun old _ h => by simp [h]) spared] at after
    | part k =>
      have spared : v.partWith (·.uploadID = uploadID) (.part k) = false := by
        simpa [objectWith] using other
      rwa [status_part_spared (by rw [parts, Option.map_id'])
        (fun old _ h => partStatus_congr rfl (open_ _ (of_decide_eq_false h))) spared] at after
  · have owners : ∀ p, w.ownedBy p c = (v.assemble row ids).ownedBy p c := by
      intro p
      rw [← ownedBy_reclaim (v.assemble row ids) (middle.partWith (·.uploadID = uploadID)), view,
        promoted]
      rfl
    have superseded : ∀ o, (v.assemble row ids).objectWith (supersededBy bucket key objectID) o =
        v.objectWith (supersededBy bucket key objectID) o := by
      intro o
      cases o with
      | part => rfl
      | object k =>
        by_cases same : k = objectID
        · subst same
          have new : (v.assemble row ids).objects k = some row := by
            rw [← named]
            exact Function.update_self _ _ _
          simp [objectWith, new, fresh, not_supersededBy_self named]
        · have before : (v.assemble row ids).objects k = v.objects k :=
            Function.update_of_ne (by rwa [named]) _ _
          simp [objectWith, before]
    have twice : w.slots c n =
        if (v.assemble row ids).ownedBy (v.partWith (·.uploadID = uploadID)) c then
          (if (v.assemble row ids).ownedBy
              ((v.assemble row ids).objectWith (supersededBy bucket key objectID)) c then
            (v.slots c n).condemn else v.slots c n).condemn
        else if (v.assemble row ids).ownedBy
            ((v.assemble row ids).objectWith (supersededBy bucket key objectID)) c then
          (v.slots c n).condemn else v.slots c n := by
      rw [view, promoted]
      rfl
    rw [twice, owners, funext superseded]
    cases found : (v.assemble row ids).chunks c with
    | none => simp [ownedBy, found]
    | some x =>
      cases first : v.objectWith (supersededBy bucket key objectID) x.owner <;>
        cases second : v.partWith (fun x => decide (x.uploadID = uploadID)) x.owner <;>
        simp [ownedBy, found, first, second]

/-- Every transaction either gives owners up, with all that goes with it, or lets nobody
die. -/
theorem Change.deaths (change : Change db db' op r) (consistent : db.view.Consistent) :
    (∃ p, db.view.Deaths db'.view p) ∨
      ∀ o, db'.view.status o = .dead → db.view.status o = .dead := by
  cases change with
  | completed id _ _ _ _ row found _ _ _ _ view =>
    exact Or.inl ⟨_, .completed rfl (fun _ same => object_id same) view⟩
  | failed _ _ _ _ accepting view => exact Or.inl ⟨_, .failed accepting view⟩
  | deleted _ _ _ _ found current view =>
    exact Or.inl ⟨_, .deleted consistent found current view⟩
  | partBegun _ _ _ _ _ found progress fresh view =>
    exact Or.inl ⟨_, .restarted found progress fresh view⟩
  | assembled _ _ _ _ _ _ _ _ _ _ _ _ fresh new _ _ _ _ promoted view =>
    exact Or.inl ⟨_, .assembled fresh (by rw [new]; rfl) rfl promoted view⟩
  | sessionsAborted _ _ _ view => exact Or.inl ⟨_, .aborted view⟩
  | begun id _ _ _ _ row _ state _ view =>
    refine Or.inr fun o after => ?_
    cases o with
    | part => rwa [view] at after
    | object k =>
      by_cases same : k = id
      · subst same
        rw [status_object (by rw [view]; exact Function.update_self _ _ _), state] at after
        cases after
      · rwa [status_object_congr (v := db.view)] at after
        rw [view]
        exact Function.update_of_ne same _ _
  | touched id now view =>
    refine Or.inr fun o after => ?_
    cases o with
    | part => rwa [view] at after
    | object k =>
      have rows := congrArg View.objects view
      rwa [status_mapObjects rows fun _ => rfl] at after
  | committed _ _ _ _ _ _ now row touched _ _ _ _ view =>
    refine Or.inr fun o after => ?_
    cases o with
    | object k =>
      have rows := congrArg View.objects view
      rwa [status_mapObjects rows fun _ => rfl] at after
    | part k =>
      have rows := congrArg View.uploads view
      have parts := congrArg View.parts view
      rwa [status_part_mapUploads (v := db.view) parts rows fun _ => rfl] at after
  | sessionCreated id _ _ _ _ row _ fresh view =>
    refine Or.inr fun o after => ?_
    cases o with
    | object => rwa [view] at after
    | part k =>
      rwa [status_part_congr (v := db.view) (congrFun (congrArg View.parts view) k)] at after
      intro part found
      have other : part.uploadID ≠ id := by
        rintro rfl
        simpa [fresh] using consistent.part_session found
      exact progressing_congr (by rw [view]; exact Function.update_of_ne other _ _)
  | partCompleted id _ _ _ _ row found state _ _ _ view =>
    refine Or.inr fun o after => ?_
    have sessions : ∀ u, db'.view.progressing u = db.view.progressing u :=
      fun u => progressing_congr (by rw [view])
    cases o with
    | object => rwa [view] at after
    | part k =>
      by_cases same : k = id
      · subst same
        rw [status_part (by rw [view]; exact Function.update_self _ _ _), partStatus,
          sessions] at after
        rw [status_part found, partStatus]
        split at after
        · cases after
        · next closed => rw [if_neg closed]
      · rwa [status_part_congr (v := db.view) ?_ fun _ _ => sessions _] at after
        rw [view]
        exact Function.update_of_ne same _ _
  | purged _ _ object _ _ _ view =>
    refine Or.inr fun o after => ?_
    cases o with
    | object k =>
      have rows : db'.view.objects k = (db.view.objects k).filter fun row => !object row :=
        congrFun (congrArg View.objects view) k
      cases found : db.view.objects k with
      | none => simp [status, rows, found] at after
      | some row =>
        rw [status_object found]
        cases gone : object row <;>
          simp [status, rows, found, gone, Option.filter_some] at after
        exact after
    | part k =>
      have rows := congrArg View.uploads view
      have parts := congrArg View.parts view
      rwa [status_part_mapUploads (v := db.view) parts rows fun _ => rfl] at after
  | sessionsPurged _ upload closed _ view =>
    refine Or.inr fun o after => ?_
    cases o with
    | object => rwa [view] at after
    | part k =>
      have rows : db'.view.parts k = (db.view.parts k).filter fun row =>
          !(db.view.uploads row.uploadID).any upload := congrFun (congrArg View.parts view) k
      cases found : db.view.parts k with
      | none => simp [status, rows, found] at after
      | some row =>
        cases gone : (db.view.uploads row.uploadID).any upload with
        | true => simp [status, rows, found, gone, Option.filter_some] at after
        | false =>
          have kept : db'.view.parts k = some row := by
            simp [rows, found, gone, Option.filter_some]
          have session : db'.view.uploads row.uploadID =
              db.view.uploads row.uploadID := by
            rw [view]
            change (db.view.uploads row.uploadID).filter _ = _
            cases u : db.view.uploads row.uploadID with
            | none => rfl
            | some x => simpa [u, Option.filter_some] using gone
          rw [status_part kept] at after
          rwa [status_part found, ← partStatus_congr rfl (progressing_congr session)]
  | _ =>
    rename db'.view = _ => view
    refine Or.inr fun o after => ?_
    rw [view] at after
    first | exact after | split at after <;> exact after

end FlexStore.Metadata
