import FlexStore.Relational.Transaction

/-!
# Critical sections of transactions

A transaction may read and lock for a while before it comes to the statement whose answer
the rest of it depends on. From that statement to its end it is in its critical section. If
transactions enter their critical sections one at a time, then nobody commits while one of
them is inside, so each one has the effect that it has alone, and what all of them preserve
alone holds of the committed rows at any time.

What a transaction does alone is often known from its statements: `Writes` says that each of
them only makes changes of a certain kind, and then so does the whole.
-/

namespace Relational

open Transition

variable {ι κ : Type} {ν : κ → Type} {σ ε α β δ : Type}

section Writes

/-- Every version that a statement can write is related to the version that it replaces. -/
def Txn.Writes (K : (k : κ) → ν k → ν k → Prop) : Txn ν σ ε α → Prop
  | .done _ | .fail _ => True
  | .select _ next => ∀ rows, (next rows).Writes K
  | .lock _ _ next => ∀ row, (next row).Writes K
  | .update _ _ change next =>
    (∀ rows k old v, change rows k old = .write v → K k old v) ∧
      ∀ touched, (next touched).Writes K

variable {K : (k : κ) → ν k → ν k → Prop}

theorem Txn.writes_of_forall (all : ∀ k u v, K k u v) (p : Txn ν σ ε α) : p.Writes K := by
  induction p with
  | done | fail => trivial
  | select name next ih | lock name k next ih => exact ih
  | update name find change next ih => exact ⟨fun _ k u v _ => all k u v, ih⟩

theorem Txn.writes_bind {p : Txn ν σ ε α} {f : α → Txn ν σ ε β} (first : p.Writes K)
    (rest : ∀ a, (f a).Writes K) : (p >>= f).Writes K := by
  change (p.bind f).Writes K
  induction p with
  | done a => exact rest a
  | fail e => trivial
  | select name next ih | lock name k next ih => exact fun r => ih r (first r)
  | update name find change next ih => exact ⟨first.1, fun r => ih r (first.2 r)⟩

theorem Txn.writes_forM {γ : Type} {f : γ → Txn ν σ ε PUnit} (each : ∀ c, (f c).Writes K)
    (l : List γ) : (forM l f).Writes K := by
  induction l with
  | nil => trivial
  | cons c rest ih =>
    rw [List.forM_cons]
    exact writes_bind (each c) fun _ => ih

variable [DecidableEq κ] [DecidableEq δ] {ix : UniqueIndex ν δ ε}
  (refl : ∀ k v, K k v v) (trans : ∀ k u v w, K k u v → K k v w → K k u w)

include refl trans

theorem amend_writes {change : (k : κ) → ν k → Verdict ε (ν k)}
    (writes : ∀ k old v, change k old = .write v → K k old v) {found : List κ}
    {touched : List ((k : κ) × ν k)} {rows : (k : κ) → ν k}
    {r : List ((k : κ) × ν k) × ((k : κ) → ν k)}
    (h : amend ix change found touched rows = .ok r) (k : κ) : K k (rows k) (r.2 k) := by
  induction found generalizing touched rows with
  | nil =>
    cases h
    exact refl k _
  | cons l rest ih =>
    rw [amend] at h
    split at h
    · exact ih h
    · cases h
    · next v verdict =>
        split at h
        · cases h
        · refine trans k _ _ _ ?_ (ih h)
          by_cases same : k = l
          · subst same
            rw [Function.update_self]
            exact writes k _ v verdict
          · rw [Function.update_of_ne same]
            exact refl k _

/-- A transaction that runs alone changes rows only in the way that its statements do. -/
theorem Txn.serial_writes {p : Txn ν σ ε α} (writes : p.Writes K) {rows rows' : (k : κ) → ν k}
    {a : α} (h : p.serial ix rows = .ok (a, rows')) (k : κ) : K k (rows k) (rows' k) := by
  induction p generalizing rows with
  | done b =>
    cases h
    exact refl k _
  | fail e => cases h
  | select name next ih => exact ih rows (writes rows) h
  | lock name l next ih => exact ih (rows l) (writes (rows l)) h
  | update name find change next ih =>
    simp only [Txn.serial] at h
    cases found : amend ix (change rows) (find rows) [] rows with
    | error e => rw [found] at h; cases h
    | ok r =>
      rw [found] at h
      exact trans k _ _ _ (amend_writes refl trans (writes.1 rows) found k)
        (ih r.1 (writes.2 r.1) h)

end Writes

/-- The transaction is in its critical section. One that is about to fail is not: it has
nothing left to do. -/
def Activity.critical (outside : σ → Bool) : Activity ν σ ε α → Bool
  | .ended _ | .ready (.fail _) => false
  | .ready rest => !rest.name?.any outside
  | .writing .. => true

/-- The transaction is about to enter its critical section. -/
def Activity.enters (entry : σ → Bool) : Activity ν σ ε α → Bool
  | .ready rest => rest.name?.any entry
  | _ => false

/-- A transaction enters its critical section only while no other one is in its own. -/
def System.OneAtATime (outside entry : σ → Bool) (s : System ι ν σ ε α) (t : ι) : Prop :=
  (s.activity t).enters entry → ∀ u, u ≠ t → (s.activity u).critical outside = false

instance [DecidableEq ι] [Fintype ι] (outside entry : σ → Bool) (s : System ι ν σ ε α) (t : ι) :
    Decidable (s.OneAtATime outside entry t) :=
  inferInstanceAs (Decidable (_ → _))

section Critical

variable [DecidableEq κ] [DecidableEq δ] (ix : UniqueIndex ν δ ε) (outside entry : σ → Bool)
  (P : ((k : κ) → ν k) → Prop)

/-- The transaction reads and locks, outside its critical section, until it enters it. From
there on it preserves the property when it is alone. -/
def Txn.Prepares : Txn ν σ ε α → Prop
  | .done _ | .update .. => False
  | .fail _ => True
  | .select name next => outside name ∧ if entry name then
        ∀ rows, (next rows).Uses (outside · = false) ∧
          (P rows → ∀ a rows', (next rows).serial ix rows = .ok (a, rows') → P rows')
      else ∀ rows, (next rows).Prepares
  | .lock name _ next => outside name ∧ entry name = false ∧ ∀ row, (next row).Prepares

variable {ix outside entry P}

theorem Txn.prepares_select {name : σ} {next : ((k : κ) → ν k) → Txn ν σ ε α}
    (out : outside name) (waits : entry name = false)
    (rest : ∀ rows, (next rows).Prepares ix outside entry P) :
    (select name next).Prepares ix outside entry P :=
  ⟨out, by rwa [if_neg (by simp [waits])]⟩

theorem Txn.prepares_entry {name : σ} {next : ((k : κ) → ν k) → Txn ν σ ε α}
    (out : outside name) (enters : entry name)
    (uses : ∀ rows, (next rows).Uses (outside · = false))
    (preserves : ∀ rows a rows', P rows → (next rows).serial ix rows = .ok (a, rows') → P rows') :
    (select name next).Prepares ix outside entry P :=
  ⟨out, by
    rw [if_pos enters]
    exact fun rows => ⟨uses rows, fun holds a rows' => preserves rows a rows' holds⟩⟩

theorem Txn.prepares_bind {p : Txn ν σ ε α} {f : α → Txn ν σ ε β}
    (first : p.Prepares ix outside entry P) (pure_ : ∀ a, ∃ b, f a = .done b) :
    (p >>= f).Prepares ix outside entry P := by
  change (p.bind f).Prepares ix outside entry P
  induction p with
  | done a | update => cases first
  | fail e => trivial
  | lock name k next ih => exact ⟨first.1, first.2.1, fun r => ih r (first.2.2 r)⟩
  | select name next ih =>
    refine ⟨first.1, ?_⟩
    have rest := first.2
    split at rest
    · next enters =>
        rw [if_pos enters]
        refine fun rows => ⟨uses_bind (rest rows).1 fun a => ?_, fun holds b rows' h => ?_⟩
        · obtain ⟨b, done⟩ := pure_ a
          rw [done]
          trivial
        · change ((next rows) >>= f).serial ix rows = .ok (b, rows') at h
          rw [serial_bind] at h
          cases alone : (next rows).serial ix rows with
          | error e => rw [alone] at h; cases h
          | ok r =>
            obtain ⟨c, done⟩ := pure_ r.1
            rw [alone] at h
            change (f r.1).serial ix r.2 = .ok (b, rows') at h
            rw [done] at h
            cases h
            exact (rest rows).2 holds r.1 r.2 alone
    · next waits =>
        rw [if_neg waits]
        exact fun rows => ih rows (rest rows)

omit [DecidableEq κ] in
/-- Whoever has entered its critical section and is not in it has nothing left to do. -/
theorem Activity.idle_of_uses {act : Activity ν σ ε α} (uses : act.Uses (outside · = false))
    (free : act.critical outside = false) :
    (∃ r, act = .ended r) ∨ ∃ e, act = .ready (.fail e) := by
  cases act with
  | ended r => exact Or.inl ⟨r, rfl⟩
  | writing => cases free
  | ready rest =>
    cases rest with
    | fail e => exact Or.inr ⟨e, rfl⟩
    | done => cases free
    | select name | lock name | update name =>
      have inside : outside name = false := uses.1
      simp [critical, Txn.name?, inside] at free

/-- A transaction enters its critical section only once. -/
theorem Turn.was_critical [DecidableEq ι] [Fintype ι] {s s' : ReadCommitted ι ν} {t : ι}
    {act act' : Activity ν σ ε α} (turn : Turn ix s t act s' act')
    (uses : act.Uses (outside · = false)) (inside : act'.critical outside) :
    act.critical outside := by
  by_contra free
  obtain ⟨r, rfl⟩ | ⟨e, rfl⟩ := Activity.idle_of_uses uses (by simpa using free)
  · cases turn
  · cases turn
    cases inside

theorem Txn.Prepares.not_critical {p : Txn ν σ ε α} (prepares : p.Prepares ix outside entry P) :
    (Activity.ready p).critical outside = false := by
  cases p with
  | fail => rfl
  | done | update => cases prepares
  | select name | lock name => simp [Activity.critical, Txn.name?, prepares.1]

variable (ix outside entry P) in
/-- At most one transaction is in its critical section; the others have written nothing. -/
structure System.Excluded (s : System ι ν σ ε α) : Prop where
  committed : P s.store.committed
  each : ∀ t, ((∀ k, s.store.own t k = none) ∧
      ∃ p, s.activity t = .ready p ∧ p.Prepares ix outside entry P) ∨
    (∃ r, s.activity t = .ended r) ∨ (s.activity t).Uses (outside · = false) ∧
      ∀ a rows, (s.activity t).outcome ix (s.store.read t) = .ok (a, rows) → P rows
  alone : ∀ t u, u ≠ t → (s.activity t).critical outside → (s.activity u).critical outside = false

namespace System.Excluded

theorem start {programs : ι → Txn ν σ ε α}
    (prepares : ∀ t, (programs t).Prepares ix outside entry P) {rows : (k : κ) → ν k}
    (holds : P rows) : (start programs rows).Excluded ix outside entry P where
  committed := holds
  each t := Or.inl ⟨fun _ => rfl, programs t, rfl, prepares t⟩
  alone t u _ inside := by
    rw [System.start, (prepares t).not_critical] at inside
    cases inside

variable [DecidableEq ι] [Fintype ι] {s : System ι ν σ ε α} {t : ι}
  {store : ReadCommitted ι ν} {act : Activity ν σ ε α}
  (excluded : s.Excluded ix outside entry P)

include excluded

/-- A turn in which nothing is committed concerns the one transaction only. -/
theorem keep (turn : Turn ix s.store t (s.activity t) store act)
    (committed : store.committed = s.store.committed)
    (next : ((∀ k, store.own t k = none) ∧ ∃ p, act = .ready p ∧ p.Prepares ix outside entry P) ∨
      (∃ r, act = .ended r) ∨ act.Uses (outside · = false) ∧
        ∀ a rows, act.outcome ix (store.read t) = .ok (a, rows) → P rows)
    (free : act.critical outside → ∀ u, u ≠ t → (s.activity u).critical outside = false) :
    (System.mk store (Function.update s.activity t act)).Excluded ix outside entry P where
  committed := committed ▸ excluded.committed
  each u := by
    by_cases mine : u = t
    · subst mine
      simpa only [Function.update_self] using next
    · have read : store.read u = s.store.read u := by
        funext k
        rw [ReadCommitted.read, (turn.others mine).1, committed]
        rfl
      simpa only [Function.update_of_ne mine, (turn.others mine).1, read] using excluded.each u
  alone u v other inside := by
    by_cases mine : u = t
    · subst mine
      simp only [Function.update_self] at inside
      simpa only [Function.update_of_ne other] using free inside v other
    · simp only [Function.update_of_ne mine] at inside
      by_cases mine' : v = t
      · subst mine'
        simp only [Function.update_self]
        by_contra busy
        rw [free (by simpa using busy) u mine] at inside
        cases inside
      · simpa only [Function.update_of_ne mine'] using excluded.alone u v other inside

omit [Fintype ι] in
/-- A transaction that commits leaves what it would have left alone. -/
theorem commit {a : α} (done : s.activity t = .ready (.done a)) :
    (System.mk (s.store.commit t) (Function.update s.activity t (.ended (.ok a)))).Excluded
      ix outside entry P where
  committed := by
    obtain ⟨-, p, ready, prepares⟩ | ⟨r, ended⟩ | ⟨-, outcome⟩ := excluded.each t
    · cases done.symm.trans ready
      cases prepares
    · cases done.symm.trans ended
    · refine outcome a _ ?_
      rw [done]
      rfl
  each u := by
    by_cases mine : u = t
    · subst mine
      exact Or.inr (Or.inl ⟨_, Function.update_self ..⟩)
    · have free : (s.activity u).critical outside = false := by
        refine excluded.alone t u mine ?_
        rw [done]
        rfl
      simp only [Function.update_of_ne mine, ReadCommitted.own_commit_of_ne mine]
      obtain prepares | ended | ⟨uses, -⟩ := excluded.each u
      · exact Or.inl prepares
      · exact Or.inr (Or.inl ended)
      · obtain ended | ⟨e, fails⟩ := Activity.idle_of_uses uses free
        · exact Or.inr (Or.inl ended)
        · refine Or.inr (Or.inr ?_)
          rw [fails]
          exact ⟨trivial, fun _ _ h => by cases h⟩
  alone u v other inside := by
    by_cases mine : u = t
    · subst mine
      simp [Activity.critical] at inside
    · simp only [Function.update_of_ne mine] at inside
      by_cases mine' : v = t
      · subst mine'
        simp [Activity.critical]
      · simpa only [Function.update_of_ne mine'] using excluded.alone u v other inside

/-- The turn of a transaction that prepares. -/
theorem prepare {p : Txn ν σ ε α} (turn : Turn ix s.store t (s.activity t) store act)
    (ready : s.activity t = .ready p) (unwritten : ∀ k, s.store.own t k = none)
    (prepares : p.Prepares ix outside entry P) (allowed : s.OneAtATime outside entry t) :
    (System.mk store (Function.update s.activity t act)).Excluded ix outside entry P := by
  have seen : s.store.read t = s.store.committed :=
    funext fun k => ReadCommitted.read_of_own_none (unwritten k)
  cases p with
  | done | update => cases prepares
  | fail e =>
    rw [ready] at turn
    cases turn
    refine excluded.keep (ready ▸ .fail) rfl (Or.inr (Or.inl ⟨_, rfl⟩)) fun inside => ?_
    cases inside
  | lock name k next =>
    rw [ready] at turn
    cases turn with
    | lock free =>
      have later := prepares.2.2 (s.store.read t k)
      refine excluded.keep (ready ▸ .lock free) rfl
        (Or.inl ⟨unwritten, _, rfl, later⟩) fun inside => ?_
      rw [later.not_critical] at inside
      cases inside
  | select name next =>
    rw [ready] at turn
    cases turn
    have rest := prepares.2
    split at rest
    · next enters =>
        refine excluded.keep (ready ▸ .select) rfl (Or.inr (Or.inr ⟨(rest _).1, ?_⟩)) fun _ => ?_
        · exact fun a rows outcome => (rest _).2 (seen ▸ excluded.committed) a rows outcome
        · refine allowed ?_
          rw [ready]
          simpa [Activity.enters, Txn.name?] using enters
    · have later := rest (s.store.read t)
      refine excluded.keep (ready ▸ .select) rfl (Or.inl ⟨unwritten, _, rfl, later⟩)
        fun inside => ?_
      rw [later.not_critical] at inside
      cases inside

theorem step (allowed : s.OneAtATime outside entry t) :
    (s.step ix t).Excluded ix outside entry P := by
  refine step_cases excluded fun store act turn => ?_
  obtain ⟨unwritten, p, ready, prepares⟩ | ⟨r, ended⟩ | ⟨uses, outcome⟩ := excluded.each t
  · exact excluded.prepare turn ready unwritten prepares allowed
  · rw [ended] at turn
    cases turn
  · obtain ⟨committed, -⟩ | ⟨a, done, rfl, rfl⟩ := turn.committed
    · refine excluded.keep turn committed (Or.inr (Or.inr ⟨turn.uses uses, ?_⟩))
        fun inside u other => excluded.alone t u other (turn.was_critical uses inside)
      rw [turn.outcome]
      exact outcome
    · exact excluded.commit done

end System.Excluded

/-- If transactions are in their critical sections one at a time, what each of them preserves
alone holds of the committed rows at any time. -/
theorem System.always_committed [DecidableEq ι] [Fintype ι] {programs : ι → Txn ν σ ε α}
    (prepares : ∀ t, (programs t).Prepares ix outside entry P) {rows : (k : κ) → ν k}
    (holds : P rows) {schedule : List ι}
    (allowed : Guarded (step ix) (OneAtATime outside entry) (start programs rows) schedule) :
    Always (step ix) (fun s => P s.store.committed) (start programs rows) schedule :=
  (always_of_preserved (P := Excluded ix outside entry P)
    (fun _ _ excluded allowed => excluded.step allowed) (.start prepares holds) allowed).mono
      fun _ excluded => excluded.committed

end Critical

end Relational
