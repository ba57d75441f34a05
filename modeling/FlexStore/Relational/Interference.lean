import FlexStore.Relational.Critical

/-!
# Transactions under interference

`Ensures` says what a transaction comes to when others commit between any two of its steps.
It is a rely-guarantee condition. The transaction relies on the others to change a row only
in a certain way, and not at all while it holds the lock of the row; in return it guarantees
something about each version that it writes. Both are relations between the old and the new
version of one row.

If what each transaction guarantees is what the others rely on, the conditions hold together
along every run (`Sound`): the turns of a transaction keep its own condition, and a commit
keeps the conditions of the others. A transaction that commits then has its postcondition.
-/

namespace Relational

open Transition

variable {ι κ : Type} {ν : κ → Type} {σ ε α β δ : Type}

/-- What the others may have done in between. -/
def Rely (E : (k : κ) → ν k → ν k → Prop) (locks : κ → Bool) (rows rows' : (k : κ) → ν k) : Prop :=
  ∀ k, E k (rows k) (rows' k) ∧ (locks k → rows' k = rows k)

section Ensures

variable [DecidableEq κ] [DecidableEq δ] (ix : UniqueIndex ν δ ε)
  (E G : (k : κ) → ν k → ν k → Prop)

/-- However the others interfere, going through the rows that a statement has found ends as
stated. -/
def AmendEnsures (change : (k : κ) → ν k → Verdict ε (ν k))
    (Q : List ((k : κ) × ν k) → (κ → Bool) → ((k : κ) → ν k) → Prop) :
    List κ → List ((k : κ) × ν k) → (κ → Bool) → ((k : κ) → ν k) → Prop
  | [], touched, locks, rows => Q touched locks rows
  | k :: found, touched, locks, rows => ∀ rows', Rely E locks rows rows' →
      match change k (rows' k) with
      | .leave => AmendEnsures change Q found touched (Function.update locks k true) rows'
      | .refuse _ => True
      | .write v => ix.violation rows' k v = none → G k (rows' k) v ∧
          AmendEnsures change Q found (touched ++ [⟨k, v⟩]) (Function.update locks k true)
            (Function.update rows' k v)

/-- However the others interfere, the transaction keeps its guarantee and ends as stated,
unless it fails. -/
def Txn.Ensures (Q : α → (κ → Bool) → ((k : κ) → ν k) → Prop) :
    Txn ν σ ε α → (κ → Bool) → ((k : κ) → ν k) → Prop
  | .done a, locks, rows => ∀ rows', Rely E locks rows rows' → Q a locks rows'
  | .fail _, _, _ => True
  | .select _ next, locks, rows => ∀ rows', Rely E locks rows rows' →
      (next rows').Ensures Q locks rows'
  | .lock _ k next, locks, rows => ∀ rows', Rely E locks rows rows' →
      (next (rows' k)).Ensures Q (Function.update locks k true) rows'
  | .update _ find change next, locks, rows => ∀ rows', Rely E locks rows rows' →
      AmendEnsures ix E G (change rows') (fun touched => (next touched).Ensures Q) (find rows') []
        locks rows'

/-- The same for a transaction that has started. -/
def Activity.Ensures (Q : α → (κ → Bool) → ((k : κ) → ν k) → Prop) :
    Activity ν σ ε α → (κ → Bool) → ((k : κ) → ν k) → Prop
  | .ready rest, locks, rows => rest.Ensures ix E G Q locks rows
  | .writing change found touched next, locks, rows =>
    AmendEnsures ix E G change (fun touched => (next touched).Ensures ix E G Q) found touched
      locks rows
  | .ended _, _, _ => True

variable {ix E G} {Q : α → (κ → Bool) → ((k : κ) → ν k) → Prop}
  {locks : κ → Bool} {rows rows' : (k : κ) → ν k}

omit [DecidableEq κ] in
theorem Rely.refl (refl : ∀ k v, E k v v) : Rely E locks rows rows :=
  fun k => ⟨refl k _, fun _ => rfl⟩

omit [DecidableEq κ] in
theorem Rely.trans (trans : ∀ k u v w, E k u v → E k v w → E k u w)
    {rows'' : (k : κ) → ν k} (first : Rely E locks rows rows')
    (second : Rely E locks rows' rows'') : Rely E locks rows rows'' :=
  fun k => ⟨trans k _ _ _ (first k).1 (second k).1,
    fun held => ((second k).2 held).trans ((first k).2 held)⟩

section Stable

variable (trans : ∀ k u v w, E k u v → E k v w → E k u w)

include trans

theorem AmendEnsures.rely {change : (k : κ) → ν k → Verdict ε (ν k)}
    {Q : List ((k : κ) × ν k) → (κ → Bool) → ((k : κ) → ν k) → Prop}
    (stable : ∀ touched rows rows', Q touched locks rows → Rely E locks rows rows' →
      Q touched locks rows') {found : List κ} {touched : List ((k : κ) × ν k)}
    (h : AmendEnsures ix E G change Q found touched locks rows)
    (between : Rely E locks rows rows') :
    AmendEnsures ix E G change Q found touched locks rows' := by
  cases found with
  | nil => exact stable touched rows rows' h between
  | cons k rest => exact fun rows'' later => h rows'' (between.trans trans later)

/-- Interference that has happened is no longer to come. -/
theorem Txn.Ensures.rely {p : Txn ν σ ε α} (h : p.Ensures ix E G Q locks rows)
    (between : Rely E locks rows rows') : p.Ensures ix E G Q locks rows' := by
  cases p with
  | fail => trivial
  | done | select | lock | update => exact fun rows'' later => h rows'' (between.trans trans later)

theorem Activity.Ensures.rely {act : Activity ν σ ε α} (h : act.Ensures ix E G Q locks rows)
    (between : Rely E locks rows rows') : act.Ensures ix E G Q locks rows' := by
  cases act with
  | ready rest => exact Txn.Ensures.rely trans h between
  | ended => trivial
  | writing change found touched next =>
    exact AmendEnsures.rely trans (fun _ _ _ => Txn.Ensures.rely trans) h between

end Stable

section Rules

variable {change : (k : κ) → ν k → Verdict ε (ν k)} {found : List κ}
  {touched : List ((k : κ) × ν k)}

theorem AmendEnsures.mono {Q Q' : List ((k : κ) × ν k) → (κ → Bool) → ((k : κ) → ν k) → Prop}
    (weaken : ∀ touched locks rows, Q touched locks rows → Q' touched locks rows)
    (h : AmendEnsures ix E G change Q found touched locks rows) :
    AmendEnsures ix E G change Q' found touched locks rows := by
  induction found generalizing touched locks rows with
  | nil => exact weaken touched locks rows h
  | cons k rest ih =>
    intro rows' between
    have step := h rows' between
    split
    · next verdict =>
        rw [verdict] at step
        exact ih step
    · trivial
    · next verdict =>
        rw [verdict] at step
        exact fun valid => (step valid).imp_right ih

theorem Txn.Ensures.mono {Q Q' : α → (κ → Bool) → ((k : κ) → ν k) → Prop}
    {p : Txn ν σ ε α} (h : p.Ensures ix E G Q locks rows)
    (weaken : ∀ a locks rows, Q a locks rows → Q' a locks rows) :
    p.Ensures ix E G Q' locks rows := by
  induction p generalizing locks rows with
  | done a => exact fun rows' between => weaken a locks rows' (h rows' between)
  | fail e => trivial
  | select name next ih | lock name k next ih => exact fun rows' between => ih _ (h rows' between)
  | update name find change next ih =>
    exact fun rows' between => (h rows' between).mono fun touched _ _ => ih touched

/-- The rule for a statement: an invariant of what is left to do. -/
theorem AmendEnsures.of_invariant {Q : List ((k : κ) × ν k) → (κ → Bool) → ((k : κ) → ν k) → Prop}
    {I : List κ → List ((k : κ) × ν k) → ((k : κ) → ν k) → Prop}
    (stable : ∀ found touched locks rows rows', I found touched rows → Rely E locks rows rows' →
      I found touched rows')
    (leaves : ∀ k found touched rows, I (k :: found) touched rows → change k (rows k) = .leave →
      I found touched rows) (writes : ∀ k found touched rows v, I (k :: found) touched rows →
      change k (rows k) = .write v →
      G k (rows k) v ∧ I found (touched ++ [⟨k, v⟩]) (Function.update rows k v))
    (ends : ∀ touched locks rows, I [] touched rows → Q touched locks rows)
    (start : I found touched rows) : AmendEnsures ix E G change Q found touched locks rows := by
  induction found generalizing touched locks rows with
  | nil => exact ends touched locks rows start
  | cons k rest ih =>
    intro rows' between
    have now := stable _ _ _ _ _ start between
    split
    · next verdict => exact ih (leaves k rest touched rows' now verdict)
    · trivial
    · next v verdict =>
        exact fun _ => (writes k rest touched rows' v now verdict).imp_right fun later => ih later

/-- The rule for a whole transaction whose statements only make changes of a certain kind: what
such changes and those of the others preserve. -/
theorem Txn.Writes.ensures {K : (k : κ) → ν k → ν k → Prop} {I : ((k : κ) → ν k) → Prop}
    (stable : ∀ locks rows rows', I rows → Rely E locks rows rows' → I rows')
    (kept : ∀ rows k v, I rows → K k (rows k) v → I (Function.update rows k v))
    (guarantees : ∀ k old v, K k old v → G k old v) {p : Txn ν σ ε α} (writes : p.Writes K)
    (start : I rows) : p.Ensures ix E G (fun _ _ rows => I rows) locks rows := by
  induction p generalizing locks rows with
  | done a => exact fun rows' between => stable locks rows rows' start between
  | fail e => trivial
  | select name next ih =>
    exact fun rows' between => ih rows' (writes rows') (stable locks rows rows' start between)
  | lock name k next ih =>
    exact fun rows' between =>
      ih (rows' k) (writes (rows' k)) (stable locks rows rows' start between)
  | update name find change next ih =>
    intro rows' between
    refine AmendEnsures.of_invariant (I := fun _ _ rows => I rows)
      (fun _ _ locks rows rows' => stable locks rows rows') (fun _ _ _ _ now _ => now)
      (fun k _ _ rows v now verdict => ?_)
      (fun touched _ _ now => ih touched (writes.2 touched) now)
      (stable locks rows rows' start between)
    have related := writes.1 rows' k (rows k) v verdict
    exact ⟨guarantees k _ v related, kept rows k v now related⟩

/-- One transaction's statements after the other's. -/
theorem Txn.Ensures.bind (refl : ∀ k v, E k v v) {p : Txn ν σ ε α} {f : α → Txn ν σ ε β}
    {Q : β → (κ → Bool) → ((k : κ) → ν k) → Prop}
    (h : p.Ensures ix E G (fun a => (f a).Ensures ix E G Q) locks rows) :
    (p >>= f).Ensures ix E G Q locks rows := by
  change (p.bind f).Ensures ix E G Q locks rows
  induction p generalizing locks rows with
  | done a => exact h rows (.refl refl)
  | fail e => trivial
  | select name next ih | lock name k next ih => exact fun rows' between => ih _ (h rows' between)
  | update name find change next ih =>
    exact fun rows' between => (h rows' between).mono fun touched _ _ => ih touched

end Rules

end Ensures

section Turns

variable [DecidableEq ι] [Fintype ι] [DecidableEq κ] [DecidableEq δ] {ix : UniqueIndex ν δ ε}
  {E G : (k : κ) → ν k → ν k → Prop} {Q : α → (κ → Bool) → ((k : κ) → ν k) → Prop}
  {s s' : ReadCommitted ι ν} {t : ι} {act act' : Activity ν σ ε α}
  (refl : ∀ k v, E k v v) (turn : Turn ix s t act s' act')
  (holds : act.Ensures ix E G Q (s.locks t) (s.read t))

include refl turn holds

/-- The turns of a transaction keep its condition. -/
theorem Turn.ensures : act'.Ensures ix E G Q (s'.locks t) (s'.read t) := by
  have now : Rely E (s.locks t) (s.read t) (s.read t) := .refl refl
  have locks {k : κ} : (s.lock t k).locks t = Function.update (s.locks t) k true :=
    Function.update_self ..
  cases turn with
  | done | fail | refuse | violate => trivial
  | select | start => exact holds _ now
  | finish => exact holds
  | lock free =>
    rw [locks]
    exact holds _ now
  | leave free verdict =>
    have step := holds _ now
    rw [verdict] at step
    rw [locks]
    exact step
  | write free verdict uncontested valid =>
    have step := holds _ now
    rw [verdict] at step
    rw [ReadCommitted.read_write_self, ReadCommitted.write, locks]
    exact (step valid).2

/-- They keep its guarantee too. -/
theorem Turn.guarantee (trans : ∀ k u v w, G k u v → G k v w → G k u w)
    (before : ∀ k v, s.own t k = some v → G k (s.committed k) v) {k : κ} {v : ν k}
    (version : s'.own t k = some v) : G k (s'.committed k) v := by
  cases turn with
  | done | fail | refuse | violate =>
    simp [ReadCommitted.commit, ReadCommitted.rollback] at version
  | select | start | finish | lock | leave => exact before k v version
  | @write _ l _ _ _ w free verdict uncontested valid =>
    by_cases same : k = l
    · subst same
      rw [ReadCommitted.own_write_self] at version
      obtain rfl := Option.some.inj version
      have step := holds _ (Rely.refl refl)
      rw [verdict] at step
      have related := (step valid).1
      change G k (s.committed k) w
      cases own : s.own t k with
      | none => rwa [ReadCommitted.read_of_own_none own] at related
      | some u =>
        have seen : s.read t k = u := by rw [ReadCommitted.read, own]; rfl
        rw [seen] at related
        exact trans k _ u w (before k u own) related
    · rw [ReadCommitted.own_write_of_ne (Or.inr same)] at version
      exact before k v version

end Turns

section Sound

variable [DecidableEq κ] [DecidableEq δ] (ix : UniqueIndex ν δ ε)
  (E G : ι → (k : κ) → ν k → ν k → Prop)
  (Q : ι → α → (κ → Bool) → ((k : κ) → ν k) → Prop)

/-- Every transaction meets its condition and has kept its guarantee. -/
structure System.Sound (s : System ι ν σ ε α) : Prop where
  locked : s.store.Locked
  ensures : ∀ t, (s.activity t).Ensures ix (E t) (G t) (Q t) (s.store.locks t) (s.store.read t)
  guarantee : ∀ t k v, s.store.own t k = some v → G t k (s.store.committed k) v

variable {ix E G Q}

namespace System.Sound

theorem start {programs : ι → Txn ν σ ε α} {rows : (k : κ) → ν k}
    (ensures : ∀ t, (programs t).Ensures ix (E t) (G t) (Q t) (fun _ => false) rows) :
    (start programs rows).Sound ix E G Q where
  locked := ReadCommitted.locked_idle rows
  ensures := ensures
  guarantee _ _ _ version := by cases version

variable [DecidableEq ι] [Fintype ι] {s : System ι ν σ ε α} {t : ι} (sound : s.Sound ix E G Q)

include sound

omit [DecidableEq ι] [Fintype ι] in
/-- The postcondition of a transaction that is about to commit. -/
theorem post (refl : ∀ k v, E t k v v) {a : α} (done : s.activity t = .ready (.done a)) :
    Q t a (s.store.locks t) (s.store.read t) := by
  have ensures := sound.ensures t
  rw [done] at ensures
  exact ensures _ (.refl refl)

/-- A turn in which nothing is committed. -/
theorem turn (refl : ∀ k v, E t k v v) (trans : ∀ k u v w, G t k u v → G t k v w → G t k u w)
    {store : ReadCommitted ι ν} {act : Activity ν σ ε α}
    (turn : Turn ix s.store t (s.activity t) store act)
    (committed : store.committed = s.store.committed) :
    (System.mk store (Function.update s.activity t act)).Sound ix E G Q where
  locked := turn.locked sound.locked
  ensures u := by
    by_cases mine : u = t
    · subst mine
      simpa only [Function.update_self] using turn.ensures refl (sound.ensures u)
    · obtain ⟨own, locks⟩ := turn.others mine
      have read : store.read u = s.store.read u := by
        funext k
        rw [ReadCommitted.read, own, committed]
        rfl
      simpa only [Function.update_of_ne mine, locks, read] using sound.ensures u
  guarantee u k v version := by
    by_cases mine : u = t
    · subst mine
      exact turn.guarantee refl (sound.ensures u) trans (sound.guarantee u) version
    · rw [(turn.others mine).1] at version
      simpa only [committed] using sound.guarantee u k v version

omit [Fintype ι] in
/-- A commit in which the others can rely on what has been guaranteed. -/
theorem commit (reflexive : ∀ u k v, E u k v v)
    (transitive : ∀ u k x y z, E u k x y → E u k y z → E u k x z)
    (compatible : ∀ u, u ≠ t → ∀ k old new, G t k old new → E u k old new) {a : α}
    (done : s.activity t = .ready (.done a)) :
    (System.mk (s.store.commit t) (Function.update s.activity t (.ended (.ok a)))).Sound ix E G
      Q := by
  -- Whoever else has locked a row sees what it saw before.
  have unwritten {u : ι} {k : κ} (other : u ≠ t) (held : s.store.locks u k) :
      s.store.own t k = none := by
    by_contra version
    exact other (sound.locked.exclusive held (sound.locked.covered version))
  have between {u : ι} (other : u ≠ t) :
      Rely (E u) (s.store.locks u) (s.store.read u) ((s.store.commit t).read u) := by
    intro k
    cases version : s.store.own t k with
    | none =>
      rw [ReadCommitted.read_commit_of_ne other version]
      exact ⟨reflexive u k _, fun _ => rfl⟩
    | some v =>
      have free : s.store.own u k = none := by
        by_contra mine
        rw [unwritten other (sound.locked.covered mine)] at version
        cases version
      have after : (s.store.commit t).read u k = v := by
        rw [ReadCommitted.read, ReadCommitted.own_commit_of_ne other, free]
        change s.store.read t k = v
        rw [ReadCommitted.read, version]
        rfl
      rw [after, ReadCommitted.read_of_own_none free]
      refine ⟨compatible u other k _ v (sound.guarantee t k v version), fun held => ?_⟩
      rw [unwritten other held] at version
      cases version
  refine ⟨sound.locked.commit t, fun u => ?_, fun u k v version => ?_⟩
  · by_cases mine : u = t
    · subst mine
      simp only [Function.update_self]
      trivial
    · have locks : (s.store.commit t).locks u = s.store.locks u := Function.update_of_ne mine _ _
      simp only [Function.update_of_ne mine, locks]
      exact (sound.ensures u).rely (transitive u) (between mine)
  · by_cases mine : u = t
    · subst mine
      simp at version
    · rw [ReadCommitted.own_commit_of_ne mine] at version
      have held : s.store.locks u k := sound.locked.covered (by simp [version])
      have same : (s.store.commit t).committed k = s.store.committed k :=
        ReadCommitted.read_of_own_none (unwritten mine held)
      rw [same]
      exact sound.guarantee u k v version

/-- Every turn keeps the conditions if every guarantee is what the others rely on. -/
theorem step (reflexive : ∀ u k v, E u k v v)
    (transitive : ∀ u k x y z, E u k x y → E u k y z → E u k x z)
    (trans : ∀ k u v w, G t k u v → G t k v w → G t k u w)
    (compatible : ∀ u, u ≠ t → ∀ k old new, G t k old new → E u k old new) :
    (s.step ix t).Sound ix E G Q := by
  refine step_cases sound fun store act turn => ?_
  obtain ⟨committed, -⟩ | ⟨a, done, rfl, rfl⟩ := turn.committed
  · exact sound.turn (reflexive t) trans turn committed
  · exact sound.commit reflexive transitive compatible done

end System.Sound

end Sound

end Relational
