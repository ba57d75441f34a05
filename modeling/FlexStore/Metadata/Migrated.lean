import FlexStore.Metadata.Migrate

/-!
# What a history of migrations leaves behind

The advisory lock lets one run at a time pass its first statements. That run alone writes, so
the table it has read stays true up to its own commits, and it takes its list in ascending
order. Hence a migration that the loop has passed is recorded with the checksum it has on the
list, and a run that has committed a version has found everything below it in order.
-/

namespace FlexStore.Metadata.Migrations

open Go Relational Transition

section Commit

variable {schema : Schema} {i j : Nat} {m m' : Migration} {v : Int}

/-- The table has the version of the migration with the checksum of the migration. -/
def Recorded (schema : Schema) (m : Migration) : Prop :=
  ∃ row, schema.rows.find? m.version = some row ∧ row.checksum = m.checksum

theorem find?_commit : (schema.commit i m).rows.find? v =
    (schema.rows.find? v).or
      (if m.version = v then some ⟨m.version, m.name, m.checksum⟩ else none) :=
  Table.find?_insertIgnore schema.rows _ v

theorem find?_commit_other (other : v ≠ m.version) :
    (schema.commit i m).rows.find? v = schema.rows.find? v := by
  rw [find?_commit, if_neg other.symm, Option.or_none]

/-- Nothing that is recorded is lost. -/
theorem Recorded.commit (recorded : Recorded schema m') : Recorded (schema.commit i m) m' := by
  obtain ⟨row, found, same⟩ := recorded
  refine ⟨row, ?_, same⟩
  rw [find?_commit, found, Option.some_or]

theorem recorded_commit_self (fresh : schema.rows.find? m.version = none) :
    Recorded (schema.commit i m) m := by
  refine ⟨⟨m.version, m.name, m.checksum⟩, ?_, rfl⟩
  rw [find?_commit, fresh, if_pos rfl, Option.none_or]

theorem commits_commit_self :
    (schema.commit i m).commits i = schema.commits i ++ [m.version] := by
  simp [Schema.commits, Schema.commit]

theorem commits_commit_other (other : j ≠ i) :
    (schema.commit i m).commits j = schema.commits j := by
  simp [Schema.commits, Schema.commit, other.symm]

/-- The table and the committed bodies say the same. -/
def Schema.Agrees (schema : Schema) : Prop :=
  schema.rows.rows.map (fun row => (row.version, row.checksum)) =
    schema.executed.map fun e => (e.version, Digest.sha256 e.body)

theorem Schema.Agrees.commit (agrees : schema.Agrees)
    (fresh : schema.rows.find? m.version = none) : (schema.commit i m).Agrees := by
  have rows : (schema.commit i m).rows.rows =
      schema.rows.rows ++ [⟨m.version, m.name, m.checksum⟩] := by
    show (schema.rows.insertIgnore _).rows = _
    rw [Table.insertIgnore, dif_pos fresh]
    rfl
  have executed : (schema.commit i m).executed =
      schema.executed ++ [⟨i, m.version, m.body⟩] := rfl
  rw [Agrees, rows, executed, List.map_append, List.map_append, agrees]
  rfl

theorem Schema.Agrees.versions (agrees : schema.Agrees) :
    schema.rows.rows.map MigrationRow.version = schema.executed.map Execution.version := by
  have first := congrArg (List.map Prod.fst) agrees
  rwa [List.map_map, List.map_map] at first

/-- A version is in the table exactly if its body has been committed. -/
theorem Schema.Agrees.isSome_iff (agrees : schema.Agrees) :
    (schema.rows.find? v).isSome ↔ ∃ e ∈ schema.executed, e.version = v := by
  rw [← List.mem_map, ← agrees.versions, List.mem_map, Option.isSome_iff_exists]
  exact exists_congr fun row => Table.find?_eq_some

theorem Schema.Agrees.nodup (agrees : schema.Agrees) :
    (schema.executed.map Execution.version).Nodup := by
  rw [← agrees.versions]
  exact schema.rows.nodup

/-- The row of a committed body has its checksum. -/
theorem Schema.Agrees.checksum (agrees : schema.Agrees) {e : Execution} {row : MigrationRow}
    (member : e ∈ schema.executed) (found : schema.rows.find? e.version = some row) :
    row.checksum = Digest.sha256 e.body := by
  have paired : (e.version, Digest.sha256 e.body) ∈
      schema.rows.rows.map fun row => (row.version, row.checksum) := by
    rw [agrees]
    exact List.mem_map_of_mem member
  obtain ⟨row', member', same⟩ := List.mem_map.mp paired
  obtain ⟨version, checksum⟩ := Prod.ext_iff.mp same
  have found' : schema.rows.find? e.version = some row' :=
    Table.find?_eq_some.mpr ⟨member', version⟩
  rw [found] at found'
  rw [Option.some.inj found']
  exact checksum

end Commit

section Run

variable {schema : Schema} {i j : Nat} {migs : MigrationList} {m : Migration}
  {applied : Table MigrationRow.version} {passed rest : List Migration} {p q : Pc}

/-- The loop has passed a part of the list. That part is recorded, the run has committed
nothing else, and what it has not committed is as it has read it. -/
structure Position (schema : Schema) (i : Nat) (migs : MigrationList)
    (applied : Table MigrationRow.version) (passed rest : List Migration) : Prop where
  split : migs.migs = passed ++ rest
  recorded : ∀ m ∈ passed, Recorded schema m
  own : ∀ v ∈ schema.commits i, ∃ m ∈ passed, m.version = v
  unchanged : ∀ v, v ∉ schema.commits i → schema.rows.find? v = applied.find? v

theorem Position.passed_lt (here : Position schema i migs applied passed (m :: rest))
    {m' : Migration} (member : m' ∈ passed) : m'.version < m.version := by
  have ascending := migs.ascending
  rw [here.split] at ascending
  exact (List.pairwise_append.mp ascending).2.2 m' member m List.mem_cons_self

theorem Position.lt_rest (here : Position schema i migs applied passed (m :: rest))
    {m' : Migration} (member : m' ∈ rest) : m.version < m'.version := by
  have ascending := migs.ascending
  rw [here.split] at ascending
  exact (List.pairwise_cons.mp (List.pairwise_append.mp ascending).2.1).1 m' member

theorem Position.commits_lt (here : Position schema i migs applied passed (m :: rest))
    {v : Int} (committed : v ∈ schema.commits i) : v < m.version := by
  obtain ⟨m', member, rfl⟩ := here.own v committed
  exact here.passed_lt member

/-- The migration in hand is as the run has read it. -/
theorem Position.find? (here : Position schema i migs applied passed (m :: rest)) :
    schema.rows.find? m.version = applied.find? m.version :=
  here.unchanged m.version fun committed => lt_irrefl _ (here.commits_lt committed)

theorem Position.pass (here : Position schema i migs applied passed (m :: rest))
    (recorded : Recorded schema m) : Position schema i migs applied (passed ++ [m]) rest where
  split := by rw [here.split, List.append_assoc, List.singleton_append]
  recorded m' member := by
    obtain before | last := List.mem_append.mp member
    · exact here.recorded m' before
    · rwa [List.mem_singleton.mp last]
  own v committed := by
    obtain ⟨m', member, same⟩ := here.own v committed
    exact ⟨m', List.mem_append_left _ member, same⟩
  unchanged := here.unchanged

theorem Position.commit (here : Position schema i migs applied passed (m :: rest))
    (fresh : schema.rows.find? m.version = none) :
    Position (schema.commit i m) i migs applied (passed ++ [m]) rest where
  split := by rw [here.split, List.append_assoc, List.singleton_append]
  recorded m' member := by
    obtain before | last := List.mem_append.mp member
    · exact (here.recorded m' before).commit
    · rw [List.mem_singleton.mp last]
      exact recorded_commit_self fresh
  own v committed := by
    rw [commits_commit_self] at committed
    obtain earlier | last := List.mem_append.mp committed
    · obtain ⟨m', member, same⟩ := here.own v earlier
      exact ⟨m', List.mem_append_left _ member, same⟩
    · exact ⟨m, List.mem_append_right _ (List.mem_singleton_self m),
        (List.mem_singleton.mp last).symm⟩
  unchanged v other := by
    rw [commits_commit_self, List.mem_append, not_or, List.mem_singleton] at other
    rw [find?_commit_other other.2]
    exact here.unchanged v other.1

/-- The run is about to apply a migration that the table does not have. -/
def Applying (schema : Schema) (i : Nat) (migs : MigrationList)
    (applied : Table MigrationRow.version) (m : Migration) (rest : List Migration) : Prop :=
  (∃ passed, Position schema i migs applied passed (m :: rest)) ∧
    schema.rows.find? m.version = none

/-- What is true of a run at each of its statements. -/
def Pc.Inv (schema : Schema) (i : Nat) (migs : MigrationList) : Pc → Prop
  | .idle | .acquire | .lock | .create | .read => schema.commits i = []
  | .begin_ applied m rest | .exec applied m rest | .insert applied m rest
  | .commit applied m rest => Applying schema i migs applied m rest
  | .unlock result | .done result => result = .ok () → ∀ m ∈ migs.migs, Recorded schema m
  | .crashed => True

/-- The statements that are taken under the advisory lock. -/
def Pc.Working : Pc → Prop
  | .idle | .acquire | .lock | .done _ | .crashed => False
  | _ => True

theorem Position.advance (here : Position schema i migs applied passed rest) :
    (advance applied rest).Inv schema i migs := by
  induction rest generalizing passed with
  | nil =>
    intro _ m member
    rw [here.split, List.append_nil] at member
    exact here.recorded m member
  | cons m rest ih =>
    rw [Migrations.advance]
    have same := here.find?
    cases found : applied.find? m.version with
    | none => exact ⟨⟨passed, here⟩, same.trans found⟩
    | some row =>
      by_cases modified : row.checksum ≠ m.checksum
      · simp only [if_pos modified]
        intro success
        cases success
      · simp only [if_neg modified]
        exact ih (here.pass ⟨row, same.trans found, not_not.mp modified⟩)

theorem advance_working : (advance applied rest).Working := by
  induction rest with
  | nil => trivial
  | cons m rest ih =>
    rw [advance]
    cases applied.find? m.version with
    | none => trivial
    | some row =>
      by_cases modified : row.checksum ≠ m.checksum
      · simp only [if_pos modified]
        trivial
      · simp only [if_neg modified]
        exact ih

/-- What is true of a run: its commits are in order and from its list, and everything on its
list up to one of them is recorded. -/
structure RunInv (schema : Schema) (i : Nat) (migs : MigrationList) (p : Pc) : Prop where
  ascending : (schema.commits i).Pairwise (· < ·)
  listed : ∀ e ∈ schema.executed, e.run = i →
    ∃ m ∈ migs.migs, m.version = e.version ∧ m.body = e.body
  below : ∀ m ∈ migs.migs, ∀ v ∈ schema.commits i, m.version ≤ v → Recorded schema m
  here : p.Inv schema i migs

theorem RunInv.goto (inv : RunInv schema i migs p) (here : q.Inv schema i migs) :
    RunInv schema i migs q := { inv with here := here }

/-- A commit of another run, while this one does not work. -/
theorem RunInv.commit_other (inv : RunInv schema j migs p) (other : j ≠ i)
    (waits : ¬ p.Working) : RunInv (schema.commit i m) j migs p where
  ascending := by
    rw [commits_commit_other other]
    exact inv.ascending
  listed e member own := by
    obtain earlier | last := List.mem_append.mp member
    · exact inv.listed e earlier own
    · rw [List.mem_singleton.mp last] at own
      exact absurd own.symm other
  below m' member v committed le := by
    rw [commits_commit_other other] at committed
    exact (inv.below m' member v committed le).commit
  here := by
    have here := inv.here
    have same : (schema.commit i m).commits j = schema.commits j := commits_commit_other other
    cases p with
    | idle | acquire | lock => exact same.trans here
    | done result => exact fun success m' member => (here success m' member).commit
    | crashed => trivial
    | _ => exact absurd trivial waits

/-- A commit of the run itself, whatever becomes of the run. -/
theorem RunInv.commit_self (inv : RunInv schema i migs p)
    (applying : Applying schema i migs applied m rest) :
    RunInv (schema.commit i m) i migs .crashed := by
  obtain ⟨⟨passed, here⟩, fresh⟩ := applying
  have inList : m ∈ migs.migs := by
    rw [here.split]
    exact List.mem_append_right _ List.mem_cons_self
  refine ⟨?_, ?_, ?_, trivial⟩
  · rw [commits_commit_self]
    refine List.pairwise_append.mpr ⟨inv.ascending, List.pairwise_singleton _ _, ?_⟩
    intro v committed v' last
    rw [List.mem_singleton.mp last]
    exact here.commits_lt committed
  · intro e member own
    obtain earlier | last := List.mem_append.mp member
    · exact inv.listed e earlier own
    · rw [List.mem_singleton.mp last]
      exact ⟨m, inList, rfl, rfl⟩
  · intro m' member v committed le
    rw [commits_commit_self] at committed
    obtain earlier | last := List.mem_append.mp committed
    · exact (inv.below m' member v earlier le).commit
    · rw [List.mem_singleton.mp last] at le
      rw [here.split] at member
      -- the list ascends, so only what has been passed and `m` itself are at or below `m`
      obtain before | after := List.mem_append.mp member
      · exact (here.recorded m' before).commit
      · obtain rfl | later := List.mem_cons.mp after
        · exact recorded_commit_self fresh
        · exact absurd (here.lt_rest later) (not_lt.mpr le)

end Run

section Invariant

/-- Table and bodies agree, every run is as it should be, and what works has the lock. -/
structure Inv (w : World) : Prop where
  agrees : w.schema.Agrees
  runs : ∀ i, RunInv w.schema i (w.migs i) (w.pc i)
  locked : ∀ i, (w.pc i).Working → w.holder = some i

theorem Inv.initial : Inv World.initial where
  agrees := rfl
  runs i := by
    refine ⟨List.Pairwise.nil, ?_, ?_, rfl⟩
    · intro e member
      cases member
    · intro m member
      cases member
  locked i working := working.elim

variable {w : World} {i : Nat} {p : Pc} {e : Effect}

theorem goto_pc (w : World) (i : Nat) (x : Pc × Effect) : (w.goto i x).pc i = x.1 := by
  show Function.update w.pc i x.1 i = x.1
  rw [Function.update_self]

theorem goto_pc_other {j : Nat} (w : World) (x : Pc × Effect) (other : j ≠ i) :
    (w.goto i x).pc j = w.pc j := by
  show Function.update w.pc i x.1 j = w.pc j
  rw [Function.update_of_ne other]

theorem goto_migs (w : World) (i : Nat) (x : Pc × Effect) :
    (w.goto i x).migs = w.migs := by
  obtain ⟨p, e⟩ := x
  cases e <;> rfl

/-- One run goes on, and the others do not mind. -/
theorem Inv.goto (inv : Inv w) (agrees : (w.apply i e).schema.Agrees)
    (self : RunInv (w.apply i e).schema i (w.migs i) p)
    (others : ∀ j, j ≠ i → RunInv (w.apply i e).schema j (w.migs j) (w.pc j))
    (lock : p.Working → (w.apply i e).holder = some i)
    (kept : ∀ j, j ≠ i → w.holder = some j → (w.apply i e).holder = some j) :
    Inv (w.goto i (p, e)) where
  agrees := agrees
  runs j := by
    rw [goto_migs]
    by_cases same : j = i
    · subst same
      rw [goto_pc]
      exact self
    · rw [goto_pc_other w _ same]
      exact others j same
  locked j working := by
    by_cases same : j = i
    · subst same
      rw [goto_pc] at working
      exact lock working
    · rw [goto_pc_other w _ same] at working
      exact kept j same (inv.locked j working)

theorem release_other {j : Nat} (other : j ≠ i) (holds : w.holder = some j) :
    (w.release i).holder = some j := by
  show (if w.holder = some i then none else w.holder) = some j
  rw [holds, if_neg fun same => other (Option.some.inj same)]

/-- A statement that leaves the lock and the table alone. -/
theorem Inv.stay (inv : Inv w) (here : p.Inv w.schema i (w.migs i))
    (lock : p.Working → w.holder = some i) : Inv (w.goto i (p, .none)) :=
  inv.goto inv.agrees ((inv.runs i).goto here) (fun j _ => inv.runs j) lock fun _ _ holds => holds

/-- The lock goes with the session. -/
theorem Inv.drop (inv : Inv w) (here : p.Inv w.schema i (w.migs i)) (idle : ¬ p.Working) :
    Inv (w.goto i (p, .drop)) :=
  inv.goto inv.agrees ((inv.runs i).goto here) (fun j _ => inv.runs j)
    (fun working => absurd working idle) fun _ => release_other

theorem error_inv {schema : Schema} {migs : MigrationList} (e : MigrateError) :
    (Except.error e : Except MigrateError Unit) = .ok () → ∀ m ∈ migs.migs, Recorded schema m := by
  intro success
  cases success

theorem Inv.fail (inv : Inv w) (o : Outcome) (e : MigrateError) (holds : w.holder = some i) :
    Inv (w.goto i (fail o e)) := by
  rw [Migrations.fail]
  split_ifs
  · exact inv.drop (error_inv e) id
  · exact inv.stay (error_inv e) fun _ => holds

/-- A statement under the lock that only reads. -/
theorem Inv.answer (inv : Inv w) {c : Prop} [Decidable c] {o : Outcome} {e : MigrateError}
    (holds : w.holder = some i) (here : p.Inv w.schema i (w.migs i)) :
    Inv (w.goto i (if c then (p, .none) else Migrations.fail o e)) := by
  by_cases ok : c
  · rw [if_pos ok]
    exact inv.stay here fun _ => holds
  · rw [if_neg ok]
    exact inv.fail o e holds

/-- A commit under the lock. The other runs are not working. -/
theorem Inv.commit (inv : Inv w) {applied : Table MigrationRow.version} {m : Migration}
    {rest : List Migration} (applying : Applying w.schema i (w.migs i) applied m rest)
    (holds : w.holder = some i) (commits : (w.apply i e).schema = w.schema.commit i m)
    (here : p.Inv (w.schema.commit i m) i (w.migs i))
    (lock : p.Working → (w.apply i e).holder = some i) : Inv (w.goto i (p, e)) := by
  have alone {j : Nat} (other : j ≠ i) : w.holder ≠ some j := by
    rw [holds]
    exact fun same => other (Option.some.inj same).symm
  rw [← commits] at here
  refine inv.goto ?_ ?_ ?_ lock fun j other held => absurd held (alone other)
  · rw [commits]
    exact inv.agrees.commit applying.2
  · refine RunInv.goto (p := .crashed) ?_ here
    rw [commits]
    exact (inv.runs i).commit_self applying
  · intro j other
    rw [commits]
    exact (inv.runs j).commit_other other fun working => alone other (inv.locked j working)

/-- The first commit of a run finds the table as it was read. -/
theorem position_start (none : w.schema.commits i = []) :
    Position w.schema i (w.migs i) w.schema.rows [] (w.migs i).migs where
  split := rfl
  recorded m member := by cases member
  own v committed := by
    rw [none] at committed
    cases committed
  unchanged v _ := rfl

theorem Inv.statement (inv : Inv w) (i : Nat) (o : Outcome) : Inv (w.statement i o) := by
  have here := (inv.runs i).here
  have locked := inv.locked i
  rw [World.statement]
  generalize w.pc i = p at here locked
  cases p with
  | idle | done | crashed => exact inv.stay here False.elim
  | acquire =>
    rw [Pc.next]
    split_ifs
    · exact inv.stay here False.elim
    · exact inv.stay (error_inv _) False.elim
  | lock =>
    rw [Pc.next]
    split_ifs with _ free
    · refine inv.goto inv.agrees ((inv.runs i).goto here) (fun j _ => inv.runs j)
        (fun _ => rfl) ?_
      intro j _ holds
      rw [holds] at free
      cases free
    · exact inv.stay here False.elim
    · exact inv.stay (error_inv _) False.elim
  | create | begin_ | exec | insert => exact inv.answer (locked trivial) here
  | read => exact inv.answer (locked trivial) (position_start here).advance
  | commit applied m rest =>
    have holds := locked trivial
    cases o with
    | ok =>
      obtain ⟨passed, position⟩ := here.1
      exact inv.commit here holds rfl (position.commit here.2).advance fun _ => holds
    | failed => exact inv.fail .failed _ holds
    | lost => exact inv.commit here holds rfl (error_inv _) False.elim
  | unlock result =>
    rw [Pc.next]
    split_ifs
    · exact inv.stay here False.elim
    · exact inv.drop here id

/-- A run that has committed nothing may have any list. -/
theorem RunInv.fresh {schema : Schema} {migs : MigrationList} (none : schema.commits i = [])
    (here : p.Inv schema i migs) : RunInv schema i migs p := by
  refine ⟨?_, ?_, ?_, here⟩
  · rw [none]
    exact List.Pairwise.nil
  · intro e member own
    have committed : e.version ∈ schema.commits i :=
      List.mem_map_of_mem (List.mem_filter.mpr ⟨member, decide_eq_true own⟩)
    rw [none] at committed
    cases committed
  · intro m _ v committed
    rw [none] at committed
    cases committed

theorem Inv.start (inv : Inv w) (sorter : SliceSort) (entries : List File)
    (idle : w.pc i = .idle) : Inv (w.start sorter i entries) := by
  have none : w.schema.commits i = [] := by
    have here := (inv.runs i).here
    rwa [idle] at here
  have listed (migs : MigrationList) :
      Inv { w with migs := Function.update w.migs i migs } := by
    refine ⟨inv.agrees, ?_, inv.locked⟩
    intro j
    show RunInv w.schema j (Function.update w.migs i migs j) (w.pc j)
    by_cases same : j = i
    · subst same
      rw [Function.update_self, idle]
      exact RunInv.fresh none none
    · rw [Function.update_of_ne same]
      exact inv.runs j
  rw [World.start]
  cases MigrationList.load sorter entries with
  | error e => exact inv.stay (error_inv _) False.elim
  | ok migs => exact (listed migs).stay none False.elim

theorem Inv.crash (inv : Inv w) (i : Nat) : Inv (w.crash i) := by
  have here := (inv.runs i).here
  rw [World.crash]
  generalize w.pc i = p at here
  cases p with
  | done result => exact inv.drop here id
  | _ => exact inv.drop trivial id

theorem Inv.step (inv : Inv w) (sorter : SliceSort) (event : Event) :
    Inv (step sorter w event) := by
  cases event with
  | start i entries =>
    rw [Migrations.step]
    cases pc : w.pc i with
    | idle => exact inv.start sorter entries pc
    | _ => exact inv
  | statement i o => exact inv.statement i o
  | crash i => exact inv.crash i

theorem run_inv (sorter : SliceSort) (events : List Event) :
    Inv (run (step sorter) World.initial events) :=
  run_preserved (fun _ event inv => inv.step sorter event) Inv.initial events

end Invariant

end FlexStore.Metadata.Migrations
