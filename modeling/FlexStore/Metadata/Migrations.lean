import FlexStore.Metadata.Migrated
import Mathlib.Data.Fintype.Pigeonhole

/-!
# Histories of migrations

A run under the lock comes to its end whatever becomes of its statements, and nothing that
other runs do holds it up. If all its statements are answered and no migration has been
modified, it succeeds and applies what is missing.

The last section collects what every history keeps. A modified migration is known by its
checksum only, so two bodies with one checksum are not told apart.
-/

namespace FlexStore.Metadata.Migrations

open Go Relational Transition

section Returning

variable {w : World} {i : Nat} {sorter : SliceSort}

/-- The statements that a run with a list of `n` migrations still takes at most, once it has
the lock. -/
def Pc.remaining (n : Nat) : Pc → Nat
  | .create => 4 * n + 3
  | .read => 4 * n + 2
  | .begin_ _ _ rest => 4 * rest.length + 5
  | .exec _ _ rest => 4 * rest.length + 4
  | .insert _ _ rest => 4 * rest.length + 3
  | .commit _ _ rest => 4 * rest.length + 2
  | .unlock _ => 1
  | _ => 0

theorem remaining_advance (n : Nat) (applied : Table MigrationRow.version)
    (rest : List Migration) : (advance applied rest).remaining n ≤ 4 * rest.length + 1 := by
  induction rest with
  | nil => exact Nat.le_refl _
  | cons m rest ih =>
    rw [advance, List.length_cons]
    cases applied.find? m.version with
    | none => exact Nat.le_of_eq (by rw [Pc.remaining]; omega)
    | some row =>
      by_cases modified : row.checksum ≠ m.checksum
      · simp only [if_pos modified, Pc.remaining]
        omega
      · simp only [if_neg modified]
        omega

theorem Pc.Working.remaining_pos {p : Pc} (working : p.Working) (n : Nat) :
    0 < p.remaining n := by
  cases p with
  | idle | acquire | lock | done | crashed => exact working.elim
  | _ => exact Nat.succ_pos _

/-- The run has come nearer to its end, or it has returned. -/
def Progress (n : Nat) (p q : Pc) : Prop :=
  (q.Working ∧ q.remaining n < p.remaining n) ∨ ∃ result, q = .done result

theorem progress_fail {n : Nat} {p : Pc} (o : Outcome) (e : MigrateError)
    (more : 1 < p.remaining n) : Progress n p (fail o e).1 := by
  rw [fail]
  split_ifs
  · exact Or.inr ⟨.error e, rfl⟩
  · exact Or.inl ⟨trivial, more⟩

theorem progress_answer {n : Nat} {p q : Pc} {c : Prop} [Decidable c] {o : Outcome}
    {e : MigrateError} (more : 1 < p.remaining n) (working : q.Working)
    (less : q.remaining n < p.remaining n) :
    Progress n p (if c then (q, Effect.none) else fail o e).1 := by
  by_cases ok : c
  · rw [if_pos ok]
    exact Or.inl ⟨working, less⟩
  · rw [if_neg ok]
    exact progress_fail o e more

/-- Every statement under the lock brings the run nearer to its end, answered or not. -/
theorem next_progress {p : Pc} (working : p.Working) (rows : Table MigrationRow.version)
    (free : Bool) (migs : List Migration) (o : Outcome) :
    Progress migs.length p (p.next rows free migs o).1 := by
  cases p with
  | idle | acquire | lock | done | crashed => exact working.elim
  | create | begin_ applied m rest | exec applied m rest | insert applied m rest =>
    refine progress_answer ?_ trivial (Nat.lt_succ_self _)
    rw [Pc.remaining]
    omega
  | read =>
    have less := remaining_advance migs.length rows migs
    refine progress_answer ?_ advance_working ?_
    · rw [Pc.remaining]
      omega
    · rw [Pc.remaining]
      omega
  | commit applied m rest =>
    cases o with
    | ok =>
      have less := remaining_advance migs.length applied rest
      exact Or.inl ⟨advance_working, Nat.lt_succ_of_le less⟩
    | failed => exact Or.inl ⟨trivial, Nat.succ_lt_succ (Nat.succ_pos _)⟩
    | lost => exact Or.inr ⟨_, rfl⟩
  | unlock result => exact Or.inr ⟨result, rfl⟩

def Event.takes (i : Nat) : Event → Bool
  | .statement j _ => j = i
  | _ => false

/-- What a run sees of the world: its statement and its list. -/
def World.view (w : World) (i : Nat) : Pc × MigrationList := (w.pc i, w.migs i)

theorem view_goto {j : Nat} (w : World) (x : Pc × Effect) (other : i ≠ j) :
    (w.goto j x).view i = w.view i := by
  rw [World.view, goto_pc_other w x other, goto_migs]
  rfl

/-- Nothing but its own statements and a crash changes what a started run sees. -/
theorem step_view (sorter : SliceSort) (event : Event) (started : w.pc i ≠ .idle)
    (other : event.takes i = false) (alive : event ≠ .crash i) :
    (step sorter w event).view i = w.view i := by
  cases event with
  | statement j o => exact view_goto w _ fun same => of_decide_eq_false other same.symm
  | crash j =>
    have apart : i ≠ j := fun same => alive (by rw [same])
    rw [step, World.crash]
    cases w.pc j with
    | _ => exact view_goto w _ apart
  | start j entries =>
    rw [step]
    cases idle : w.pc j with
    | idle =>
      have apart : i ≠ j := fun same => started (by rw [same, idle])
      show (w.start sorter j entries).view i = w.view i
      rw [World.start]
      cases MigrationList.load sorter entries with
      | error e => exact view_goto w _ apart
      | ok migs =>
        refine (view_goto _ _ apart).trans ?_
        show (w.pc i, Function.update w.migs j migs i) = w.view i
        rw [Function.update_of_ne apart]
        rfl
    | _ => rfl

theorem step_done (event : Event) {result : Except MigrateError Unit}
    (done : w.pc i = .done result) : (step sorter w event).pc i = .done result := by
  have started : w.pc i ≠ .idle := by
    rw [done]
    intro idle
    cases idle
  cases own : event.takes i with
  | true =>
    cases event with
    | start | crash => cases own
    | statement j o =>
      obtain rfl : j = i := of_decide_eq_true own
      rw [step, World.statement, goto_pc, done]
      rfl
  | false =>
    by_cases crash : event = .crash i
    · subst crash
      rw [step, World.crash, done]
      exact goto_pc w i _
    · rw [← done]
      exact congrArg Prod.fst (step_view sorter event started own crash)

/-- A run that has returned stays where it is. -/
theorem run_done (events : List Event) {result : Except MigrateError Unit}
    (done : w.pc i = .done result) : (run (step sorter) w events).pc i = .done result := by
  induction events generalizing w with
  | nil => exact done
  | cons event rest ih => exact ih (step_done event done)

/-- A run that has the lock returns after so many statements of its own, however they are
answered and whatever the other runs do. -/
theorem returns (events : List Event) (alive : .crash i ∉ events) (working : (w.pc i).Working)
    (enough : (w.pc i).remaining (w.migs i).migs.length ≤ events.countP (Event.takes i)) :
    ∃ result, (run (step sorter) w events).pc i = .done result := by
  induction events generalizing w with
  | nil => exact absurd (working.remaining_pos _) (Nat.not_lt.mpr enough)
  | cons event rest ih =>
    rw [List.mem_cons, not_or] at alive
    rw [run_cons]
    cases own : event.takes i with
    | false =>
      have started : w.pc i ≠ .idle := by
        intro idle
        rw [idle] at working
        exact working
      have view := step_view sorter event started own (Ne.symm alive.1)
      have pc : (step sorter w event).pc i = w.pc i := congrArg Prod.fst view
      have migs : (step sorter w event).migs i = w.migs i := congrArg Prod.snd view
      rw [List.countP_cons_of_neg (by rw [own]; exact Bool.false_ne_true)] at enough
      apply ih alive.2
      · rwa [pc]
      · rwa [pc, migs]
    | true =>
      rw [List.countP_cons_of_pos own] at enough
      cases event with
      | start | crash => cases own
      | statement j o =>
        obtain rfl : j = i := of_decide_eq_true own
        have progress := next_progress working w.schema.rows w.holder.isNone (w.migs j).migs o
        rw [← goto_pc w j] at progress
        obtain ⟨onward, less⟩ | ⟨result, done⟩ := progress
        · apply ih alive.2 onward
          show ((w.goto j _).pc j).remaining ((w.goto j _).migs j).migs.length ≤ _
          rw [goto_migs]
          omega
        · exact ⟨result, run_done rest done⟩

end Returning

section Undisturbed

variable {w : World} {i : Nat} {sorter : SliceSort}

/-- `n` statements of a run, all answered. -/
def answered (i n : Nat) : List Event := List.replicate n (.statement i .ok)

theorem answered_add (i n k : Nat) : answered i (n + k) = answered i n ++ answered i k :=
  List.replicate_append_replicate.symm

/-- A run that finds the lock free reads the table. -/
theorem run_opening (free : w.holder = none) :
    run (step sorter) (w.goto i (.acquire, .none)) (answered i 4) =
      { w with holder := some i }.goto i (advance w.schema.rows (w.migs i).migs, .none) := by
  simp [answered, List.replicate, step, World.statement, World.goto, World.apply, Pc.next, free]

/-- A migration that the table does not have is applied. -/
theorem run_applying {applied : Table MigrationRow.version} {m : Migration}
    {rest : List Migration} (fresh : w.schema.rows.find? m.version = none) :
    run (step sorter) (w.goto i (.begin_ applied m rest, .none)) (answered i 4) =
      { w with schema := w.schema.commit i m }.goto i (advance applied rest, .none) := by
  simp [answered, List.replicate, step, World.statement, World.goto, World.apply, Pc.next, fresh]

theorem run_closing {result : Except MigrateError Unit} :
    run (step sorter) (w.goto i (.unlock result, .none)) (answered i 1) =
      w.goto i (.done result, .drop) := by
  simp [answered, List.replicate, step, World.statement, World.goto, World.apply, World.release,
    Pc.next]

/-- The migrations that the table does not have, committed one after the other. -/
def applyMissing (i : Nat) (schema : Schema) : List Migration → Schema
  | [] => schema
  | m :: rest =>
    if schema.rows.find? m.version = none then applyMissing i (schema.commit i m) rest
    else applyMissing i schema rest

/-- The loop of a run whose statements are all answered and whose list is unmodified. -/
theorem run_loop (sorter : SliceSort) {applied : Table MigrationRow.version}
    {rest : List Migration}
    (ascending : rest.Pairwise fun a b => a.version < b.version)
    (unchanged : ∀ m ∈ rest, w.schema.rows.find? m.version = applied.find? m.version)
    (unmodified : ∀ m ∈ rest, ∀ row, applied.find? m.version = some row →
      row.checksum = m.checksum) :
    ∃ n, run (step sorter) (w.goto i (advance applied rest, .none)) (answered i n) =
      { w with schema := applyMissing i w.schema rest }.goto i (.unlock (.ok ()), .none) := by
  induction rest generalizing w with
  | nil => exact ⟨0, rfl⟩
  | cons m rest ih =>
    obtain ⟨above, later⟩ := List.pairwise_cons.mp ascending
    obtain ⟨here, behind⟩ := List.forall_mem_cons.mp unchanged
    obtain ⟨intact, others⟩ := List.forall_mem_cons.mp unmodified
    rw [advance, applyMissing]
    cases found : applied.find? m.version with
    | some row =>
      have present : w.schema.rows.find? m.version ≠ none := by
        rw [here, found]
        exact Option.some_ne_none row
      rw [if_neg present]
      simp only [if_neg (not_not.mpr (intact row found))]
      exact ih later behind others
    | none =>
      have absent : w.schema.rows.find? m.version = none := here.trans found
      have still (m' : Migration) (member : m' ∈ rest) :
          (w.schema.commit i m).rows.find? m'.version = applied.find? m'.version := by
        rw [find?_commit_other (above m' member).ne']
        exact behind m' member
      obtain ⟨n, goes⟩ := ih (w := { w with schema := w.schema.commit i m }) later still others
      refine ⟨4 + n, ?_⟩
      rw [if_pos absent, answered_add, run_append]
      simp only
      rw [run_applying absent, goes]

/-- A run that finds the lock free, whose statements are all answered and none of whose
migrations has been modified, succeeds and applies what is missing. -/
theorem run_undisturbed (sorter : SliceSort) (free : w.holder = none)
    (unmodified : ∀ m ∈ (w.migs i).migs, ∀ row, w.schema.rows.find? m.version = some row →
      row.checksum = m.checksum) :
    ∃ n, run (step sorter) (w.goto i (.acquire, .none)) (answered i n) =
      World.goto ⟨applyMissing i w.schema (w.migs i).migs, none, w.migs, w.pc⟩ i
        (.done (.ok ()), .none) := by
  obtain ⟨n, loops⟩ := run_loop sorter (w := { w with holder := some i }) (i := i)
    (w.migs i).ascending (fun _ _ => rfl) unmodified
  refine ⟨4 + n + 1, ?_⟩
  rw [answered_add, answered_add, run_append, run_append, run_opening free, loops, run_closing]
  rw [World.goto, World.apply, World.release, if_pos rfl]
  rfl

theorem MigrationList.load_eq {entries : List File} {migs : List Migration}
    (loaded : loadMigrations sorter entries = .ok migs) :
    MigrationList.load sorter entries = .ok ⟨migs, loadMigrations_ascending loaded⟩ := by
  rw [MigrationList.load]
  split
  · rename_i failed
    rw [loaded] at failed
    cases failed
  · rename_i found
    obtain rfl := Except.ok.inj (loaded.symm.trans found)
    rfl

/-- The start of a run that has its list. -/
theorem step_start {entries : List File} {migs : List Migration} (idle : w.pc i = .idle)
    (loaded : loadMigrations sorter entries = .ok migs) :
    step sorter w (.start i entries) =
      { w with migs := Function.update w.migs i ⟨migs, loadMigrations_ascending loaded⟩ }.goto i
        (.acquire, .none) := by
  rw [step, idle]
  show w.start sorter i entries = _
  rw [World.start, MigrationList.load_eq loaded]

/-- The directory with one file, `1_a.sql`. -/
def single (body : Bytes) : List File :=
  [⟨[0x31, 0x5F, 0x61, 0x2E, 0x73, 0x71, 0x6C], false, body⟩]

theorem loadMigrations_single (sorter : SliceSort) (body : Bytes) :
    loadMigrations sorter (single body) = .ok [⟨1, [0x61], body⟩] := by
  have read : readMigrations (single body) = .ok [⟨1, [0x61], body⟩] := rfl
  have sorted (m : Migration) (less : Migration → Migration → Bool) :
      sorter.sort less [m] = [m] := List.perm_singleton.mp (sorter.perm less [m])
  rw [loadMigrations, read]
  show sortMigrations sorter _ = _
  rw [sortMigrations, sorted]
  rfl

/-- The same from the start of a run with the one file. -/
theorem run_single (sorter : SliceSort) (body : Bytes) (idle : w.pc i = .idle)
    (free : w.holder = none) (unmodified : ∀ row, w.schema.rows.find? 1 = some row →
      row.checksum = Digest.sha256 body) :
    ∃ events w', run (step sorter) w events = w' ∧
      w'.schema = applyMissing i w.schema [⟨1, [0x61], body⟩] ∧ w'.holder = none ∧
      (w'.migs i).migs = [⟨1, [0x61], body⟩] ∧ w'.pc i = .done (.ok ()) ∧
      ∀ j, j ≠ i → w'.pc j = w.pc j := by
  have loaded := loadMigrations_single sorter body
  let listed : World :=
    { w with migs := Function.update w.migs i ⟨_, loadMigrations_ascending loaded⟩ }
  have list : (listed.migs i).migs = [⟨1, [0x61], body⟩] := by
    show (Function.update w.migs i _ i).migs = _
    rw [Function.update_self]
  have intact : ∀ m ∈ (listed.migs i).migs, ∀ row, w.schema.rows.find? m.version = some row →
      row.checksum = m.checksum := by
    intro m member
    rw [list] at member
    obtain rfl := List.mem_singleton.mp member
    exact unmodified
  obtain ⟨n, ends⟩ := run_undisturbed (w := listed) sorter free intact
  refine ⟨.start i (single body) :: answered i n, _, rfl, ?_⟩
  rw [run_cons, step_start idle loaded, ends, list]
  exact ⟨rfl, rfl, list, goto_pc _ i _, fun j other => goto_pc_other _ _ other⟩

end Undisturbed

/-- What every history of migrations leaves behind. -/
structure Sound (w : World) : Prop where
  serial : ∀ i j, (w.pc i).Working → (w.pc j).Working → i = j
  recorded : ∀ v, (w.schema.rows.find? v).isSome ↔ ∃ e ∈ w.schema.executed, e.version = v
  listed : ∀ e ∈ w.schema.executed,
    ∃ m ∈ (w.migs e.run).migs, m.version = e.version ∧ m.body = e.body
  once : (w.schema.executed.map Execution.version).Nodup
  ascending : ∀ i, (w.schema.commits i).Pairwise (· < ·)
  success : ∀ i, w.pc i = .done (.ok ()) → ∀ m ∈ (w.migs i).migs, Recorded w.schema m
  changed : ∀ i, ∀ m ∈ (w.migs i).migs, ∀ e ∈ w.schema.executed, e.version = m.version →
    Digest.sha256 e.body ≠ m.checksum →
      (∀ result, w.pc i = .done result → ∃ err, result = .error err) ∧
        ∀ v ∈ w.schema.commits i, v < m.version

theorem Inv.sound {w : World} (inv : Inv w) : Sound w where
  serial i j first second :=
    Option.some.inj ((inv.locked i first).symm.trans (inv.locked j second))
  recorded v := inv.agrees.isSome_iff
  listed e member := (inv.runs e.run).listed e member rfl
  once := inv.agrees.nodup
  ascending i := (inv.runs i).ascending
  success i done := by
    have here := (inv.runs i).here
    rw [done] at here
    exact here rfl
  changed i m inList e member same differs := by
    have unrecorded : ¬ Recorded w.schema m := by
      rintro ⟨row, found, checksum⟩
      rw [← same] at found
      exact differs ((inv.agrees.checksum member found).symm.trans checksum)
    constructor
    · intro result done
      have here := (inv.runs i).here
      rw [done] at here
      cases result with
      | error err => exact ⟨err, rfl⟩
      | ok => exact absurd (here rfl m inList) unrecorded
    · intro v committed
      by_contra above
      exact unrecorded ((inv.runs i).below m inList v committed (not_lt.mp above))

/-- A run that has the lock returns after so many statements of its own, however they are
answered and whatever the other runs do. -/
def Returning (sorter : SliceSort) (w : World) : Prop :=
  ∀ i events, (w.pc i).Working → .crash i ∉ events →
    (w.pc i).remaining (w.migs i).migs.length ≤ events.countP (Event.takes i) →
      ∃ result, (run (step sorter) w events).pc i = .done result

/-- Over every history of runs, interleaved, failing and crashing anywhere, the table records
what has been committed, once and in order; success means that the list is applied, and a
migration whose checksum is not the recorded one stops its run before anything above it. -/
theorem migrate_history (sorter : SliceSort) (events : List Event) :
    Sound (run (step sorter) World.initial events) ∧
      Returning sorter (run (step sorter) World.initial events) :=
  ⟨(run_inv sorter events).sound, fun _ more working alive enough =>
    returns more alive working enough⟩

/-- By counting, there are two bodies with one checksum. A run that has the one in the place of
the other, which is applied, succeeds. -/
theorem collision_accepted : ∃ (a b : Bytes) (events : List Event) (w : World), a ≠ b ∧
    run (step SliceSort.merge) World.initial events = w ∧
    w.schema.executed = [⟨0, 1, a⟩] ∧ (w.migs 1).migs = [⟨1, [0x61], b⟩] ∧
    w.pc 1 = .done (.ok ()) := by
  have finite : Finite (BitVec 256) :=
    Finite.of_injective BitVec.toFin fun _ _ => BitVec.eq_of_toFin_eq
  obtain ⟨a, b, differ, same⟩ := Finite.exists_ne_map_eq_of_infinite Digest.sha256
  have blank (row : MigrationRow) : World.initial.schema.rows.find? 1 = some row →
      row.checksum = Digest.sha256 a := by
    intro found
    cases found
  obtain ⟨first, w, reach, applied, free, -, -, others⟩ :=
    run_single (w := World.initial) (i := 0) SliceSort.merge a rfl rfl blank
  have row : w.schema.rows.find? 1 = some ⟨1, [0x61], Digest.sha256 a⟩ := by
    rw [applied]
    rfl
  have unmodified (row' : MigrationRow) (found : w.schema.rows.find? 1 = some row') :
      row'.checksum = Digest.sha256 b := by
    rw [row] at found
    rw [← Option.some.inj found]
    exact same
  obtain ⟨second, w', again, kept, -, list, success, -⟩ :=
    run_single (w := w) (i := 1) SliceSort.merge b (others 1 Nat.one_ne_zero) free unmodified
  have unchanged : w'.schema = w.schema := by
    rw [kept, applyMissing, row]
    rfl
  refine ⟨a, b, first ++ second, w', differ, ?_, ?_, list, success⟩
  · rw [run_append, reach, again]
  · rw [unchanged, applied]
    rfl

end FlexStore.Metadata.Migrations
