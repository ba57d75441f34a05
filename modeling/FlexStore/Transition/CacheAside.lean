import FlexStore.Transition.Run
import Mathlib.Data.List.Basic
import Mathlib.Logic.Function.Basic

/-!
# A store behind a cache

Readers and writers share a store and one cache entry. A reader asks the cache, on a miss
reads the store, puts what it found into the cache and returns it. A writer commits to the
store and then drops the entry. Each of these is a step of its own, and the steps of any
number of readers and writers are interleaved.

The log lists what the writes installed, one after the other. A value carries the position
in the log that was the last one when it was read, and a read its floor: the last position of
a write that had returned when the read started. A read is fresh if its value is not older
than its floor. The protocol does not ensure that by itself, because a slow reader may fill
the cache after a write has dropped the entry. It does if no reader puts a value into the
cache that is older than a write that has returned, `Timely`.
-/

namespace Transition.CacheAside

/-- A store as the readers and the writers see it: what a read finds, which version that is,
the version that is current, and what an action does. An action that is not a write of the
entry leaves the current version. -/
structure Store (σ α ν β : Type) where
  lookup : σ → Option ν
  version : ν → β
  current : σ → Option β
  act : α → σ → σ × Bool
  lookup_current : ∀ {s : σ} {v : ν}, lookup s = some v → current s = some (version v)
  quiet : ∀ {a : α} {s : σ}, (act a s).2 = false → current (act a s).1 = current s

/-- A value and the position of the log at which it was read. -/
structure Stamped (ν : Type) where
  value : ν
  stamp : Nat

inductive Reading (ν : Type) where
  | idle
  | missed (floor : Nat)
  | holding (floor : Nat) (v : Stamped ν)
  | returned (floor : Nat) (result : Option (Stamped ν))

inductive Writing where
  | idle
  | committed (number : Nat)
  | returned (number : Nat)

structure State (σ ν β : Type) where
  store : σ
  log : List (Option β)
  cache : Option (Stamped ν)
  /-- The last position of a write that has returned. -/
  settled : Nat
  readers : Nat → Reading ν
  writers : Nat → Writing

inductive Event (α : Type) where
  | get (r : Nat)
  | read (r : Nat)
  | set (r : Nat)
  | act (w : Nat) (a : α)
  | drop (w : Nat)
  | evict

variable {σ α ν β : Type}

def State.reader (s : State σ ν β) (r : Nat) (phase : Reading ν) : State σ ν β :=
  { s with readers := Function.update s.readers r phase }

def State.writer (s : State σ ν β) (w : Nat) (phase : Writing) : State σ ν β :=
  { s with writers := Function.update s.writers w phase }

/-- One step of a reader or a writer. A step that is not its turn changes nothing. -/
def step (S : Store σ α ν β) (s : State σ ν β) : Event α → State σ ν β
  | .get r =>
    match s.readers r with
    | .idle =>
      s.reader r (match s.cache with
        | some v => .returned s.settled (some v)
        | none => .missed s.settled)
    | _ => s
  | .read r =>
    match s.readers r with
    | .missed floor =>
      s.reader r (match S.lookup s.store with
        | some v => .holding floor ⟨v, s.log.length - 1⟩
        | none => .returned floor none)
    | _ => s
  | .set r =>
    match s.readers r with
    | .holding floor v => { s.reader r (.returned floor (some v)) with cache := some v }
    | _ => s
  | .act w a =>
    match s.writers w with
    | .idle =>
      let (store, wrote) := S.act a s.store
      if wrote then
        { s.writer w (.committed s.log.length) with
          store
          log := s.log ++ [S.current store] }
      else { s with store }
    | _ => s
  | .drop w =>
    match s.writers w with
    | .committed number =>
      { s.writer w (.returned number) with
        cache := none
        settled := max s.settled number }
    | _ => s
  | .evict => { s with cache := none }

/-- Nobody has started, and the cache is empty. -/
def State.start (S : Store σ α ν β) (store : σ) : State σ ν β where
  store
  log := [S.current store]
  cache := none
  settled := 0
  readers := fun _ => .idle
  writers := fun _ => .idle

/-- What the reader is about to put into the cache is not older than the position. -/
def Reading.Since (position : Nat) : Reading ν → Prop
  | .holding _ v => position ≤ v.stamp
  | _ => True

instance (position : Nat) : (phase : Reading ν) → Decidable (phase.Since position)
  | .holding _ v => inferInstanceAs (Decidable (position ≤ v.stamp))
  | .idle | .missed _ | .returned _ _ => isTrue trivial

/-- A reader does not put a value into the cache that is older than a write that has
returned. -/
def Timely (s : State σ ν β) : Event α → Prop
  | .set r => (s.readers r).Since s.settled
  | _ => True

instance (s : State σ ν β) : (e : Event α) → Decidable (Timely s e)
  | .set r => inferInstanceAs (Decidable ((s.readers r).Since s.settled))
  | .get _ | .read _ | .act _ _ | .drop _ | .evict => isTrue trivial

/-- The value is what the write at its position installed. -/
def State.Installed (S : Store σ α ν β) (s : State σ ν β) (v : Stamped ν) : Prop :=
  s.log[v.stamp]? = some (some (S.version v.value))

/-- Every value that has been returned is one that the write at its position installed, and
is not older than a write that had returned when the read started. -/
def Fresh (S : Store σ α ν β) (s : State σ ν β) : Prop :=
  ∀ r floor v, s.readers r = .returned floor (some v) → s.Installed S v ∧ floor ≤ v.stamp

def Reading.Sound (S : Store σ α ν β) (s : State σ ν β) : Reading ν → Prop
  | .idle => True
  | .missed floor => floor < s.log.length
  | .holding floor v => s.Installed S v ∧ floor ≤ v.stamp
  | .returned _ none => True
  | .returned floor (some v) => s.Installed S v ∧ floor ≤ v.stamp

structure Invariant (S : Store σ α ν β) (s : State σ ν β) : Prop where
  latest : s.log.getLast? = some (S.current s.store)
  settled : s.settled < s.log.length
  readers : ∀ r, (s.readers r).Sound S s
  writers : ∀ w number, s.writers w = .committed number → number < s.log.length
  cached : ∀ v, s.cache = some v → s.Installed S v ∧ s.settled ≤ v.stamp

variable {S : Store σ α ν β} {s s' : State σ ν β}

theorem State.Installed.mono {v : Stamped ν} (installed : s.Installed S v)
    (grows : s.log <+: s'.log) : s'.Installed S v := by
  obtain ⟨more, grows⟩ := grows
  have inside : v.stamp < s.log.length := (List.getElem?_eq_some_iff.mp installed).1
  rw [State.Installed, ← grows, List.getElem?_append_left inside]
  exact installed

/-- Readers keep what they know while the log grows. -/
theorem Reading.Sound.mono {phase : Reading ν} (sound : phase.Sound S s)
    (grows : s.log <+: s'.log) : phase.Sound S s' := by
  cases phase with
  | idle => trivial
  | missed floor => exact Nat.lt_of_lt_of_le sound grows.length_le
  | holding floor v => exact ⟨sound.1.mono grows, sound.2⟩
  | returned floor result =>
    cases result with
    | none => trivial
    | some v => exact ⟨sound.1.mono grows, sound.2⟩

/-- A reader moves on. -/
theorem Invariant.reader (invariant : Invariant S s) {r : Nat} {phase : Reading ν}
    (sound : phase.Sound S s) : Invariant S (s.reader r phase) := by
  refine ⟨invariant.latest, invariant.settled, ?_, invariant.writers, invariant.cached⟩
  intro r'
  change (Function.update s.readers r phase r').Sound S _
  by_cases same : r' = r
  · rw [same, Function.update_self]
    exact sound.mono (List.prefix_refl _)
  · rw [Function.update_of_ne same]
    exact (invariant.readers r').mono (List.prefix_refl _)

theorem Invariant.cache (invariant : Invariant S s) {cache : Option (Stamped ν)}
    (cached : ∀ v, cache = some v → s.Installed S v ∧ s.settled ≤ v.stamp) :
    Invariant S { s with cache } :=
  ⟨invariant.latest, invariant.settled, fun r => (invariant.readers r).mono (List.prefix_refl _),
    invariant.writers, cached⟩

/-- A write extends the log. -/
theorem Invariant.commit (invariant : Invariant S s) (w : Nat) (store : σ) :
    Invariant S { s.writer w (.committed s.log.length) with
      store
      log := s.log ++ [S.current store] } := by
  have grows : s.log <+: s.log ++ [S.current store] := List.prefix_append _ _
  have longer : s.log.length < (s.log ++ [S.current store]).length := by simp
  refine ⟨by simp, Nat.lt_trans invariant.settled longer,
    fun r => (invariant.readers r).mono grows, ?_,
    fun v held => ⟨(invariant.cached v held).1.mono grows, (invariant.cached v held).2⟩⟩
  intro w' number committed
  by_cases same : w' = w
  · subst same
    have last : Writing.committed s.log.length = .committed number := by
      simpa [State.writer] using committed
    cases last
    exact longer
  · have before : s.writers w' = .committed number := by
      simpa [State.writer, same] using committed
    exact Nat.lt_trans (invariant.writers w' number before) longer

/-- A writer drops the entry and returns. -/
theorem Invariant.drop (invariant : Invariant S s) {w number : Nat}
    (committed : s.writers w = .committed number) :
    Invariant S { s.writer w (.returned number) with
      cache := none
      settled := max s.settled number } := by
  refine ⟨invariant.latest, Nat.max_lt.mpr ⟨invariant.settled,
    invariant.writers w number committed⟩, fun r => (invariant.readers r).mono (List.prefix_refl _),
    ?_, by simp⟩
  intro w' number' still
  by_cases same : w' = w
  · subst same
    simp [State.writer] at still
  · apply invariant.writers w' number'
    simpa [State.writer, same] using still

theorem invariant_step (invariant : Invariant S s) {e : Event α} (timely : Timely s e) :
    Invariant S (step S s e) := by
  cases e with
  | get r =>
    cases phase : s.readers r with
    | idle =>
      simp only [step, phase]
      cases cached : s.cache with
      | none => exact invariant.reader invariant.settled
      | some v => exact invariant.reader (invariant.cached v cached)
    | _ => simpa only [step, phase] using invariant
  | read r =>
    cases phase : s.readers r with
    | missed floor =>
      have known : (s.readers r).Sound S s := invariant.readers r
      rw [phase] at known
      have known : floor < s.log.length := known
      simp only [step, phase]
      cases found : S.lookup s.store with
      | none => exact invariant.reader trivial
      | some v =>
        apply invariant.reader
        refine ⟨?_, by simp only; omega⟩
        rw [State.Installed, ← List.getLast?_eq_getElem?, invariant.latest,
          S.lookup_current found]
    | _ => simpa only [step, phase] using invariant
  | set r =>
    cases phase : s.readers r with
    | holding floor v =>
      have sound : (s.readers r).Sound S s := invariant.readers r
      have recent : (s.readers r).Since s.settled := timely
      rw [phase] at sound recent
      have moved : Invariant S (s.reader r (.returned floor (some v))) :=
        invariant.reader sound
      simp only [step, phase]
      apply moved.cache
      rintro v' ⟨⟩
      exact ⟨sound.1, recent⟩
    | _ => simpa only [step, phase] using invariant
  | act w a =>
    cases phase : s.writers w with
    | idle =>
      simp only [step, phase]
      cases wrote : (S.act a s.store).2 with
      | true => exact invariant.commit w _
      | false =>
        have same := S.quiet wrote
        exact ⟨invariant.latest.trans (congrArg some same.symm), invariant.settled,
          fun r => (invariant.readers r).mono (List.prefix_refl _), invariant.writers,
          invariant.cached⟩
    | _ => simpa only [step, phase] using invariant
  | drop w =>
    cases phase : s.writers w with
    | committed number =>
      simp only [step, phase]
      exact invariant.drop phase
    | _ => simpa only [step, phase] using invariant
  | evict => exact invariant.cache (by simp)

theorem invariant_start (S : Store σ α ν β) (store : σ) : Invariant S (State.start S store) :=
  ⟨rfl, Nat.one_pos, fun _ => trivial, by simp [State.start], by simp [State.start]⟩

theorem Invariant.fresh (invariant : Invariant S s) : Fresh S s := by
  intro r floor v returned
  have sound := invariant.readers r
  rw [returned] at sound
  exact sound

/-- Every read is fresh in a run in which no reader fills the cache too late. -/
theorem always_fresh (S : Store σ α ν β) (store : σ) {events : List (Event α)}
    (timely : Guarded (step S) Timely (State.start S store) events) :
    Always (step S) (Fresh S) (State.start S store) events := by
  have invariant := always_of_preserved (P := Invariant S)
    (fun s e invariant timely => invariant_step invariant timely) (invariant_start S store) timely
  exact invariant.mono fun s => Invariant.fresh

end Transition.CacheAside
