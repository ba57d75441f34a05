import FlexStore.Go.Errors

/-!
# Bounded retries

`retry.Do` calls a function until a call succeeds, fails for good, the attempts are used up
or the context is done. A call fails for good with an error that is marked, at any depth of
its tree; what `Do` then returns is `errors.Unwrap` of the error. That is the error without
its mark if the mark is its root, and an error that still has it inside if it wraps one
other; but an error that wraps several is unwrapped to `nil`, and `Do` reports a success
that no call had.

What the function answers, whether the context is done before an attempt and whether it is
done before the timer between two attempts are arbitrary functions of the attempt. The
delay of the timer decides nothing else and is left out.
-/

namespace FlexStore.Retry

open Go

/-- What tells two errors apart: the errors of others by their name, those made here by
their format and the number in it. -/
inductive Value (ι : Type) where
  | own (name : ι)
  | errorf (format : String) (attempts : Nat)

/-- The struct that marks an error as one that no retry can mend. -/
inductive Mark where
  | permanent
  deriving DecidableEq

abbrev Err (ι : Type) := ErrorTree (Value ι) Mark

variable {ι : Type}

def isPermanent (err : Err ι) : Bool := (err.as .permanent).isSome

/-- The part of the policy that the loop reads. -/
structure Policy where
  maxAttempts : Int

/-- `ctx.Err()` before an attempt, and what `ctx.Done()` leaves to return if it is ready
before the timer after an attempt. -/
structure Context (ι : Type) where
  err : Nat → Option (Err ι)
  done : Nat → Option (Err ι)

/-- What is returned, with `none` for `nil`, and the calls that were made. -/
structure Outcome (ι : Type) where
  result : Option (Err ι)
  calls : List (Nat × Option (Err ι))

def Outcome.after (call : Nat × Option (Err ι)) (out : Outcome ι) : Outcome ι :=
  { out with calls := call :: out.calls }

/-- The error of a context that is done when some attempt has failed. -/
def aborted (attempts : Nat) (err last : Err ι) : Err ι :=
  .multi (.errorf "retry aborted after %d attempts: %w (last error: %w)" attempts) [err, last]

/-- The loop, from an attempt on: `left` more attempts may follow it. -/
def loop (ctx : Context ι) (fn : Nat → Option (Err ι)) (maxAttempts : Nat) :
    (left attempt : Nat) → (last : Option (Err ι)) → Outcome ι
  | left, attempt, last =>
    match ctx.err attempt with
    | some err =>
      match last with
      | some last => ⟨some (aborted (attempt - 1) err last), []⟩
      | none => ⟨some err, []⟩
    | none =>
      match fn attempt with
      | none => ⟨none, [(attempt, none)]⟩
      | some last =>
        if isPermanent last then ⟨last.unwrap, [(attempt, some last)]⟩
        else
          match left with
          | 0 =>
            ⟨some (.wrap (.errorf "giving up after %d attempts: %w" maxAttempts) last),
              [(attempt, some last)]⟩
          | left + 1 =>
            match ctx.done attempt with
            | some err => ⟨some (aborted attempt err last), [(attempt, some last)]⟩
            | none => (loop ctx fn maxAttempts left (attempt + 1) (some last)).after
                (attempt, some last)

/-- `Do`. -/
def do_ (ctx : Context ι) (p : Policy) (fn : Nat → Option (Err ι)) : Outcome ι :=
  let maxAttempts := if p.maxAttempts < 1 then 1 else p.maxAttempts
  loop ctx fn maxAttempts.toNat (maxAttempts.toNat - 1) 1 none

/-- What is promised of a run: `nil` is returned for a call that returned it and only then,
the calls are as few as the policy says and numbered from one, there is none behind a call
that settled the matter, and a permanent error reaches the caller without its mark. -/
structure Kept (ctx : Context ι) (p : Policy) (fn : Nat → Option (Err ι)) : Prop where
  result : (do_ ctx p fn).result = none ↔ ∃ n, (n, none) ∈ (do_ ctx p fn).calls
  bounded : ((do_ ctx p fn).calls.length : Int) ≤ max 1 p.maxAttempts
  numbered : (do_ ctx p fn).calls =
    (List.range' 1 (do_ ctx p fn).calls.length).map fun n => (n, fn n)
  stops : ∀ call ∈ (do_ ctx p fn).calls.dropLast,
    ∃ err, call.2 = some err ∧ isPermanent err = false
  original : ∀ n last cause, (n, some last) ∈ (do_ ctx p fn).calls →
    last.Is (.marked .permanent cause) →
      ∃ err, (do_ ctx p fn).result = some err ∧ err.Is cause

section Loop

/-- How a run ends: without another call, or with one that decides what is returned. -/
inductive Ending : List (Nat × Option (Err ι)) → Option (Err ι) → Prop where
  | stopped (err : Err ι) : Ending [] (some err)
  | succeeded (n : Nat) : Ending [(n, none)] none
  | permanent (n : Nat) (last : Err ι) (marked : isPermanent last = true) :
      Ending [(n, some last)] last.unwrap
  | failed (n : Nat) (last err : Err ι) (unmarked : isPermanent last = false) :
      Ending [(n, some last)] (some err)

/-- A run from an attempt on: calls that settle nothing, and an ending. -/
structure Trace (fn : Nat → Option (Err ι)) (attempt left : Nat) (out : Outcome ι)
    (earlier ending : List (Nat × Option (Err ι))) : Prop where
  calls : out.calls = earlier ++ ending
  ends : Ending ending out.result
  unsettled : ∀ call ∈ earlier, ∃ err, call.2 = some err ∧ isPermanent err = false
  bounded : out.calls.length ≤ left + 1
  numbered : out.calls = (List.range' attempt out.calls.length).map fun n => (n, fn n)

variable {ctx : Context ι} {fn : Nat → Option (Err ι)} {left attempt : Nat} {out : Outcome ι}

/-- A run that makes no call. -/
theorem Trace.stopped (err : Err ι) : Trace fn attempt left ⟨some err, []⟩ [] [] where
  calls := rfl
  ends := .stopped err
  unsettled _ listed := absurd listed List.not_mem_nil
  bounded := Nat.zero_le _
  numbered := rfl

/-- A run of one call. -/
theorem Trace.single {answer result : Option (Err ι)} (answers : fn attempt = answer)
    (ends : Ending [(attempt, answer)] result) :
    Trace fn attempt left ⟨result, [(attempt, answer)]⟩ [] [(attempt, answer)] where
  calls := rfl
  ends
  unsettled _ listed := absurd listed List.not_mem_nil
  bounded := Nat.succ_le_succ (Nat.zero_le _)
  numbered := by
    rw [List.length_singleton, List.range'_one, List.map_singleton, answers]

/-- One more call in front of a run. -/
theorem Trace.after {earlier ending : List (Nat × Option (Err ι))} {last : Err ι}
    (trace : Trace fn (attempt + 1) left out earlier ending)
    (answers : fn attempt = some last) (unmarked : isPermanent last = false) :
    Trace fn attempt (left + 1) (out.after (attempt, some last))
      ((attempt, some last) :: earlier) ending where
  calls := by rw [Outcome.after, trace.calls, List.cons_append]
  ends := trace.ends
  unsettled := List.forall_mem_cons.mpr ⟨⟨last, rfl, unmarked⟩, trace.unsettled⟩
  bounded := by
    rw [Outcome.after, List.length_cons]
    exact Nat.succ_le_succ trace.bounded
  numbered := by
    rw [Outcome.after, List.length_cons, List.range'_succ, List.map_cons, answers,
      ← trace.numbered]

/-- The loop, by induction on the attempts that are left. -/
theorem loop_trace (ctx : Context ι) (fn : Nat → Option (Err ι)) (maxAttempts left attempt : Nat)
    (last : Option (Err ι)) :
    ∃ earlier ending,
      Trace fn attempt left (loop ctx fn maxAttempts left attempt last) earlier ending := by
  fun_induction loop ctx fn maxAttempts left attempt last with
  | case1 => exact ⟨_, _, Trace.stopped _⟩
  | case2 => exact ⟨_, _, Trace.stopped _⟩
  | case3 left attempt _ _ answers => exact ⟨_, _, Trace.single answers (.succeeded attempt)⟩
  | case4 left attempt _ _ last answers marked =>
    exact ⟨_, _, Trace.single answers (.permanent attempt last marked)⟩
  | case5 attempt _ _ last answers marked =>
    have unmarked := Bool.eq_false_iff.mpr marked
    exact ⟨_, _, Trace.single answers (.failed attempt last _ unmarked)⟩
  | case6 attempt _ _ last answers marked =>
    have unmarked := Bool.eq_false_iff.mpr marked
    exact ⟨_, _, Trace.single answers (.failed attempt last _ unmarked)⟩
  | case7 attempt _ _ last answers marked _ _ ih =>
    have unmarked := Bool.eq_false_iff.mpr marked
    obtain ⟨earlier, ending, trace⟩ := ih
    exact ⟨_, _, trace.after answers unmarked⟩

end Loop

/-- `Do` is a run from the first attempt on, with as many attempts as the policy allows. -/
theorem do_trace (ctx : Context ι) (p : Policy) (fn : Nat → Option (Err ι)) :
    ∃ earlier ending,
      Trace fn 1 ((max 1 p.maxAttempts).toNat - 1) (do_ ctx p fn) earlier ending := by
  have effective : (if p.maxAttempts < 1 then 1 else p.maxAttempts) = max 1 p.maxAttempts := by
    split_ifs <;> omega
  rw [do_, effective]
  exact loop_trace ..

/-- None of the calls that `Do` makes fails for good with an error whose root wraps several. -/
def Single (ctx : Context ι) (p : Policy) (fn : Nat → Option (Err ι)) : Prop :=
  ∀ n value causes, (n, some (.multi value causes)) ∈ (do_ ctx p fn).calls →
    isPermanent (ι := ι) (.multi value causes) = false

section Endings

variable {ending : List (Nat × Option (Err ι))} {result : Option (Err ι)} {n : Nat}

theorem Ending.dropLast (ends : Ending ending result) : ending.dropLast = [] := by
  cases ends <;> rfl

theorem Ending.of_nil (ends : Ending ending result) (listed : (n, none) ∈ ending) :
    result = none := by
  cases ends <;> simp_all

theorem Ending.of_permanent (ends : Ending ending result) {last : Err ι}
    (listed : (n, some last) ∈ ending) (marked : isPermanent last = true) :
    result = last.unwrap := by
  cases ends <;> simp_all

/-- A mark is found in an error that can be unwrapped, or that wraps several. -/
theorem isPermanent_cases {last : Err ι} (marked : isPermanent last = true) :
    (∃ err, last.unwrap = some err) ∨ ∃ value causes, last = .multi value causes := by
  by_cases several : ∃ value causes, last = .multi value causes
  · exact Or.inr several
  · push Not at several
    obtain ⟨cause, found⟩ := ErrorTree.isSome_as_iff.mp marked
    obtain ⟨err, unwraps, _⟩ := ErrorTree.unwrap_is several found
    exact Or.inl ⟨err, unwraps⟩

/-- `nil` is returned for a call that returned it, or for an error that wraps several. -/
theorem Ending.of_none (ends : Ending ending none) :
    (∃ n, (n, none) ∈ ending) ∨ ∃ n value causes,
      (n, some (.multi value causes)) ∈ ending ∧ isPermanent (ι := ι) (.multi value causes) := by
  generalize returned : (none : Option (Err ι)) = result at ends
  cases ends with
  | stopped err | failed n last err unmarked => cases returned
  | succeeded n => exact Or.inl ⟨n, List.mem_singleton.mpr rfl⟩
  | permanent n last marked =>
    obtain ⟨err, unwraps⟩ | ⟨value, causes, rfl⟩ := isPermanent_cases marked
    · rw [unwraps] at returned
      cases returned
    · exact Or.inr ⟨n, value, causes, List.mem_singleton.mpr rfl, marked⟩

end Endings

section Runs

variable {fn : Nat → Option (Err ι)} {attempt left : Nat} {out : Outcome ι}
variable {earlier ending : List (Nat × Option (Err ι))}
variable (trace : Trace fn attempt left out earlier ending)
include trace

/-- A call that settles the matter is in the ending. -/
theorem Trace.settles {n : Nat} {answer : Option (Err ι)} (listed : (n, answer) ∈ out.calls)
    (settled : ∀ err, answer = some err → isPermanent err = true) : (n, answer) ∈ ending := by
  rw [trace.calls, List.mem_append] at listed
  obtain before | at_ := listed
  · obtain ⟨err, answers, unmarked⟩ := trace.unsettled _ before
    rw [settled err answers] at unmarked
    cases unmarked
  · exact at_

/-- A permanent error decides what is returned. -/
theorem Trace.result_eq_unwrap {n : Nat} {last : Err ι} (listed : (n, some last) ∈ out.calls)
    (marked : isPermanent last = true) : out.result = last.unwrap := by
  have settled : ∀ err, some last = some err → isPermanent err = true := by
    intro err same
    cases same
    exact marked
  exact trace.ends.of_permanent (trace.settles listed settled) marked

theorem Trace.stops {call : Nat × Option (Err ι)} (listed : call ∈ out.calls.dropLast) :
    ∃ err, call.2 = some err ∧ isPermanent err = false := by
  apply trace.unsettled
  rw [trace.calls] at listed
  by_cases none_ : ending = []
  · rw [none_, List.append_nil] at listed
    exact (List.dropLast_sublist _).subset listed
  · rwa [List.dropLast_append_of_ne_nil none_, trace.ends.dropLast, List.append_nil] at listed

end Runs

/-- `Do` keeps its promises exactly if no call that it makes fails for good with an error
whose root wraps several: such an error is unwrapped to `nil`. -/
theorem do_kept_iff (ctx : Context ι) (p : Policy) (fn : Nat → Option (Err ι)) :
    Kept ctx p fn ↔ Single ctx p fn := by
  obtain ⟨earlier, ending, trace⟩ := do_trace ctx p fn
  constructor
  · intro kept n value causes listed
    rw [Bool.eq_false_iff]
    intro marked
    obtain ⟨cause, found⟩ := ErrorTree.isSome_as_iff.mp marked
    obtain ⟨err, returned, _⟩ := kept.original n _ cause listed found
    rw [trace.result_eq_unwrap listed marked] at returned
    cases returned
  · intro single
    refine ⟨⟨?_, ?_⟩, ?_, trace.numbered, fun call listed => trace.stops listed, ?_⟩
    · intro returned
      have ends := trace.ends
      rw [returned] at ends
      obtain ⟨n, listed⟩ | ⟨n, value, causes, listed, marked⟩ := ends.of_none
      · exact ⟨n, trace.calls ▸ List.mem_append_right _ listed⟩
      · have unmarked := single n value causes (trace.calls ▸ List.mem_append_right _ listed)
        rw [marked] at unmarked
        cases unmarked
    · rintro ⟨n, listed⟩
      exact trace.ends.of_nil (trace.settles listed fun err answer => by cases answer)
    · have bounded := trace.bounded
      omega
    · intro n last cause listed found
      have marked : isPermanent last = true := ErrorTree.isSome_as_iff.mpr ⟨cause, found⟩
      have alone : ∀ value causes, last ≠ .multi value causes := by
        rintro value causes rfl
        have unmarked := single n value causes listed
        rw [marked] at unmarked
        cases unmarked
      rw [trace.result_eq_unwrap listed marked]
      exact ErrorTree.unwrap_is alone found

/-- Joins a permanent error with another one, and would succeed at the next attempt. -/
def joining (n : Nat) : Option (Err String) :=
  if n = 1 then some (.multi (.own "joined")
    [.leaf (.own "timeout"), .marked .permanent (.leaf (.own "bad request"))])
  else none

/-- `Do` returns `nil` though its only call failed. -/
theorem do_joining_not_kept :
    (do_ ⟨fun _ => none, fun _ => none⟩ ⟨3⟩ joining).result = none ∧
      (do_ ⟨fun _ => none, fun _ => none⟩ ⟨3⟩ joining).calls = [(1, joining 1)] ∧
      ¬ Kept ⟨fun _ => none, fun _ => none⟩ ⟨3⟩ joining := by
  have returned : (do_ ⟨fun _ => none, fun _ => none⟩ ⟨3⟩ joining).result = none := rfl
  have calls : (do_ ⟨fun _ => none, fun _ => none⟩ ⟨3⟩ joining).calls = [(1, joining 1)] := rfl
  refine ⟨returned, calls, ?_⟩
  intro kept
  obtain ⟨n, listed⟩ := kept.result.mp returned
  rw [calls, List.mem_singleton] at listed
  cases listed

end FlexStore.Retry
