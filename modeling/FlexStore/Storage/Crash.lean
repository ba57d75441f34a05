import FlexStore.Storage.ChunkStore

/-!
# Writes that fail or are killed

What a write may leave behind, whatever the file system does and wherever the process is
killed: the visible file of its chunk is the old one or a complete new one, a failed write
has changed nothing, a successful one has stored what was asked for, and a restart finds no
temporary files.

The first part holds in every state of every run (`always_oldOrNew`). A write breaks the rest
in three places: it returns an error for a file that it has published when the sync of the
directory fails, it leaves its temporary file if that cannot be removed, and it takes a file
that is already there for the one that it is to write without looking at the declared size,
and without a checksum at the bytes.
-/

namespace FlexStore.Storage

open Digest FileSystem Go Relational Transition

/-- The source ended, with bytes that are what was declared. -/
structure Complete (call : WriteCall) (bytes : Bytes) : Prop where
  source : call.source = (bytes, none)
  size : 0 ≤ call.expectedSize → (bytes.length : Int) = call.expectedSize
  digest : ∀ sum, call.expected = .digest sum → sha256 bytes = sum

structure Unchanged (before s : ChunkStore) : Prop where
  data : ∀ id, s.data.read id = before.data.read id
  temp : ∀ name, s.temp.read name = before.temp.read name
  usedBytes : s.usedBytes = before.usedBytes
  chunkCount : s.chunkCount = before.chunkCount

/-- What may be relied on in any state of a write. -/
structure WriteCorrect (before : ChunkStore) (call : WriteCall) (s : ChunkStore × WritePc) :
    Prop where
  visible : s.1.data.read call.chunkID = before.data.read call.chunkID ∨
    ∃ bytes, s.1.data.read call.chunkID = some bytes ∧ Complete call bytes
  others : ∀ id, id ≠ call.chunkID → s.1.data.read id = before.data.read id
  failed : ∀ failure, s.2 = .done (.error failure) → Unchanged before s.1
  succeeded : ∀ result, s.2 = .done (.ok result) → ∃ bytes,
    s.1.data.read call.chunkID = some bytes ∧
      (call.source.1 = bytes ∨ ∃ sum, call.expected = .digest sum ∧ sha256 bytes = sum) ∧
      (0 ≤ call.expectedSize → (bytes.length : Int) = call.expectedSize)
  restarted : ∀ name, (newChunkStore s.1.data s.1.temp).temp.read name = none

/-- The steps that keep to it: a file that is there is taken for the one to be written only
if it has the declared size and, without a checksum, the bytes of the source; the sync of
the directory fails only if the file is what it was; the temporary file can be removed. -/
def Harmless (before : ChunkStore) (call : WriteCall) (s : ChunkStore × WritePc) (c : Choice) :
    Prop :=
  match s.2 with
  | .verify => c.fails = false → ∀ bytes, s.1.data.read call.chunkID = some bytes →
      call.expected.sum.all (· = sha256 bytes) →
        (0 ≤ call.expectedSize → (bytes.length : Int) = call.expectedSize) ∧
          (call.expected = .absent → call.source.1 = bytes)
  | .syncDir _ => c.fails → s.1.data.read call.chunkID = before.data.read call.chunkID
  | .cleanup _ _ => c.fails = false
  | _ => True

/-- The temporary file is there and nothing else has changed. -/
structure Staged (before : ChunkStore) (tmp : TempName) (bytes : Bytes) (s : ChunkStore) :
    Prop where
  data : s.data = before.data
  fresh : before.temp.read tmp = none
  temp : ∀ name, s.temp.read name = if name = tmp then some bytes else before.temp.read name
  usedBytes : s.usedBytes = before.usedBytes
  chunkCount : s.chunkCount = before.chunkCount

/-- The file is published and nothing else has changed. -/
structure Published (before : ChunkStore) (call : WriteCall) (bytes : Bytes) (s : ChunkStore) :
    Prop where
  complete : Complete call bytes
  data : ∀ id, s.data.read id = if id = call.chunkID then some bytes else before.data.read id
  temp : ∀ name, s.temp.read name = before.temp.read name
  usedBytes : s.usedBytes = before.usedBytes
  chunkCount : s.chunkCount = before.chunkCount

def WriteInvariant (before : ChunkStore) (call : WriteCall) (s : ChunkStore × WritePc) : Prop :=
  match s.2 with
  | .stat | .verify | .mkdir | .create => s.1 = before ∧ call.expected ≠ .malformed
  | .copy tmp copied => Staged before tmp copied s.1 ∧ copied <+: call.source.1 ∧
      call.expected ≠ .malformed
  | .sync tmp written | .close tmp written => Staged before tmp written s.1 ∧
      call.source = (written, none) ∧ call.expected ≠ .malformed ∧
      (0 ≤ call.expectedSize → (written.length : Int) = call.expectedSize)
  | .rename tmp written => Staged before tmp written s.1 ∧ Complete call written
  | .syncDir written | .addUsage written => Published before call written s.1
  | .cleanup tmp _ => ∃ bytes, Staged before tmp bytes s.1
  | .done _ => WriteCorrect before call s

section Invariant

variable {before : ChunkStore} {call : WriteCall} {fsync : Bool} {s : ChunkStore} {pc : WritePc}
  {c : Choice} {tmp : TempName} {bytes : Bytes}

theorem restarted (s : ChunkStore) (name : TempName) :
    (newChunkStore s.data s.temp).temp.read name = none :=
  Directory.read_clear s.temp name

/-- As long as the write has not returned, only the visible files count. -/
theorem correct_of_data (running : ∀ result, pc ≠ .done result)
    (visible : s.data.read call.chunkID = before.data.read call.chunkID ∨
      ∃ bytes, s.data.read call.chunkID = some bytes ∧ Complete call bytes)
    (others : ∀ id, id ≠ call.chunkID → s.data.read id = before.data.read id) :
    WriteCorrect before call (s, pc) :=
  ⟨visible, others, fun _ returned => absurd returned (running _),
    fun _ returned => absurd returned (running _), restarted s⟩

theorem ne_error {result : WriteResult} (failure : WriteFailure) :
    WritePc.done (.ok result) ≠ .done (.error failure) := by
  intro same
  cases same

theorem correct_of_unchanged {failure : WriteFailure} (same : Unchanged before s) :
    WriteCorrect before call (s, .done (.error failure)) :=
  ⟨Or.inl (same.data _), fun id _ => same.data id, fun _ _ => same,
    fun _ returned => absurd returned.symm (ne_error failure), restarted s⟩

theorem WriteInvariant.correct {s : ChunkStore × WritePc} (holds : WriteInvariant before call s) :
    WriteCorrect before call s := by
  obtain ⟨s, pc⟩ := s
  cases pc with
  | stat | verify | mkdir | create =>
    obtain ⟨rfl, -⟩ := holds
    exact correct_of_data (by simp) (Or.inl rfl) fun _ _ => rfl
  | copy | sync | close | rename =>
    have same : s.data = before.data := holds.1.data
    exact correct_of_data (by simp) (Or.inl (by rw [same])) fun _ _ => by rw [same]
  | cleanup =>
    obtain ⟨_, staged⟩ := holds
    have same := staged.data
    exact correct_of_data (by simp) (Or.inl (by rw [same])) fun _ _ => by rw [same]
  | syncDir written | addUsage written =>
    have published : Published before call written s := holds
    refine correct_of_data (by simp) (Or.inr ⟨written, ?_, published.complete⟩) fun id other => ?_
    · rw [published.data, if_pos rfl]
    · rw [published.data, if_neg other]
  | done => exact holds

namespace Staged

/-- The file that `create` makes. -/
theorem create (fresh : before.temp.read tmp = none) (seq : Nat) :
    Staged before tmp [] { before with tempSeq := seq, temp := before.temp.put tmp [] } :=
  ⟨rfl, fresh, fun name => Directory.read_put before.temp tmp name [], rfl, rfl⟩

theorem put (staged : Staged before tmp bytes s) (more : Bytes) :
    Staged before tmp more { s with temp := s.temp.put tmp more } := by
  refine ⟨staged.data, staged.fresh, fun name => ?_, staged.usedBytes, staged.chunkCount⟩
  show (s.temp.put tmp more).read name = _
  rw [Directory.read_put, staged.temp]
  split_ifs <;> rfl

theorem held (staged : Staged before tmp bytes s) : s.temp.read tmp = some bytes := by
  rw [staged.temp, if_pos rfl]

/-- Without the temporary file the directory is what it was. -/
theorem read_remove (staged : Staged before tmp bytes s) (name : TempName) :
    (s.temp.remove tmp).read name = before.temp.read name := by
  rw [Directory.read_remove, staged.temp]
  split_ifs with same
  · rw [same, staged.fresh]
  · rfl

theorem removed (staged : Staged before tmp bytes s) :
    Unchanged before { s with temp := s.temp.remove tmp } :=
  ⟨fun id => by show s.data.read id = _; rw [staged.data], staged.read_remove,
    staged.usedBytes, staged.chunkCount⟩

/-- The rename publishes the temporary file. -/
theorem publish (staged : Staged before tmp bytes s) (complete : Complete call bytes) :
    Published before call bytes
      { s with data := s.data.put call.chunkID bytes, temp := s.temp.remove tmp } := by
  refine ⟨complete, fun id => ?_, staged.read_remove, staged.usedBytes, staged.chunkCount⟩
  show (s.data.put call.chunkID bytes).read id = _
  rw [Directory.read_put, staged.data]

end Staged

/-- The file is counted and the write returns. -/
theorem Published.counted (published : Published before call bytes s) {result : WriteResult} :
    WriteCorrect before call (s.addUsage bytes.length 1, .done (.ok result)) := by
  have there : s.data.read call.chunkID = some bytes := by rw [published.data, if_pos rfl]
  refine ⟨Or.inr ⟨bytes, there, published.complete⟩, fun id other => ?_,
    fun failure returned => absurd returned (ne_error failure), fun _ _ => ⟨bytes, there, Or.inl ?_,
      published.complete.size⟩, restarted _⟩
  · show s.data.read id = _
    rw [published.data, if_neg other]
  · rw [published.complete.source]

/-- If the file is what it was, nothing has changed yet. -/
theorem Published.unchanged (published : Published before call bytes s)
    (same : s.data.read call.chunkID = before.data.read call.chunkID) : Unchanged before s := by
  refine ⟨fun id => ?_, published.temp, published.usedBytes, published.chunkCount⟩
  by_cases own : id = call.chunkID
  · rw [own, same]
  · rw [published.data, if_neg own]

/-- A file that is taken for the one to be written. -/
theorem correct_of_kept {result : WriteResult} (wellFormed : call.expected ≠ .malformed)
    (found : s.data.read call.chunkID = some bytes)
    (verified : call.expected.sum.all (· = sha256 bytes) = true) :
    WriteCorrect s call (s, .done (.ok result)) ↔
      (0 ≤ call.expectedSize → (bytes.length : Int) = call.expectedSize) ∧
        (call.expected = .absent → call.source.1 = bytes) := by
  constructor
  · intro correct
    obtain ⟨other, read, stored, sized⟩ := correct.succeeded _ rfl
    obtain rfl : other = bytes := Option.some.inj (read.symm.trans found)
    refine ⟨sized, fun none_ => stored.resolve_right ?_⟩
    rintro ⟨sum, given, -⟩
    rw [none_] at given
    cases given
  · rintro ⟨sized, source⟩
    refine ⟨Or.inl rfl, fun _ _ => rfl,
      fun failure returned => absurd returned (ne_error failure),
      fun _ _ => ⟨bytes, found, ?_, sized⟩, restarted s⟩
    cases given : call.expected with
    | absent => exact Or.inl (source given)
    | malformed => exact absurd given wellFormed
    | digest sum =>
      rw [given] at verified
      exact Or.inr ⟨sum, rfl, (of_decide_eq_true verified).symm⟩

/-- A copy that has reached the end of the source, or has failed to. -/
theorem WriteInvariant.copied (staged : Staged before tmp bytes s)
    (all : call.source.1 = bytes) (wellFormed : call.expected ≠ .malformed) :
    WriteInvariant before call (s, call.copied fsync tmp bytes) := by
  unfold WriteCall.copied
  cases ending : call.source.2 with
  | some err => exact ⟨bytes, staged⟩
  | none =>
    have source : call.source = (bytes, none) := Prod.ext all ending
    dsimp only
    split_ifs with wrong
    · exact ⟨bytes, staged⟩
    all_goals
      refine ⟨staged, source, wellFormed, fun declared => ?_⟩
      by_contra differs
      exact wrong ⟨declared, differs⟩

/-- The digest is compared after the file has been closed. -/
theorem complete_of_matching (source : call.source = (bytes, none))
    (sized : 0 ≤ call.expectedSize → (bytes.length : Int) = call.expectedSize)
    (equal : call.expected.sum.any (· ≠ sha256 bytes) ≠ true) : Complete call bytes := by
  refine ⟨source, sized, fun sum given => ?_⟩
  rw [given] at equal
  by_contra differs
  refine equal (decide_eq_true ?_)
  exact fun same => differs same.symm

theorem WriteInvariant.step (holds : WriteInvariant before call (s, pc))
    (harmless : Harmless before call (s, pc) c) :
    WriteInvariant before call (call.step fsync (s, pc) c) := by
  unfold WriteCall.step
  dsimp only
  cases pc with
  | stat =>
    rw [WriteCall.advance]
    split_ifs <;> exact holds
  | verify =>
    obtain ⟨rfl, wellFormed⟩ := holds
    rw [WriteCall.advance]
    cases found : s.data.read call.chunkID with
    | none => exact ⟨rfl, wellFormed⟩
    | some bytes =>
      dsimp only
      split_ifs with kept
      · exact (correct_of_kept wellFormed found kept.2).mpr
          (harmless kept.1 bytes found kept.2)
      · exact ⟨rfl, wellFormed⟩
  | mkdir =>
    obtain ⟨rfl, wellFormed⟩ := holds
    rw [WriteCall.advance]
    split_ifs
    · exact correct_of_unchanged ⟨fun _ => rfl, fun _ => rfl, rfl, rfl⟩
    · exact ⟨rfl, wellFormed⟩
  | create =>
    obtain ⟨rfl, wellFormed⟩ := holds
    rw [WriteCall.advance]
    dsimp only
    split_ifs with taken
    · exact correct_of_unchanged ⟨fun _ => rfl, fun _ => rfl, rfl, rfl⟩
    · push Not at taken
      exact ⟨Staged.create taken.2 _, List.nil_prefix, wellFormed⟩
  | copy tmp copied =>
    obtain ⟨staged, ⟨rest, split⟩, wellFormed⟩ := holds
    rw [WriteCall.advance, ← split, List.drop_left]
    dsimp only
    by_cases ended : rest = []
    · rw [if_pos ended]
      refine WriteInvariant.copied staged ?_ wellFormed
      rw [← split, ended, List.append_nil]
    · rw [if_neg ended]
      split_ifs
      · exact ⟨_, staged.put _⟩
      · refine ⟨staged.put _, ?_, wellFormed⟩
        rw [← split]
        exact (List.prefix_append_right_inj copied).mpr (List.take_prefix _ rest)
  | sync tmp written =>
    rw [WriteCall.advance]
    split_ifs
    · exact ⟨written, holds.1⟩
    · exact holds
  | close tmp written =>
    obtain ⟨staged, source, -, sized⟩ := holds
    rw [WriteCall.advance]
    split_ifs with failed differs
    · exact ⟨written, staged⟩
    · exact ⟨written, staged⟩
    · exact ⟨staged, complete_of_matching source sized differs⟩
  | rename tmp written =>
    obtain ⟨staged, complete⟩ := holds
    rw [WriteCall.advance, staged.held]
    dsimp only
    split_ifs
    · exact ⟨written, staged⟩
    · exact staged.publish complete
    · exact staged.publish complete
  | syncDir written =>
    rw [WriteCall.advance]
    split_ifs with failed
    · exact correct_of_unchanged (Published.unchanged holds (harmless failed))
    · exact holds
  | addUsage written => exact Published.counted holds
  | cleanup tmp failure =>
    obtain ⟨bytes, staged⟩ := holds
    rw [WriteCall.advance, show c.fails = false from harmless]
    exact correct_of_unchanged staged.removed
  | done result => exact holds

/-- Any other step breaks what may be relied on. -/
theorem WriteInvariant.broken (holds : WriteInvariant before call (s, pc))
    (harmful : ¬Harmless before call (s, pc) c) :
    ¬WriteCorrect before call (call.step fsync (s, pc) c) := by
  unfold WriteCall.step
  dsimp only
  intro correct
  cases pc with
  | verify =>
    obtain ⟨rfl, wellFormed⟩ := holds
    refine harmful fun fine bytes found verified => ?_
    rw [WriteCall.advance, found] at correct
    dsimp only at correct
    rw [if_pos ⟨fine, verified⟩] at correct
    exact (correct_of_kept wellFormed found verified).mp correct
  | syncDir written =>
    refine harmful fun failed => ?_
    rw [WriteCall.advance, if_pos failed] at correct
    exact (correct.failed _ rfl).data _
  | cleanup tmp failure =>
    obtain ⟨bytes, staged⟩ := holds
    refine harmful (Bool.eq_false_iff.mpr fun failed => ?_)
    rw [WriteCall.advance, if_pos failed] at correct
    have left : s.temp.read tmp = before.temp.read tmp := (correct.failed _ rfl).temp tmp
    rw [staged.held, staged.fresh] at left
    cases left
  | stat | mkdir | create | copy | sync | close | rename | addUsage | done =>
    exact harmful trivial

end Invariant

/-- The checks of the arguments change nothing. -/
theorem WriteInvariant.start (before : ChunkStore) (call : WriteCall) :
    WriteInvariant before call (before, call.start) := by
  unfold WriteCall.start
  split_ifs with invalid malformed
  · exact correct_of_unchanged ⟨fun _ => rfl, fun _ => rfl, rfl, rfl⟩
  · exact correct_of_unchanged ⟨fun _ => rfl, fun _ => rfl, rfl, rfl⟩
  · exact ⟨rfl, malformed⟩

/-- A write keeps to its contract, in every state in which it may be killed, exactly in the
runs whose steps are harmless. -/
theorem write_correct_iff_harmless (fsync : Bool) (before : ChunkStore) (call : WriteCall)
    (choices : List Choice) :
    Always (call.step fsync) (WriteCorrect before call) (before, call.start) choices ↔
      Guarded (call.step fsync) (Harmless before call) (before, call.start) choices := by
  apply always_iff_guarded (I := WriteInvariant before call)
  · intro s holds
    exact holds.correct
  · intro s c holds harmless
    exact WriteInvariant.step holds harmless
  · intro s c holds harmful
    exact WriteInvariant.broken holds harmful
  · exact WriteInvariant.start before call

/-- The visible file is the old one or a complete new one, and the others are as before. -/
structure OldOrNew (before : ChunkStore) (call : WriteCall) (s : ChunkStore) : Prop where
  visible : s.data.read call.chunkID = before.data.read call.chunkID ∨
    ∃ bytes, s.data.read call.chunkID = some bytes ∧ Complete call bytes
  others : ∀ id, id ≠ call.chunkID → s.data.read id = before.data.read id

section Visible

variable {before s s' : ChunkStore} {call : WriteCall} {pc : WritePc} {c : Choice}

theorem OldOrNew.of_data (old : OldOrNew before call s) (same : s'.data = s.data) :
    OldOrNew before call s' := by
  refine ⟨?_, fun id other => ?_⟩
  · rw [same]
    exact old.visible
  · rw [same]
    exact old.others id other

/-- A harmful step is the last one and leaves the visible files alone. -/
theorem last_of_harmful (fsync : Bool) (harmful : ¬Harmless before call (s, pc) c) :
    (call.step fsync (s, pc) c).1.data = s.data ∧
      ∃ result, (call.step fsync (s, pc) c).2 = .done result := by
  unfold WriteCall.step
  dsimp only
  cases pc with
  | verify =>
    have kept : ∃ bytes, s.data.read call.chunkID = some bytes ∧
        c.fails = false ∧ call.expected.sum.all (· = sha256 bytes) = true := by
      by_contra none_
      refine harmful fun fine bytes found verified => ?_
      exact absurd ⟨bytes, found, fine, verified⟩ none_
    obtain ⟨bytes, found, matching⟩ := kept
    rw [WriteCall.advance, found]
    dsimp only
    rw [if_pos matching]
    exact ⟨rfl, _, rfl⟩
  | syncDir written =>
    have failed : c.fails = true := by
      by_contra fine
      exact harmful fun failed => absurd failed fine
    rw [WriteCall.advance, if_pos failed]
    exact ⟨rfl, _, rfl⟩
  | cleanup tmp failure =>
    rw [WriteCall.advance]
    refine ⟨?_, _, rfl⟩
    dsimp only
    split_ifs <;> rfl
  | stat | mkdir | create | copy | sync | close | rename | addUsage | done =>
    exact absurd trivial harmful

/-- Whatever fails and wherever the process is killed, no partial file is visible. -/
theorem always_oldOrNew (fsync : Bool) (before : ChunkStore) (call : WriteCall)
    (choices : List Choice) :
    Always (call.step fsync) (fun s => OldOrNew before call s.1) (before, call.start) choices := by
  -- Until a harmful step the invariant of the write holds, and after it nothing moves.
  have holds : Always (call.step fsync) (fun s => WriteInvariant before call s ∨
      (OldOrNew before call s.1 ∧ ∃ result, s.2 = .done result)) (before, call.start) choices := by
    refine always_of_preserved ?_ (Or.inl (WriteInvariant.start before call))
      (guarded_of_forall (p := fun _ => True) (fun _ _ => trivial) _)
    rintro ⟨s, pc⟩ c (running | ⟨old, result, returned⟩) -
    · by_cases harmless : Harmless before call (s, pc) c
      · exact Or.inl (running.step harmless)
      · obtain ⟨same, last⟩ := last_of_harmful fsync harmless
        have old : OldOrNew before call s := ⟨running.correct.visible, running.correct.others⟩
        exact Or.inr ⟨old.of_data same, last⟩
    · obtain rfl : pc = .done result := returned
      exact Or.inr ⟨old, result, rfl⟩
  refine holds.mono fun s either => ?_
  obtain running | stopped := either
  · exact ⟨running.correct.visible, running.correct.others⟩
  · exact stopped.1

end Visible

/-- One byte for an empty store, with no checksum. -/
def oneByte : WriteCall where
  chunkID := "00000000-0000-0000-0000-000000000000"
  source := ([7], none)
  expectedSize := 1
  expected := .absent

theorem within_write_oneByte : Within (oneByte.step true) Choice.Succeeds 11
    (newChunkStore Table.empty Table.empty, oneByte.start)
    (Writes Table.empty oneByte (writeNew ([7], none) 1 none)) :=
  within_write true (by decide) (by decide) rfl

/-- Every call of the file system succeeds but the last, the sync of the directory. -/
def unsyncedDirectory : ChunkStore × WritePc :=
  run (oneByte.step true) (newChunkStore Table.empty Table.empty, oneByte.start)
    (List.replicate 8 ⟨false, 0⟩ ++ [⟨true, 0⟩])

/-- The write has returned an error, but its file is visible, and is not counted. -/
theorem failed_sync_leaves_file :
    unsyncedDirectory.2 = .done (.error .fsyncDirectory) ∧
      unsyncedDirectory.1.data.read oneByte.chunkID = some [7] ∧
      unsyncedDirectory.1.chunkCount = 0 ∧
      ¬WriteCorrect (newChunkStore Table.empty Table.empty) oneByte
        unsyncedDirectory := by
  have returned : unsyncedDirectory.2 = .done (.error .fsyncDirectory) := by rfl
  have there : unsyncedDirectory.1.data.read oneByte.chunkID = some [7] := by decide +kernel
  refine ⟨returned, there, by decide +kernel, fun correct => ?_⟩
  have same := (correct.failed _ returned).data oneByte.chunkID
  rw [there] at same
  exact absurd same (by decide +kernel)

end FlexStore.Storage
