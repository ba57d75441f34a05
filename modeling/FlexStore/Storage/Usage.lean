import FlexStore.Storage.ChunkStore
import FlexStore.Transition.Pool

/-!
# The usage of a chunk store

The counters of a chunk store are moved after the rename or the removal that they count, in
a critical section of their own, so between the two a call owes the counters what it has
done. If calls run at the same time, or a chunk is written again, what a call owes can
differ from what it has done to the directory: a rename may replace a file, a removal may
take another file than the one that was looked at, and a counter that would fall below zero
stays there. In a run without these the counters are what a scan of the directory finds
whenever no call is under way.
-/

namespace FlexStore.Storage

open Digest FileSystem Go Relational Transition

inductive StoreCall where
  | write (call : WriteCall) (pc : WritePc)
  | delete (chunkID : String) (pc : DeletePc)

namespace StoreCall

/-- One step of a call, with a file system that does not fail. -/
def advance (fsync : Bool) (s : ChunkStore) (amount : Nat) : StoreCall → ChunkStore × StoreCall
  | .write call pc =>
    ((call.advance fsync s ⟨false, amount⟩ pc).1,
      .write call (call.advance fsync s ⟨false, amount⟩ pc).2)
  | .delete chunkID pc =>
    ((advanceDelete chunkID s ⟨false, amount⟩ pc).1,
      .delete chunkID (advanceDelete chunkID s ⟨false, amount⟩ pc).2)

def returned : StoreCall → Bool
  | .write _ (.done _) | .delete _ (.done _) => true
  | _ => false

/-- The bytes that a call has moved and not yet counted. -/
def owedBytes : StoreCall → Int
  | .write _ (.syncDir written) | .write _ (.addUsage written) => written.length
  | .delete _ (.addUsage size) => -size
  | _ => 0

/-- The same for files. -/
def owedChunks : StoreCall → Int
  | .write _ (.syncDir _) | .write _ (.addUsage _) => 1
  | .delete _ (.addUsage _) => -1
  | _ => 0

def tempFile : StoreCall → Option TempName
  | .write _ (.copy tmp _) | .write _ (.sync tmp _) | .write _ (.close tmp _)
  | .write _ (.rename tmp _) | .write _ (.cleanup tmp _) => some tmp
  | _ => none

/-- What a call takes its temporary file to have. -/
def staged : StoreCall → Option (TempName × Bytes)
  | .write _ (.copy tmp bytes) | .write _ (.sync tmp bytes) | .write _ (.close tmp bytes)
  | .write _ (.rename tmp bytes) => some (tmp, bytes)
  | _ => none

/-- The next step does to the directory what will be counted: a rename replaces no file, a
removal takes a file of the size that was looked up, and no counter falls below zero. -/
def undisturbed (s : ChunkStore) : StoreCall → Bool
  | .write call (.rename _ _) => s.data.read call.chunkID = none
  | .delete chunkID (.remove size) => (s.data.read chunkID).all (·.length = size)
  | .delete _ (.addUsage size) => size ≤ s.usedBytes && 1 ≤ s.chunkCount
  | _ => true

end StoreCall

/-- The calls that are made, and the steps that they take. -/
inductive StoreEvent where
  | write (call : WriteCall)
  | delete (chunkID : String)
  | advance (i amount : Nat)

def StoreEvent.action : StoreEvent → Pool.Action StoreCall Nat
  | .write call => .start (.write call call.start)
  | .delete chunkID => .start (.delete chunkID (startDelete chunkID))
  | .advance i amount => .advance i amount

abbrev StorePool := Pool ChunkStore StoreCall

namespace StorePool

def step (fsync : Bool) (s : StorePool) (e : StoreEvent) : StorePool :=
  Pool.step (StoreCall.advance fsync) s e.action

/-- A store that has been started on the files that are there. -/
def start (data : Directory String UInt8) (temp : Directory TempName UInt8) : StorePool :=
  ⟨newChunkStore data temp, []⟩

def undisturbed (s : StorePool) : StoreEvent → Bool
  | .advance i _ => s.calls[i]?.all (·.undisturbed s.shared)
  | _ => true

/-- If no call is under way, the counters are what a restart would compute. -/
def Exact (s : StorePool) : Prop :=
  (∀ call ∈ s.calls, call.returned) →
    s.shared.usedBytes = (newChunkStore s.shared.data s.shared.temp).usedBytes ∧
      s.shared.chunkCount = (newChunkStore s.shared.data s.shared.temp).chunkCount

end StorePool

section Effects

theorem StoreCall.tempFile_of_staged {c : StoreCall} {tmp : TempName} {bytes : Bytes}
    (staged : c.staged = some (tmp, bytes)) : c.tempFile = some tmp := by
  revert staged
  unfold StoreCall.staged StoreCall.tempFile
  split <;> simp +contextual

/-- A call that goes on with no other file and owes what it owed. -/
structure StoreCall.Continues (c c' : StoreCall) : Prop where
  tempFile : ∀ tmp, c'.tempFile = some tmp → c.tempFile = some tmp
  staged : ∀ file, c'.staged = some file → c.staged = some file
  bytes : c'.owedBytes = c.owedBytes
  chunks : c'.owedChunks = c.owedChunks

inductive Effect (s : ChunkStore) : StoreCall → ChunkStore → StoreCall → Prop where
  | inside {c c'} (continues : c.Continues c') : Effect s c s c'
  | taken {c c'} (continues : c.Continues c') :
      Effect s c { s with tempSeq := s.tempSeq + 1 } c'
  | created {call tmp} (new : tmp.2 = s.tempSeq + 1) :
      Effect s (.write call .create)
        { s with tempSeq := s.tempSeq + 1, temp := s.temp.put tmp [] } (.write call (.copy tmp []))
  | copied {call tmp old bytes} :
      Effect s (.write call (.copy tmp old)) { s with temp := s.temp.put tmp bytes }
        (.write call (.copy tmp bytes))
  | renamed {call tmp written bytes pc} (staged : s.temp.read tmp = some bytes)
      (next : pc = .syncDir written ∨ pc = .addUsage written) :
      Effect s (.write call (.rename tmp written))
        { s with data := s.data.put call.chunkID bytes, temp := s.temp.remove tmp }
        (.write call pc)
  | cleaned {call tmp failure result} :
      Effect s (.write call (.cleanup tmp failure)) { s with temp := s.temp.remove tmp }
        (.write call (.done result))
  | removed {chunkID size bytes} (found : s.data.read chunkID = some bytes) :
      Effect s (.delete chunkID (.remove size)) { s with data := s.data.remove chunkID }
        (.delete chunkID (.addUsage size))
  | counted {c c'} (idle : c'.tempFile = none)
      (settled : c'.owedBytes = 0 ∧ c'.owedChunks = 0)
      (covered : c.undisturbed s → 0 ≤ s.usedBytes → 0 ≤ s.chunkCount →
        0 ≤ s.usedBytes + c.owedBytes ∧ 0 ≤ s.chunkCount + c.owedChunks) :
      Effect s c (s.addUsage c.owedBytes c.owedChunks) c'

variable {s : ChunkStore} {fsync : Bool} {amount : Nat}

section Continues

variable {c c' : StoreCall}

theorem StoreCall.staged_eq_none (none_ : c.tempFile = none) : c.staged = none := by
  cases staged : c.staged with
  | none => rfl
  | some file =>
    rw [StoreCall.tempFile_of_staged staged] at none_
    cases none_

namespace StoreCall.Continues

theorem same (tempFile : c'.tempFile = c.tempFile) (staged : c'.staged = c.staged)
    (bytes : c'.owedBytes = c.owedBytes) (chunks : c'.owedChunks = c.owedChunks) :
    c.Continues c' :=
  ⟨fun _ held => tempFile.symm.trans held, fun _ held => staged.symm.trans held, bytes, chunks⟩

/-- The file is kept only to be removed. -/
theorem cleaning (tempFile : c'.tempFile = c.tempFile) (none_ : c'.staged = none)
    (bytes : c'.owedBytes = c.owedBytes) (chunks : c'.owedChunks = c.owedChunks) :
    c.Continues c' := by
  refine ⟨fun _ held => tempFile.symm.trans held, fun _ held => ?_, bytes, chunks⟩
  rw [none_] at held
  cases held

/-- There is no temporary file any more. -/
theorem idle (none_ : c'.tempFile = none) (bytes : c'.owedBytes = c.owedBytes)
    (chunks : c'.owedChunks = c.owedChunks) : c.Continues c' := by
  refine ⟨fun _ held => ?_, fun _ held => ?_, bytes, chunks⟩
  · rw [none_] at held
    cases held
  · rw [StoreCall.staged_eq_none none_] at held
    cases held

end StoreCall.Continues

end Continues

theorem StoreCall.Continues.copied (call : WriteCall) (tmp : TempName) (bytes : Bytes) :
    StoreCall.Continues (.write call (.copy tmp bytes))
      (.write call (call.copied fsync tmp bytes)) := by
  unfold WriteCall.copied
  split
  · exact .cleaning rfl rfl rfl rfl
  · split_ifs
    · exact .cleaning rfl rfl rfl rfl
    · exact .same rfl rfl rfl rfl
    · exact .same rfl rfl rfl rfl

/-- The digest decides whether the file is published or removed. -/
theorem effect_close (call : WriteCall) (tmp : TempName) (written : Bytes) :
    Effect s (.write call (.close tmp written))
      (call.advance fsync s ⟨false, amount⟩ (.close tmp written)).1
      (.write call (call.advance fsync s ⟨false, amount⟩ (.close tmp written)).2) := by
  rw [WriteCall.advance, if_neg Bool.false_ne_true]
  by_cases differs : call.expected.sum.any (· ≠ sha256 written) = true
  · rw [if_pos differs]
    exact .inside (.cleaning rfl rfl rfl rfl)
  · rw [if_neg differs]
    exact .inside (.same rfl rfl rfl rfl)

theorem effect_write (call : WriteCall) (pc : WritePc) :
    Effect s (.write call pc) (call.advance fsync s ⟨false, amount⟩ pc).1
      (.write call (call.advance fsync s ⟨false, amount⟩ pc).2) := by
  cases pc with
  | stat =>
    rw [WriteCall.advance]
    split_ifs <;> exact .inside (.idle rfl rfl rfl)
  | verify =>
    rw [WriteCall.advance]
    cases s.data.read call.chunkID with
    | none => exact .inside (.idle rfl rfl rfl)
    | some bytes =>
      dsimp only
      split_ifs <;> exact .inside (.idle rfl rfl rfl)
  | mkdir | syncDir written | done result => exact .inside (.idle rfl rfl rfl)
  | create =>
    rw [WriteCall.advance]
    dsimp only
    by_cases taken : false = true ∨ s.temp.read (call.chunkID, s.tempSeq + 1) ≠ none
    · rw [if_pos taken]
      exact .taken (.idle rfl rfl rfl)
    · rw [if_neg taken]
      exact .created rfl
  | copy tmp copied =>
    rw [WriteCall.advance]
    dsimp only
    by_cases ended : call.source.1.drop copied.length = []
    · rw [if_pos ended]
      exact .inside (.copied call tmp copied)
    · rw [if_neg ended]
      exact .copied
  | sync tmp written => exact .inside (.same rfl rfl rfl rfl)
  | close tmp written => exact effect_close call tmp written
  | rename tmp written =>
    rw [WriteCall.advance]
    cases staged : s.temp.read tmp with
    | none => exact .inside (.cleaning rfl rfl rfl rfl)
    | some bytes =>
      refine .renamed staged ?_
      cases fsync with
      | true => exact Or.inl rfl
      | false => exact Or.inr rfl
  | addUsage written =>
    refine @Effect.counted s (.write call (.addUsage written)) _ rfl ⟨rfl, rfl⟩ ?_
    intro _ bytes chunks
    exact ⟨Int.add_nonneg bytes (Int.natCast_nonneg _), Int.add_nonneg chunks Int.one_nonneg⟩
  | cleanup tmp failure => exact .cleaned

theorem effect_delete (chunkID : String) (pc : DeletePc) :
    Effect s (.delete chunkID pc) (advanceDelete chunkID s ⟨false, amount⟩ pc).1
      (.delete chunkID (advanceDelete chunkID s ⟨false, amount⟩ pc).2) := by
  cases pc with
  | stat =>
    rw [advanceDelete, if_neg Bool.false_ne_true]
    cases s.data.read chunkID <;> exact .inside (.idle rfl rfl rfl)
  | remove size =>
    rw [advanceDelete, if_neg Bool.false_ne_true]
    cases found : s.data.read chunkID with
    | none => exact .inside (.idle rfl rfl rfl)
    | some bytes => exact .removed found
  | addUsage size =>
    refine @Effect.counted s (.delete chunkID (.addUsage size)) _ rfl ⟨rfl, rfl⟩ ?_
    intro enough _ _
    have enough : (size : Int) ≤ s.usedBytes ∧ 1 ≤ s.chunkCount := by
      simpa [StoreCall.undisturbed] using enough
    show 0 ≤ s.usedBytes + -(size : Int) ∧ 0 ≤ s.chunkCount + -1
    omega
  | done result => exact .inside (.idle rfl rfl rfl)

/-- Every step of a call is one of these. -/
theorem effect (c : StoreCall) :
    Effect s c (c.advance fsync s amount).1 (c.advance fsync s amount).2 := by
  cases c with
  | write call pc => exact effect_write call pc
  | delete chunkID pc => exact effect_delete chunkID pc

end Effects

section Ownership

/-- The temporary file was made by this process and has what the call has put there. -/
structure Owns (s : ChunkStore) (c : StoreCall) : Prop where
  issued : ∀ tmp, c.tempFile = some tmp → tmp.2 ≤ s.tempSeq
  staged : ∀ tmp bytes, c.staged = some (tmp, bytes) → s.temp.read tmp = some bytes

def Apart (c d : StoreCall) : Prop := ∀ tmp, c.tempFile = some tmp → d.tempFile ≠ some tmp

theorem Apart.symm {c d : StoreCall} (apart : Apart c d) : Apart d c :=
  fun tmp held other => apart tmp other held

variable {s s' : ChunkStore} {c c' d : StoreCall}

/-- Nothing is asked of a call without a temporary file. -/
theorem Owns.of_idle (none_ : c.tempFile = none) : Owns s c := by
  refine ⟨fun tmp held => ?_, fun tmp bytes held => ?_⟩
  · rw [none_] at held
    cases held
  · rw [StoreCall.staged_eq_none none_] at held
    cases held

/-- The call itself goes on with what it has written. -/
theorem Owns.own (owns : Owns s c) (effect : Effect s c s' c') : Owns s' c' := by
  cases effect with
  | inside continues =>
    exact ⟨fun tmp held => owns.issued tmp (continues.tempFile tmp held),
      fun tmp bytes held => owns.staged tmp bytes (continues.staged _ held)⟩
  | taken continues =>
    exact ⟨fun tmp held => (owns.issued tmp (continues.tempFile tmp held)).trans
        (Nat.le_succ _),
      fun tmp bytes held => owns.staged tmp bytes (continues.staged _ held)⟩
  | created new =>
    refine ⟨fun tmp held => ?_, fun tmp bytes held => ?_⟩
    · rw [← Option.some.inj held]
      exact new.le
    · obtain ⟨rfl, rfl⟩ := Prod.mk.inj (Option.some.inj held)
      show (s.temp.put _ _).read _ = _
      rw [Directory.read_put, if_pos rfl]
  | copied =>
    refine ⟨owns.issued, fun tmp bytes held => ?_⟩
    obtain ⟨rfl, rfl⟩ := Prod.mk.inj (Option.some.inj held)
    show (s.temp.put _ _).read _ = _
    rw [Directory.read_put, if_pos rfl]
  | renamed staged next => obtain rfl | rfl := next <;> exact .of_idle rfl
  | cleaned | removed found => exact .of_idle rfl
  | counted idle settled covered => exact .of_idle idle

/-- The number of names that were given out never falls. -/
theorem Effect.seq_le (effect : Effect s c s' c') : s.tempSeq ≤ s'.tempSeq := by
  cases effect with
  | taken | created => exact Nat.le_succ _
  | inside | copied | renamed | cleaned | removed | counted => exact Nat.le_refl _

/-- A step leaves the temporary files of the other calls alone. -/
theorem Effect.read_other (effect : Effect s c s' c') {name : TempName}
    (old : name.2 ≤ s.tempSeq) (other : c.tempFile ≠ some name) :
    s'.temp.read name = s.temp.read name := by
  have removed {tmp : TempName} (different : some tmp ≠ some name) :
      (s.temp.remove tmp).read name = s.temp.read name := by
    rw [Directory.read_remove, if_neg fun same => different (congrArg some same.symm)]
  have put {tmp : TempName} (bytes : Bytes) (different : some tmp ≠ some name) :
      (s.temp.put tmp bytes).read name = s.temp.read name := by
    rw [Directory.read_put, if_neg fun same => different (congrArg some same.symm)]
  cases effect with
  | created new =>
    refine put _ fun same => ?_
    rw [← Option.some.inj same, new] at old
    exact absurd old (Nat.not_succ_le_self _)
  | copied => exact put _ other
  | renamed | cleaned => exact removed other
  | inside | taken | removed | counted => rfl

/-- A name that a call did not have before is a new one. -/
theorem Effect.named (effect : Effect s c s' c') {tmp : TempName} (held : c'.tempFile = some tmp) :
    c.tempFile = some tmp ∨ s.tempSeq < tmp.2 := by
  cases effect with
  | inside continues | taken continues => exact Or.inl (continues.tempFile tmp held)
  | created new =>
    rw [← Option.some.inj held, new]
    exact Or.inr (Nat.lt_succ_self _)
  | copied => exact Or.inl held
  | renamed staged next => obtain rfl | rfl := next <;> cases held
  | cleaned | removed => cases held
  | counted idle =>
    rw [idle] at held
    cases held

/-- The other calls keep what they rely on, and stay apart. -/
theorem Owns.other (owns : Owns s d) (effect : Effect s c s' c') (apart : Apart c d) :
    Owns s' d ∧ Apart c' d := by
  refine ⟨⟨fun tmp held => (owns.issued tmp held).trans effect.seq_le,
    fun tmp bytes staged => ?_⟩, fun tmp held other => ?_⟩
  · have held : d.tempFile = some tmp := StoreCall.tempFile_of_staged staged
    rw [effect.read_other (owns.issued tmp held) fun own => apart tmp own held]
    exact owns.staged tmp bytes staged
  · obtain old | new := effect.named held
    · exact apart tmp old other
    · exact absurd (owns.issued tmp other) (Nat.not_le_of_lt new)

end Ownership

section Accounting

variable {s s' : ChunkStore} {c c' : StoreCall}

/-- How far the counters are from what a scan finds. -/
def surplusBytes (s : ChunkStore) : Int := s.usedBytes - s.data.size

def surplusChunks (s : ChunkStore) : Int := s.chunkCount - s.data.count

structure Nonneg (s : ChunkStore) : Prop where
  bytes : 0 ≤ s.usedBytes
  chunks : 0 ≤ s.chunkCount

theorem ChunkStore.addUsage_eq {bytes chunks : Int} (enough : 0 ≤ s.usedBytes + bytes)
    (some_ : 0 ≤ s.chunkCount + chunks) :
    s.addUsage bytes chunks =
      { s with usedBytes := s.usedBytes + bytes, chunkCount := s.chunkCount + chunks } := by
  unfold ChunkStore.addUsage
  rw [if_neg (Int.not_lt.mpr enough), if_neg (Int.not_lt.mpr some_)]

theorem Nonneg.step (nonneg : Nonneg s) (effect : Effect s c s' c') : Nonneg s' := by
  cases effect with
  | counted =>
    unfold ChunkStore.addUsage
    constructor
    · dsimp only
      split_ifs <;> omega
    · dsimp only
      split_ifs <;> omega
  | inside | taken | created | copied | renamed | cleaned | removed =>
    exact ⟨nonneg.bytes, nonneg.chunks⟩

/-- A step that is not disturbed owes what it has done to the directory. -/
theorem Effect.balanced (effect : Effect s c s' c') (owns : Owns s c) (nonneg : Nonneg s)
    (undisturbed : c.undisturbed s) :
    surplusBytes s' + c'.owedBytes = surplusBytes s + c.owedBytes ∧
      surplusChunks s' + c'.owedChunks = surplusChunks s + c.owedChunks := by
  cases effect with
  | inside continues | taken continues =>
    rw [continues.bytes, continues.chunks]
    exact ⟨rfl, rfl⟩
  | created | copied | cleaned => exact ⟨rfl, rfl⟩
  | @renamed call tmp written bytes pc staged next =>
    obtain rfl : bytes = written :=
      Option.some.inj (staged.symm.trans (owns.staged tmp written rfl))
    have fresh : s.data.read call.chunkID = none := of_decide_eq_true undisturbed
    obtain ⟨size, count⟩ := Directory.walk_put_new fresh bytes
    have owed : (StoreCall.write call pc).owedBytes = bytes.length ∧
        (StoreCall.write call pc).owedChunks = 1 := by
      obtain rfl | rfl := next <;> exact ⟨rfl, rfl⟩
    rw [owed.1, owed.2]
    show s.usedBytes - (s.data.put _ bytes).size + _ = s.usedBytes - s.data.size + 0 ∧
      s.chunkCount - (s.data.put _ bytes).count + 1 = s.chunkCount - s.data.count + 0
    omega
  | @removed chunkID size bytes found =>
    have sized : bytes.length = size := by
      simpa [StoreCall.undisturbed, found] using undisturbed
    obtain ⟨walked, count⟩ := Directory.walk_remove found
    show s.usedBytes - (s.data.remove _).size + -(size : Int) = s.usedBytes - s.data.size + 0 ∧
      s.chunkCount - (s.data.remove _).count + -1 = s.chunkCount - s.data.count + 0
    omega
  | counted idle settled covered =>
    obtain ⟨enough, some_⟩ := covered undisturbed nonneg.bytes nonneg.chunks
    rw [ChunkStore.addUsage_eq enough some_, settled.1, settled.2]
    unfold surplusBytes surplusChunks
    dsimp only
    omega

end Accounting

/-- The temporary files are apart, and the counters and what the calls owe are what a scan
finds. -/
structure StorePool.Accounted (s : StorePool) : Prop where
  separate : s.Separate Owns Apart
  nonneg : Nonneg s.shared
  bytes : s.balance surplusBytes StoreCall.owedBytes = 0
  chunks : s.balance surplusChunks StoreCall.owedChunks = 0

structure StoreCall.Fresh (c : StoreCall) : Prop where
  tempFile : c.tempFile = none
  bytes : c.owedBytes = 0
  chunks : c.owedChunks = 0

theorem StoreCall.fresh_write (call : WriteCall) :
    StoreCall.Fresh (.write call call.start) := by
  unfold WriteCall.start
  split_ifs <;> exact ⟨rfl, rfl, rfl⟩

theorem StoreCall.fresh_delete (chunkID : String) :
    StoreCall.Fresh (.delete chunkID (startDelete chunkID)) := by
  unfold startDelete
  split_ifs <;> exact ⟨rfl, rfl, rfl⟩

namespace StorePool.Accounted

variable {s : StorePool} {fsync : Bool}

theorem start_call (accounted : s.Accounted) {c : StoreCall} (fresh : c.Fresh) :
    Accounted (Pool.step (StoreCall.advance fsync) s (.start c)) where
  separate := by
    apply accounted.separate.started (.of_idle fresh.tempFile)
    intro other _ tmp _ held
    rw [fresh.tempFile] at held
    cases held
  nonneg := accounted.nonneg
  bytes := (Pool.balance_start fresh.bytes).trans accounted.bytes
  chunks := (Pool.balance_start fresh.chunks).trans accounted.chunks

theorem advance (accounted : s.Accounted) {i amount : Nat}
    (undisturbed : s.undisturbed (.advance i amount)) :
    Accounted (Pool.step (StoreCall.advance fsync) s (.advance i amount)) := by
  have owns {c : StoreCall} (found : s.calls[i]? = some c) : Owns s.shared c :=
    accounted.separate.owns c (List.mem_of_getElem? found)
  have balanced {c : StoreCall} (found : s.calls[i]? = some c) := by
    have fine : c.undisturbed s.shared := by
      simpa [StorePool.undisturbed, found] using undisturbed
    exact (@effect s.shared fsync amount c).balanced (owns found) accounted.nonneg fine
  refine ⟨?_, ?_, ?_, ?_⟩
  · exact accounted.separate.advanced Apart.symm (fun c _ held => held.own (effect c))
      fun c d _ held apart => held.other (effect c) apart
  · cases found : s.calls[i]? with
    | none =>
      rw [Pool.step, found]
      exact accounted.nonneg
    | some c =>
      rw [Pool.step, found]
      exact accounted.nonneg.step (effect c)
  · exact (Pool.balance_advance fun c found => (balanced found).1).trans accounted.bytes
  · exact (Pool.balance_advance fun c found => (balanced found).2).trans accounted.chunks

theorem step (accounted : s.Accounted) {e : StoreEvent} (undisturbed : s.undisturbed e) :
    Accounted (s.step fsync e) := by
  cases e with
  | write call => exact accounted.start_call (StoreCall.fresh_write call)
  | delete chunkID => exact accounted.start_call (StoreCall.fresh_delete chunkID)
  | advance i amount => exact accounted.advance undisturbed

end StorePool.Accounted

/-- A store starts with what it has counted. -/
theorem StorePool.accounted_start (data : Directory String UInt8)
    (temp : Directory TempName UInt8) : (StorePool.start data temp).Accounted where
  separate := ⟨fun _ listed => absurd listed List.not_mem_nil, List.Pairwise.nil⟩
  nonneg := ⟨data.size_nonneg, Int.natCast_nonneg _⟩
  bytes := by
    show data.size - data.size + 0 = 0
    omega
  chunks := by
    show data.count - data.count + 0 = 0
    omega

theorem StoreCall.owed_of_returned {c : StoreCall} (returned : c.returned) :
    c.owedBytes = 0 ∧ c.owedChunks = 0 := by
  revert returned
  unfold StoreCall.returned
  split
  · exact fun _ => ⟨rfl, rfl⟩
  · exact fun _ => ⟨rfl, rfl⟩
  · exact fun returned => absurd returned Bool.false_ne_true

/-- When every call has returned, nothing is owed. -/
theorem StorePool.Accounted.exact {s : StorePool} (accounted : s.Accounted) : s.Exact := by
  intro returned
  have nothing (owed : StoreCall → Int) (zero : ∀ c ∈ s.calls, owed c = 0) :
      (s.calls.map owed).sum = 0 := by
    refine List.sum_eq_zero fun n listed => ?_
    obtain ⟨c, member, rfl⟩ := List.mem_map.mp listed
    exact zero c member
  have bytes := accounted.bytes
  have chunks := accounted.chunks
  unfold Pool.balance at bytes chunks
  rw [nothing _ fun c member => (StoreCall.owed_of_returned (returned c member)).1] at bytes
  rw [nothing _ fun c member => (StoreCall.owed_of_returned (returned c member)).2] at chunks
  unfold surplusBytes at bytes
  unfold surplusChunks at chunks
  show s.shared.usedBytes = s.shared.data.size ∧ s.shared.chunkCount = s.shared.data.count
  omega

/-- In a run whose steps are not disturbed the counters are exact whenever no call is under
way. -/
theorem usage_exact {fsync : Bool} {data : Directory String UInt8}
    {temp : Directory TempName UInt8} {events : List StoreEvent}
    (undisturbed : Guarded (StorePool.step fsync) (fun s e => s.undisturbed e)
      (StorePool.start data temp) events) :
    Always (StorePool.step fsync) StorePool.Exact (StorePool.start data temp) events := by
  refine Always.mono (fun s accounted => StorePool.Accounted.exact accounted) ?_
  exact always_of_preserved (fun s e accounted fine => StorePool.Accounted.step accounted fine)
    (StorePool.accounted_start data temp) undisturbed

def byteChunk (b : UInt8) (expected : Expected) : WriteCall where
  chunkID := "00000000-0000-0000-0000-000000000000"
  source := ([b], none)
  expectedSize := 1
  expected := expected

/-- A write, a deletion that starts when it has returned, and a write of the same chunk. -/
def writeDeleteWrite : List StoreEvent :=
  [.write (byteChunk 7 .absent)] ++ List.replicate 10 (.advance 0 0) ++
    [.delete (byteChunk 7 .absent).chunkID] ++ List.replicate 3 (.advance 1 0) ++
    [.write (byteChunk 8 .absent)] ++ List.replicate 10 (.advance 2 0)

theorem usage_exact_writeDeleteWrite :
    Always (StorePool.step true) StorePool.Exact (StorePool.start Table.empty Table.empty)
        writeDeleteWrite ∧
      (run (StorePool.step true) (StorePool.start Table.empty Table.empty)
        writeDeleteWrite).calls.all (·.returned) = true :=
  ⟨usage_exact (by decide +kernel), by decide +kernel⟩

/-- A chunk is written with its checksum, and when that has returned it is written with other
bytes and their checksum. -/
def writtenTwice : StorePool :=
  run (StorePool.step true) (StorePool.start Table.empty Table.empty)
    ([.write (byteChunk 7 (.digest (sha256 [7])))] ++ List.replicate 10 (.advance 0 0) ++
      [.write (byteChunk 8 (.digest (sha256 [8])))] ++ List.replicate 11 (.advance 1 0))

theorem StorePool.Exact.usedBytes_eq {s : StorePool} (exact : s.Exact)
    (returned : s.calls.all (·.returned) = true) : s.shared.usedBytes = s.shared.data.size :=
  (exact (List.all_eq_true.mp returned)).1

/-- Both writes have returned and were counted, but there is one file. -/
theorem rewritten_chunk_counted_twice :
    (writtenTwice.calls.all (·.returned) = true ∧
      (writtenTwice.shared.usedBytes, writtenTwice.shared.chunkCount) = (2, 2) ∧
      (writtenTwice.shared.data.size, writtenTwice.shared.data.count) = (1, 1)) ∧
      ¬writtenTwice.Exact := by
  have counted : writtenTwice.calls.all (·.returned) = true ∧
      (writtenTwice.shared.usedBytes, writtenTwice.shared.chunkCount) = (2, 2) ∧
      (writtenTwice.shared.data.size, writtenTwice.shared.data.count) = (1, 1) := by
    decide +kernel
  refine ⟨counted, fun exact => ?_⟩
  obtain ⟨returned, usage, walked⟩ := counted
  have same := exact.usedBytes_eq returned
  rw [(Prod.mk.inj usage).1, (Prod.mk.inj walked).1] at same
  exact absurd same (by decide)

end FlexStore.Storage
