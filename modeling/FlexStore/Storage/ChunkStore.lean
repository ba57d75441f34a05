import FlexStore.FileSystem.Directory
import FlexStore.Storage.Node
import FlexStore.Transition.Run

/-!
# The chunk store, call by call

`ChunkStore.Write` and `ChunkStore.Delete` as sequences of steps, each with at most one call
of the file system. What the file system does is a `Choice`: whether the call fails, and how
many bytes a write moves. A write goes to a temporary file, which is published by a rename;
the usage counters are moved afterwards, in a step of their own. A process that is killed
leaves the files as the last step has left them, and `newChunkStore` starts from there.

Without failures a write computes what `write` says of the visible file.
-/

namespace FlexStore.Storage

open Digest FileSystem Go Transition

/-- Rejects anything that is not a bare UUID. -/
def validateChunkID (id : String) : Bool :=
  id.length = 36 && id.toList.zipIdx.all fun p =>
    if p.2 = 8 ∨ p.2 = 13 ∨ p.2 = 18 ∨ p.2 = 23 then p.1 = '-'
    else ('0' ≤ p.1 && p.1 ≤ '9') || ('a' ≤ p.1 && p.1 ≤ 'f')

/-- The checksum that a write is to have: none, one that is no digest, or a digest. -/
inductive Expected where
  | absent
  | malformed
  | digest (sum : BitVec 256)
  deriving DecidableEq, Repr

def Expected.sum : Expected → Option (BitVec 256)
  | .digest sum => some sum
  | _ => none

/-- The arguments of a write. The source delivers its bytes and then ends or fails. -/
structure WriteCall where
  chunkID : String
  source : Bytes × Option Error
  expectedSize : Int
  expected : Expected

inductive WriteFailure where
  | invalidChunkID
  | invalidChecksum
  | createDirectory
  | createTemp
  | source (err : Error)
  | writeTemp
  | wrongSize (written declared : Int)
  | fsync
  | close
  | mismatch
  | publish
  | fsyncDirectory
  deriving DecidableEq, Repr

/-- A temporary file is named after its chunk and a sequence number. -/
abbrev TempName := String × Nat

/-- The chunk files, the temporary files, and what the process keeps in memory. -/
structure ChunkStore where
  data : Directory String UInt8
  temp : Directory TempName UInt8
  usedBytes : Int
  chunkCount : Int
  tempSeq : Nat

/-- Moves the counters, which never fall below zero. -/
def ChunkStore.addUsage (s : ChunkStore) (bytes chunks : Int) : ChunkStore :=
  { s with
    usedBytes := if s.usedBytes + bytes < 0 then 0 else s.usedBytes + bytes
    chunkCount := if s.chunkCount + chunks < 0 then 0 else s.chunkCount + chunks }

/-- Starts on the files that are there: temporary files are removed, and the usage is what a
scan of the chunk files finds. -/
def newChunkStore (data : Directory String UInt8) (temp : Directory TempName UInt8) :
    ChunkStore where
  data
  temp := temp.clear
  usedBytes := data.size
  chunkCount := data.count
  tempSeq := 0

/-- What the file system does with a call, and the number of bytes that a write moves. -/
structure Choice where
  fails : Bool
  amount : Nat

inductive WritePc where
  | stat
  | verify
  | mkdir
  | create
  | copy (tmp : TempName) (copied : Bytes)
  | sync (tmp : TempName) (written : Bytes)
  | close (tmp : TempName) (written : Bytes)
  | rename (tmp : TempName) (written : Bytes)
  | syncDir (written : Bytes)
  | addUsage (written : Bytes)
  | cleanup (tmp : TempName) (failure : WriteFailure)
  | done (result : Except WriteFailure WriteResult)

namespace WriteCall

/-- The checks of the arguments, before any call of the file system. -/
def start (call : WriteCall) : WritePc :=
  if validateChunkID call.chunkID = false then .done (.error .invalidChunkID)
  else if call.expected = .malformed then .done (.error .invalidChecksum)
  else .stat

/-- What follows when the source is exhausted. -/
def copied (fsync : Bool) (call : WriteCall) (tmp : TempName) (written : Bytes) : WritePc :=
  match call.source.2 with
  | some err => .cleanup tmp (.source err)
  | none =>
    if 0 ≤ call.expectedSize ∧ (written.length : Int) ≠ call.expectedSize then
      .cleanup tmp (.wrongSize written.length call.expectedSize)
    else if fsync then .sync tmp written
    else .close tmp written

/-- One step of `ChunkStore.Write`. A temporary file that was not published is removed, and
whether that fails is not looked at. -/
def advance (fsync : Bool) (call : WriteCall) (s : ChunkStore) (c : Choice) :
    WritePc → ChunkStore × WritePc
  | .stat =>
    if c.fails ∨ s.data.read call.chunkID = none then (s, .mkdir) else (s, .verify)
  | .verify =>
    match s.data.read call.chunkID with
    | none => (s, .mkdir)
    | some bytes =>
      if c.fails = false ∧ call.expected.sum.all (· = sha256 bytes) then
        (s, .done (.ok ⟨bytes.length, sha256 bytes, true⟩))
      else (s, .mkdir)
  | .mkdir => if c.fails then (s, .done (.error .createDirectory)) else (s, .create)
  | .create =>
    let tmp := (call.chunkID, s.tempSeq + 1)
    let s := { s with tempSeq := s.tempSeq + 1 }
    if c.fails ∨ s.temp.read tmp ≠ none then (s, .done (.error .createTemp))
    else ({ s with temp := s.temp.put tmp [] }, .copy tmp [])
  | .copy tmp copied =>
    let rest := call.source.1.drop copied.length
    if rest = [] then (s, call.copied fsync tmp copied)
    else
      let copied := copied ++ rest.take (if c.fails then c.amount else c.amount + 1)
      ({ s with temp := s.temp.put tmp copied },
        if c.fails then .cleanup tmp .writeTemp else .copy tmp copied)
  | .sync tmp written => if c.fails then (s, .cleanup tmp .fsync) else (s, .close tmp written)
  | .close tmp written =>
    if c.fails then (s, .cleanup tmp .close)
    else if call.expected.sum.any (· ≠ sha256 written) then (s, .cleanup tmp .mismatch)
    else (s, .rename tmp written)
  | .rename tmp written =>
    match s.temp.read tmp with
    | none => (s, .cleanup tmp .publish)
    | some bytes =>
      if c.fails then (s, .cleanup tmp .publish)
      else
        ({ s with data := s.data.put call.chunkID bytes, temp := s.temp.remove tmp },
          if fsync then .syncDir written else .addUsage written)
  | .syncDir written =>
    if c.fails then (s, .done (.error .fsyncDirectory)) else (s, .addUsage written)
  | .addUsage written =>
    (s.addUsage written.length 1, .done (.ok ⟨written.length, sha256 written, false⟩))
  | .cleanup tmp failure =>
    (if c.fails then s else { s with temp := s.temp.remove tmp }, .done (.error failure))
  | .done result => (s, .done result)

/-- The same on the store and the program counter together. -/
def step (fsync : Bool) (call : WriteCall) (s : ChunkStore × WritePc) (c : Choice) :
    ChunkStore × WritePc :=
  call.advance fsync s.1 c s.2

end WriteCall

inductive DeleteFailure where
  | invalidChunkID
  | stat
  | remove
  deriving DecidableEq, Repr

inductive DeletePc where
  | stat
  | remove (size : Nat)
  | addUsage (size : Nat)
  | done (result : Except DeleteFailure Bool)

def startDelete (chunkID : String) : DeletePc :=
  if validateChunkID chunkID = false then .done (.error .invalidChunkID) else .stat

/-- One step of `ChunkStore.Delete`. -/
def advanceDelete (chunkID : String) (s : ChunkStore) (c : Choice) :
    DeletePc → ChunkStore × DeletePc
  | .stat =>
    if c.fails then (s, .done (.error .stat))
    else
      match s.data.read chunkID with
      | none => (s, .done (.ok false))
      | some bytes => (s, .remove bytes.length)
  | .remove size =>
    if c.fails then (s, .done (.error .remove))
    else if s.data.read chunkID = none then (s, .done (.ok false))
    else ({ s with data := s.data.remove chunkID }, .addUsage size)
  | .addUsage size => (s.addUsage (-size) (-1), .done (.ok true))
  | .done result => (s, .done result)

section NoFailure

variable {fsync : Bool} {call : WriteCall} {data : Directory String UInt8} {s : ChunkStore}
  {tmp : TempName} {written : Bytes}

def Choice.Succeeds (c : Choice) : Prop := c.fails = false

/-- The write has returned what the model of the visible file says. -/
def Writes (data : Directory String UInt8) (call : WriteCall)
    (out : Except Error (WriteResult × Bytes)) (s : ChunkStore × WritePc) : Prop :=
  match out with
  | .ok r => s.2 = .done (.ok r.1) ∧ s.1.data.read call.chunkID = some r.2
  | .error _ => (∃ failure, s.2 = .done (.error failure)) ∧ s.1.data = data

theorem within_done {result : Except WriteFailure WriteResult} {P : ChunkStore × WritePc → Prop}
    (holds : P (s, .done result)) :
    Within (call.step fsync) Choice.Succeeds 0 (s, .done result) P :=
  Within.stay (fun _ => rfl) holds

theorem within_cleanup {failure : WriteFailure} {err : Error} (same : s.data = data) :
    Within (call.step fsync) Choice.Succeeds 1 (s, .cleanup tmp failure)
      (Writes data call (.error err)) := by
  refine Within.next fun c fine => within_done ⟨⟨_, rfl⟩, ?_⟩
  rw [fine]
  exact same

/-- From the rename on the write succeeds with what is in its temporary file. -/
theorem within_rename (held : s.temp.read tmp = some written) :
    Within (call.step fsync) Choice.Succeeds 3 (s, .rename tmp written)
      (Writes data call (.ok (⟨written.length, sha256 written, false⟩, written))) := by
  have counted {s : ChunkStore} (there : s.data.read call.chunkID = some written) :
      Within (call.step fsync) Choice.Succeeds 1 (s, .addUsage written)
        (Writes data call (.ok (⟨written.length, sha256 written, false⟩, written))) :=
    Within.next fun c _ => within_done ⟨rfl, there⟩
  refine Within.next fun c fine => ?_
  have there : (s.data.put call.chunkID written).read call.chunkID = some written := by
    rw [Directory.read_put, if_pos rfl]
  simp only [WriteCall.step, WriteCall.advance, held, show c.fails = false from fine]
  cases fsync with
  | true =>
    refine Within.next fun c fine => ?_
    simp only [WriteCall.step, WriteCall.advance, show c.fails = false from fine]
    exact counted there
  | false => exact (counted there).mono (by decide)

/-- The verification before it, for a source that ended. -/
theorem within_close (held : s.temp.read tmp = some written) (same : s.data = data)
    (sized : ¬(0 ≤ call.expectedSize ∧ (written.length : Int) ≠ call.expectedSize)) :
    Within (call.step fsync) Choice.Succeeds 4 (s, .close tmp written)
      (Writes data call (writeNew (written, none) call.expectedSize call.expected.sum)) := by
  refine Within.next fun c fine => ?_
  simp only [WriteCall.step, WriteCall.advance, writeNew, if_neg sized,
    show c.fails = false from fine]
  by_cases differs : call.expected.sum.any (· ≠ sha256 written) = true
  · simp only [if_pos differs]
    exact (within_cleanup same).mono (by decide)
  · simp only [if_neg differs]
    exact within_rename held

/-- What follows when the source is exhausted. -/
theorem within_copied (held : s.temp.read tmp = some written) (same : s.data = data)
    (all : call.source.1 = written) :
    Within (call.step fsync) Choice.Succeeds 5 (s, call.copied fsync tmp written)
      (Writes data call (writeNew call.source call.expectedSize call.expected.sum)) := by
  obtain ⟨id, ⟨bytes, ending⟩, size, expected⟩ := call
  obtain rfl : bytes = written := all
  cases ending with
  | some err => exact (within_cleanup same).mono (by decide)
  | none =>
    unfold WriteCall.copied
    dsimp only
    split_ifs with wrong
    · rw [writeNew, if_pos wrong]
      exact (within_cleanup same).mono (by decide)
    · refine Within.next fun c fine => ?_
      simp only [WriteCall.step, WriteCall.advance, show c.fails = false from fine]
      exact within_close held same wrong
    · exact (within_close held same wrong).mono (by decide)

/-- The copy loop moves at least one byte in each turn. -/
theorem within_copy {copied rest : Bytes} (held : s.temp.read tmp = some copied)
    (same : s.data = data) (split : call.source.1 = copied ++ rest) :
    Within (call.step fsync) Choice.Succeeds (rest.length + 6) (s, .copy tmp copied)
      (Writes data call (writeNew call.source call.expectedSize call.expected.sum)) := by
  induction h : rest.length using Nat.strong_induction_on generalizing s copied rest with
  | _ n ih =>
    have left : call.source.1.drop copied.length = rest := by
      rw [split, List.drop_left]
    refine Within.next fun c fine => ?_
    simp only [WriteCall.step, WriteCall.advance, left, show c.fails = false from fine]
    by_cases empty : rest = []
    · simp only [if_pos empty]
      have all : call.source.1 = copied := by rw [split, empty, List.append_nil]
      exact (within_copied held same all).mono (by omega)
    · simp only [if_neg empty]
      have some_ : 0 < rest.length := List.length_pos_iff.mpr empty
      have fewer : (rest.drop (c.amount + 1)).length < n := by
        rw [List.length_drop]
        omega
      have rest_ : call.source.1 = (copied ++ rest.take (c.amount + 1)) ++
          rest.drop (c.amount + 1) := by
        rw [split, List.append_assoc, List.take_append_drop]
      refine Within.mono (ih _ fewer ?_ same rest_ rfl) (Nat.add_le_add_right fewer 5)
      rw [Directory.read_put, if_pos rfl]

/-- Without failures of the file system a write returns, and what it returns and leaves
visible is what the model of a storage node says. -/
theorem within_write (fsync : Bool) (valid : validateChunkID call.chunkID = true)
    (wellFormed : call.expected ≠ .malformed)
    (fresh : s.temp.read (call.chunkID, s.tempSeq + 1) = none) :
    Within (call.step fsync) Choice.Succeeds (call.source.1.length + 10) (s, call.start)
      (Writes s.data call (write (s.data.read call.chunkID) call.source call.expectedSize
        call.expected.sum)) := by
  have created : Within (call.step fsync) Choice.Succeeds (call.source.1.length + 7) (s, .create)
      (Writes s.data call (writeNew call.source call.expectedSize call.expected.sum)) := by
    refine Within.next fun c fine => ?_
    simp only [WriteCall.step, WriteCall.advance, show c.fails = false from fine,
      Bool.false_eq_true, false_or, fresh, ne_eq, not_true_eq_false, if_false]
    refine within_copy ?_ rfl (List.nil_append _).symm
    rw [Directory.read_put, if_pos rfl]
  have new : Within (call.step fsync) Choice.Succeeds (call.source.1.length + 8) (s, .mkdir)
      (Writes s.data call (writeNew call.source call.expectedSize call.expected.sum)) := by
    refine Within.next fun c fine => ?_
    simp only [WriteCall.step, WriteCall.advance, show c.fails = false from fine,
      Bool.false_eq_true, if_false]
    exact created
  have begun : call.start = .stat := by
    unfold WriteCall.start
    rw [if_neg (by simp [valid]), if_neg wellFormed]
  rw [begun]
  refine Within.next fun c fine => ?_
  cases found : s.data.read call.chunkID with
  | none =>
    simp only [WriteCall.step, WriteCall.advance, found, or_true, if_true]
    exact new.mono (by omega)
  | some bytes =>
    simp only [WriteCall.step, WriteCall.advance, show c.fails = false from fine, found,
      Bool.false_eq_true, reduceCtorEq, or_self, if_false]
    refine Within.next fun c fine => ?_
    simp only [WriteCall.step, WriteCall.advance, found, show c.fails = false from fine, write,
      true_and]
    by_cases kept : call.expected.sum.all (· = sha256 bytes) = true
    · simp only [if_pos kept]
      refine Within.mono (within_done ?_) (Nat.zero_le _)
      exact ⟨rfl, found⟩
    · simp only [if_neg kept]
      exact new

end NoFailure

end FlexStore.Storage
