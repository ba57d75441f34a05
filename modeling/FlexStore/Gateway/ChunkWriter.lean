import FlexStore.Coordinator.Service
import FlexStore.Storage.Node

/-!
# Replica fan-out

`write` sends one chunk to every placement target and waits for all of them. What the
nodes and the network contribute is a `Fanout`: for each node whether its call goes
through or fails, and the order in which the targets finish. A call that goes through is
handled by the storage service; a failed one may leave any file behind.

The nodes keep, beside their files, a log of the answers they gave and of the file that
each of them held at that moment. Since the targets are distinct, the log of a fan-out is
one independent answer for each target (`foldl_writeTarget`).
-/

namespace FlexStore.Gateway

open Coordinator Digest Go Metadata Rpc Storage

/-- What one node answered to a write of a chunk, and the chunk's visible file when it did. -/
structure Answer where
  chunkID : UUID
  nodeID : NodeID
  acknowledged : Bool
  held : Option Bytes
  deriving DecidableEq, Repr

/-- The storage nodes: their visible files, and what they answered so far. -/
structure Nodes where
  files : UUID → NodeID → Option Bytes
  answers : List Answer

inductive Delivery where
  | served
  | failed (left : Option Bytes)

structure Fanout where
  delivery : NodeID → Delivery
  /-- The targets in the order in which they finish. -/
  finish : List NodeID → List NodeID
  perm : ∀ targets, (finish targets).Perm targets

structure WriteResult where
  succeeded : List NodeID
  failed : List NodeID
  deriving DecidableEq, Repr

/-- The two ways in which too few replicas acknowledge a write. -/
inductive WriteError where
  | noTargets
  | durability (stored targets required : Int)
  deriving DecidableEq, Repr

/-- The checks on a node's response. -/
def acknowledges (data : Bytes) (sum : Checksum) : Except Code Storage.WriteResult → Bool
  | .ok resp => resp.bytesWritten = data.length && resp.checksum = sum
  | .error _ => false

/-- One call of `StoreChunk`: a header and the data in frames. -/
def writeOne (fan : Fanout) (chunkID : UUID) (data : Bytes) (sum : Checksum)
    (file : Option Bytes) (nodeID : NodeID) : Answer :=
  match fan.delivery nodeID with
  | .failed left => ⟨chunkID, nodeID, false, left⟩
  | .served =>
    let (resp, file) := storeChunk file ⟨data.length, some sum⟩
      (frames streamFrameSize data.length data) (.leaf .eof)
    ⟨chunkID, nodeID, acknowledges data sum resp, file⟩

/-- A node that finishes is appended to one of the two lists. -/
def WriteResult.record (res : WriteResult) (a : Answer) : WriteResult :=
  if a.acknowledged then { res with succeeded := res.succeeded ++ [a.nodeID] }
  else { res with failed := res.failed ++ [a.nodeID] }

def Nodes.answer (nodes : Nodes) (a : Answer) : Nodes where
  files c n := if c = a.chunkID ∧ n = a.nodeID then a.held else nodes.files c n
  answers := nodes.answers ++ [a]

/-- The log of one chunk, among all answers. -/
def Nodes.log (nodes : Nodes) (c : UUID) : List Answer := nodes.answers.filter (·.chunkID = c)

def writeTarget (fan : Fanout) (chunkID : UUID) (data : Bytes) (sum : Checksum)
    (s : WriteResult × Nodes) (nodeID : NodeID) : WriteResult × Nodes :=
  let a := writeOne fan chunkID data sum (s.2.files chunkID nodeID) nodeID
  (s.1.record a, s.2.answer a)

/-- Sends data to every target and returns once all have finished. -/
def write (fan : Fanout) (chunkID : UUID) (data : Bytes) (sum : Checksum)
    (targets : List NodeID) (minReplicas : Int) (nodes : Nodes) :
    WriteResult × Option WriteError × Nodes :=
  if targets = [] then (⟨[], []⟩, some .noTargets, nodes)
  else
    let (res, nodes) :=
      (fan.finish targets).foldl (writeTarget fan chunkID data sum) (⟨[], []⟩, nodes)
    let error : Option WriteError :=
      if (res.succeeded.length : Int) < minReplicas then
        some (.durability res.succeeded.length targets.length minReplicas)
      else none
    (res, error, nodes)

variable {fan : Fanout} {chunkID : UUID} {data : Bytes} {sum : Checksum}

variable {nodes : Nodes}

@[simp] theorem writeOne_chunkID (file : Option Bytes) (n : NodeID) :
    (writeOne fan chunkID data sum file n).chunkID = chunkID := by
  unfold writeOne
  split <;> rfl

@[simp] theorem writeOne_nodeID (file : Option Bytes) (n : NodeID) :
    (writeOne fan chunkID data sum file n).nodeID = n := by
  unfold writeOne
  split <;> rfl

/-- A node that acknowledged holds a file with the digest, and a node that held none before
holds the data. -/
theorem writeOne_acknowledged {file : Option Bytes} {n : NodeID}
    (acknowledged : (writeOne fan chunkID data sum file n).acknowledged = true) :
    ∃ bytes, (writeOne fan chunkID data sum file n).held = some bytes ∧ sha256 bytes = sum ∧
      (file = none → bytes = data) := by
  unfold writeOne at acknowledged ⊢
  cases delivered : fan.delivery n with
  | failed left => simp [delivered] at acknowledged
  | served =>
    simp only [delivered, storeChunk] at acknowledged ⊢
    cases written : Storage.write file (copy streamRead
        ⟨frames streamFrameSize data.length data, .leaf .eof, [], false⟩) data.length
        (some sum) with
    | error e => simp [written, acknowledges] at acknowledged
    | ok out =>
      obtain ⟨res, bytes⟩ := out
      obtain ⟨digest, -, -, source⟩ := write_ok written
      refine ⟨bytes, rfl, digest, fun empty => ?_⟩
      rcases source with held | taken
      · simp [empty] at held
      · rw [copy_frames fun _ => copy_streamRead] at taken
        exact (Prod.mk.inj taken).1.symm

section Log

variable {log : List Answer}

theorem succeeded_foldl_record (res : WriteResult) : (log.foldl WriteResult.record res).succeeded =
    res.succeeded ++ (log.filter (·.acknowledged)).map (·.nodeID) := by
  induction log generalizing res with
  | nil => simp
  | cons a rest ih => cases h : a.acknowledged <;> simp [ih, WriteResult.record, h]

theorem failed_foldl_record (res : WriteResult) : (log.foldl WriteResult.record res).failed =
    res.failed ++ (log.filter (!·.acknowledged)).map (·.nodeID) := by
  induction log generalizing res with
  | nil => simp
  | cons a rest ih => cases h : a.acknowledged <;> simp [ih, WriteResult.record, h]

theorem answers_foldl_answer (nodes : Nodes) :
    (log.foldl Nodes.answer nodes).answers = nodes.answers ++ log := by
  induction log generalizing nodes with
  | nil => simp
  | cons a rest ih => simp [ih, Nodes.answer]

theorem log_foldl_answer_self {c : UUID} (mine : ∀ a ∈ log, a.chunkID = c) :
    (log.foldl Nodes.answer nodes).log c = nodes.log c ++ log := by
  have all : log.filter (·.chunkID = c) = log :=
    List.filter_eq_self.mpr fun a member => by simp [mine a member]
  rw [Nodes.log, answers_foldl_answer, List.filter_append, all, Nodes.log]

theorem log_foldl_answer_other {c d : UUID} (mine : ∀ a ∈ log, a.chunkID = c) (other : d ≠ c) :
    (log.foldl Nodes.answer nodes).log d = nodes.log d := by
  have nothing : log.filter (·.chunkID = d) = [] :=
    List.filter_eq_nil_iff.mpr fun a member => by simp [mine a member, other.symm]
  rw [Nodes.log, answers_foldl_answer, List.filter_append, nothing, List.append_nil, Nodes.log]

/-- A fan-out leaves the files alone that no answer of it speaks of. -/
theorem files_foldl_answer_of_not_mem {c : UUID} {n : NodeID}
    (other : ∀ a ∈ log, ¬(c = a.chunkID ∧ n = a.nodeID)) :
    (log.foldl Nodes.answer nodes).files c n = nodes.files c n := by
  induction log generalizing nodes with
  | nil => rfl
  | cons a rest ih =>
    rw [List.foldl_cons, ih fun b member => other b (List.mem_cons_of_mem a member)]
    exact if_neg (other a List.mem_cons_self)

/-- After a fan-out each node has the file that it answered with. -/
theorem files_foldl_answer_of_mem {a : Answer} (distinct : (log.map (·.nodeID)).Nodup)
    (member : a ∈ log) : (log.foldl Nodes.answer nodes).files a.chunkID a.nodeID = a.held := by
  induction log generalizing nodes with
  | nil => cases member
  | cons b rest ih =>
    rw [List.map_cons, List.nodup_cons] at distinct
    rw [List.foldl_cons]
    rcases List.mem_cons.mp member with rfl | later
    · rw [files_foldl_answer_of_not_mem fun x listed same =>
        distinct.1 (List.mem_map.mpr ⟨x, listed, same.2.symm⟩)]
      exact if_pos ⟨rfl, rfl⟩
    · exact ih distinct.2 later

end Log

/-- The answers of a fan-out: one for each target, from the file that it had. -/
def answersTo (fan : Fanout) (chunkID : UUID) (data : Bytes) (sum : Checksum) (nodes : Nodes)
    (order : List NodeID) : List Answer :=
  order.map fun n => writeOne fan chunkID data sum (nodes.files chunkID n) n

theorem mem_answersTo {order : List NodeID} {a : Answer}
    (member : a ∈ answersTo fan chunkID data sum nodes order) :
    a.chunkID = chunkID ∧
      a = writeOne fan chunkID data sum (nodes.files chunkID a.nodeID) a.nodeID := by
  obtain ⟨n, -, rfl⟩ := List.mem_map.mp member
  simp

theorem map_nodeID_answersTo (nodes : Nodes) (order : List NodeID) :
    (answersTo fan chunkID data sum nodes order).map (·.nodeID) = order := by
  simp [answersTo, Function.comp_def]

theorem foldl_writeTarget {order : List NodeID} (distinct : order.Nodup) (res : WriteResult)
    (nodes : Nodes) : order.foldl (writeTarget fan chunkID data sum) (res, nodes) =
      ((answersTo fan chunkID data sum nodes order).foldl WriteResult.record res,
        (answersTo fan chunkID data sum nodes order).foldl Nodes.answer nodes) := by
  induction order generalizing res nodes with
  | nil => rfl
  | cons n rest ih =>
    rw [List.nodup_cons] at distinct
    rw [List.foldl_cons, writeTarget, ih distinct.2]
    -- The first answer changes no file that a later one starts from.
    have later : answersTo fan chunkID data sum
        (nodes.answer (writeOne fan chunkID data sum (nodes.files chunkID n) n)) rest =
        answersTo fan chunkID data sum nodes rest := by
      refine List.map_congr_left fun m member => ?_
      have other : m ≠ n := fun same => distinct.1 (same ▸ member)
      simp [Nodes.answer, other]
    rw [later]
    rfl

/-- What a fan-out that met its quorum did. -/
theorem write_ok {targets : List NodeID} {minReplicas : Int} {nodes' : Nodes} {res : WriteResult}
    (distinct : targets.Nodup)
    (h : write fan chunkID data sum targets minReplicas nodes = (res, none, nodes')) :
    ∃ log, log = answersTo fan chunkID data sum nodes (fan.finish targets) ∧
      nodes' = log.foldl Nodes.answer nodes ∧
      res.succeeded = (log.filter (·.acknowledged)).map (·.nodeID) ∧
      res.failed = (log.filter (!·.acknowledged)).map (·.nodeID) ∧
      minReplicas ≤ res.succeeded.length := by
  unfold write at h
  split at h
  next => simp at h
  next =>
    simp only [foldl_writeTarget ((fan.perm targets).nodup_iff.mpr distinct), Prod.mk.injEq,
      ite_eq_right_iff, reduceCtorEq, imp_false, Int.not_lt] at h
    obtain ⟨rfl, enough, rfl⟩ := h
    exact ⟨_, rfl, rfl, by simp [succeeded_foldl_record], by simp [failed_foldl_record], enough⟩

/-- Whatever comes of it, each target is in one of the two lists. -/
theorem write_partition {targets : List NodeID} {minReplicas : Int} {nodes' : Nodes}
    {res : WriteResult} {err : Option WriteError} (distinct : targets.Nodup)
    (h : write fan chunkID data sum targets minReplicas nodes = (res, err, nodes')) :
    (res.succeeded ++ res.failed).Perm targets := by
  unfold write at h
  split at h
  next empty =>
    obtain ⟨rfl, -⟩ := Prod.mk.inj h
    rw [empty]
    rfl
  next =>
    simp only [foldl_writeTarget ((fan.perm targets).nodup_iff.mpr distinct), Prod.mk.injEq] at h
    obtain ⟨rfl, -⟩ := h
    rw [succeeded_foldl_record, failed_foldl_record, List.nil_append, List.nil_append,
      ← List.map_append]
    refine ((List.filter_append_perm _ _).map _).trans ?_
    rw [map_nodeID_answersTo]
    exact fan.perm targets

end FlexStore.Gateway
