import FlexStore.Go.Float
import FlexStore.Metadata.Types

/-!
# Placement strategies

Two strategies choose the nodes of a chunk. Both filter the known nodes in the same way;
one then draws nodes at random, weighted by free capacity and load, and one ranks them by a
hash of the chunk and the node. A strategy returns as many distinct nodes as were asked for
or an error.

The weighted strategy samples from a shrinking slice. Its loop is followed round by round:
what has been selected and what remains is the list of candidates, rearranged
(`Picking.Fair`), so with distinct identifiers no round meets a node that has been chosen,
whatever the sampler draws and whatever the arithmetic makes of the weights.
-/

namespace FlexStore.Placement

open Go FlexStore.Metadata

/-- The placement engine's view of a storage node. -/
structure NodeInfo where
  id : NodeID
  address : String
  health : Health
  totalBytes : Int
  usedBytes : Int
  availableBytes : Int
  activeRequests : Int
  chunkCount : Int
  deriving DecidableEq, Repr

/-- Everything a strategy needs to place one chunk. -/
structure Request where
  key : String
  replicas : Int
  chunkSize : Int
  exclude : List NodeID

def Request.excluded (req : Request) (id : NodeID) : Bool := req.exclude.any (· = id)

/-- Why no nodes are selected. The loop of the weighted strategy is bounded here by a number
of rounds, and would index past its slice if it had no candidate left. -/
inductive SelectError where
  | invalidRequest (detail : String)
  | insufficientNodes (detail : String)
  | stalled
  deriving DecidableEq, Repr

structure Config (F : Type) where
  allowSuspect : Bool
  capacityHeadroom : F
  loadPenalty : F
  minWeight : F

variable {F : Type} [Float64 F]

def defaultConfig : Config F where
  allowSuspect := false
  capacityHeadroom := 2.0
  loadPenalty := 1.0
  minWeight := 0.01

/-- Available capacity as a fraction of total capacity. -/
def NodeInfo.freeRatio (n : NodeInfo) : F :=
  if n.totalBytes ≤ 0 then 0.0
  else
    let r : F := Float64.ofInt n.availableBytes / Float64.ofInt n.totalBytes
    if Float64.lt r 0.0 then 0.0 else if Float64.lt 1.0 r then 1.0 else r

def required (cfg : Config F) (req : Request) : Int :=
  let headroom := if Float64.lt cfg.capacityHeadroom 1.0 then 1.0 else cfg.capacityHeadroom
  Float64.toInt (Float64.ofInt req.chunkSize * headroom)

/-- Health, capacity headroom and exclusion, the same for every strategy. -/
def eligible (cfg : Config F) (req : Request) (n : NodeInfo) : Bool :=
  n.health ≠ .dead && n.health ≠ .unknown && (n.health ≠ .suspect || cfg.allowSuspect) &&
    required cfg req ≤ n.availableBytes && !req.excluded n.id

def eligibleNodes (cfg : Config F) (nodes : List NodeInfo) (req : Request) : List NodeInfo :=
  nodes.filter (eligible cfg req)

/-- Free capacity, damped by load and by suspicion, and never below the minimum. -/
def capacityWeight (cfg : Config F) (n : NodeInfo) : F :=
  let free : F := n.freeRatio
  let damped := if Float64.lt 0.0 cfg.loadPenalty then
      free / (1.0 + cfg.loadPenalty * Float64.ofInt n.activeRequests)
    else free
  let weight := if n.health = .suspect then damped * 0.1 else damped
  if Float64.lt weight cfg.minWeight then cfg.minWeight else weight

structure Scored (F : Type) where
  node : NodeInfo
  score : F

/-- `sort.Slice` by descending score, ties broken by the node's identifier. -/
def ranked (sorter : Sorter) (items : List (Scored F)) : List (Scored F) :=
  sorter.sort (fun a b =>
    if Float64.eq a.score b.score then a.node.id < b.node.id
    else Float64.lt b.score a.score) items

/-- The arguments that no strategy accepts. -/
def validate (req : Request) : Except SelectError Unit :=
  let replicas := req.replicas
  let chunkSize := req.chunkSize
  if replicas < 1 then .error (.invalidRequest s!"replicas must be >= 1, got {replicas}")
  else if chunkSize < 0 then
    .error (.invalidRequest s!"chunkSize must be >= 0, got {chunkSize}")
  else .ok ()

def tooFew (replicas : Int) (have_ known : Nat) : SelectError :=
  .insufficientNodes s!"need {replicas}, have {have_} eligible of {known} known"

namespace Weighted

def score (cfg : Config F) (n : NodeInfo) : F := capacityWeight cfg n

/-- The eligible nodes with their weights, the heaviest first. -/
def candidates (sorter : Sorter) (cfg : Config F) (nodes : List NodeInfo) (req : Request) :
    List (Scored F) :=
  ranked sorter ((eligibleNodes cfg nodes req).map fun n => ⟨n, score cfg n⟩)

def total (items : List (Scored F)) : F :=
  items.foldl (fun sum it => if Float64.lt 0.0 it.score then sum + it.score else sum) 0.0

/-- The first position whose accumulated weight is above the target. -/
def locate (target : F) : F → Nat → List (Scored F) → Option Nat
  | _, _, [] => none
  | acc, i, it :: rest =>
    if Float64.le it.score 0.0 then locate target acc (i + 1) rest
    else if Float64.lt target (acc + it.score) then some i
    else locate target (acc + it.score) (i + 1) rest

/-- Draws one index in proportion to the weights, from a source of any values. There is none
if no weight is positive. -/
def sampleIndex (items : List (Scored F)) (rng : Nat → F) : Option Nat × (Nat → F) :=
  if Float64.le (total items) 0.0 then (none, rng)
  else
    let target := rng 0 * total items
    (some ((locate target 0.0 0 items).getD (items.length - 1)), fun k => rng (k + 1))

structure Picking (F : Type) where
  rng : Nat → F
  selected : List NodeInfo
  chosen : List NodeID
  remaining : List (Scored F)

/-- One round: sample, take the node unless it has been chosen, and remove it. -/
def Picking.round (s : Picking F) : Option (Picking F) :=
  let sampled := sampleIndex s.remaining s.rng
  let idx := sampled.1.getD 0
  (s.remaining[idx]?).map fun pick =>
    if pick.node.id ∈ s.chosen then
      { s with rng := sampled.2, remaining := s.remaining.eraseIdx idx }
    else
      { rng := sampled.2
        selected := s.selected ++ [pick.node]
        chosen := s.chosen ++ [pick.node.id]
        remaining := s.remaining.eraseIdx idx }

/-- The selection loop, with the number of its rounds. -/
def selectLoop (replicas : Int) : Nat → Picking F → Option (Picking F × Nat)
  | 0, _ => none
  | fuel + 1, s =>
    if replicas ≤ s.selected.length then some (s, 0)
    else
      match s.round with
      | none => none
      | some s' =>
        if s'.remaining = [] then some (s', 1)
        else (selectLoop replicas fuel s').map fun out => (out.1, out.2 + 1)

/-- `Weighted.SelectNodes`. -/
def selectNodes (sorter : Sorter) (cfg : Config F) (rng : Nat → F) (nodes : List NodeInfo)
    (req : Request) : Except SelectError (List NodeInfo) := do
  validate req
  let items := candidates sorter cfg nodes req
  if items.length < req.replicas then .error (tooFew req.replicas items.length nodes.length)
  else
    match selectLoop req.replicas (items.length + 1) ⟨rng, [], [], items⟩ with
    | none => .error .stalled
    | some (s, _) =>
      let found := s.selected.length
      let replicas := req.replicas
      if found < replicas then
        .error (.insufficientNodes s!"selected {found} of {replicas} requested")
      else .ok s.selected

end Weighted

namespace Rendezvous

/-- One byte of a 64-bit FNV-1a digest. -/
def fnvStep (h : UInt64) (b : UInt8) : UInt64 := (h ^^^ b.toUInt64) * 1099511628211

def fnv1a (bytes : List UInt8) : UInt64 := bytes.foldl fnvStep 14695981039346656037

/-- `binary.BigEndian.PutUint64`. -/
def bigEndian (n : UInt64) : List UInt8 :=
  ([56, 48, 40, 32, 24, 16, 8, 0] : List UInt64).map fun shift => (n >>> shift).toUInt8

/-- The finalizer of MurmurHash3. -/
def mix64 (x : UInt64) : UInt64 :=
  let x := x ^^^ (x >>> 33)
  let x := x * 0xff51afd7ed558ccd
  let x := x ^^^ (x >>> 33)
  let x := x * 0xc4ceb9fe1a85ec53
  x ^^^ (x >>> 33)

def bytes (s : String) : List UInt8 := s.toUTF8.toList

/-- Maps a key and a node to a value between 0 and 1. -/
def hashUnitInterval (key : String) (id : NodeID) : F :=
  let digest := fnv1a (bigEndian (bytes key).length.toUInt64 ++ bytes key ++ bytes id)
  let u : F := Float64.ofInt (mix64 digest >>> 1).toNat / Float64.ofInt (2 ^ 63)
  let u := if Float64.le u 0.0 then Float64.smallestNonzero else u
  if Float64.le 1.0 u then Float64.belowOne else u

def weight (cfg : Config F) (n : NodeInfo) : F := capacityWeight cfg n

/-- The weighted rendezvous score of a key and a node. -/
def score (cfg : Config F) (key : String) (n : NodeInfo) : F :=
  let u : F := hashUnitInterval key n.id
  let w := weight cfg n
  let w := if Float64.le w 0.0 then
      if Float64.le cfg.minWeight 0.0 then 1e-9 else cfg.minWeight
    else w
  Neg.neg w / Float64.log u

/-- Every eligible node, by descending score. -/
def rank (sorter : Sorter) (cfg : Config F) (nodes : List NodeInfo) (req : Request) :
    List NodeInfo :=
  (ranked sorter ((eligibleNodes cfg nodes req).map fun n =>
    ⟨n, score cfg req.key n⟩)).map (·.node)

/-- `Rendezvous.SelectNodes`. -/
def selectNodes (sorter : Sorter) (cfg : Config F) (nodes : List NodeInfo) (req : Request) :
    Except SelectError (List NodeInfo) := do
  validate req
  if req.key = "" then
    .error (.invalidRequest "rendezvous placement requires a non-empty key")
  else
    let found := (eligibleNodes cfg nodes req).length
    if found < req.replicas then .error (tooFew req.replicas found nodes.length)
    else .ok ((rank sorter cfg nodes req).take req.replicas.toNat)

end Rendezvous

/-- A strategy that has been configured, and what the weighted one draws. -/
inductive Strategy (F : Type) where
  | weighted (rng : Nat → F)
  | rendezvous

def Strategy.new (name : String) (rng : Nat → F) : Except String (Strategy F) :=
  if name = "" ∨ name = "weighted" then .ok (.weighted rng)
  else if name = "rendezvous" then .ok .rendezvous
  else .error s!"unknown placement strategy {name}"

def Strategy.selectNodes (sorter : Sorter) (cfg : Config F) (nodes : List NodeInfo)
    (req : Request) : Strategy F → Except SelectError (List NodeInfo)
  | .weighted rng => Weighted.selectNodes sorter cfg rng nodes req
  | .rendezvous => Rendezvous.selectNodes sorter cfg nodes req

theorem ranked_perm (sorter : Sorter) (items : List (Scored F)) :
    (ranked sorter items).Perm items :=
  sorter.perm _ _

theorem validate_ok {req : Request} (replicas : 1 ≤ req.replicas) (size : 0 ≤ req.chunkSize) :
    validate req = .ok () := by
  unfold validate
  dsimp only
  rw [if_neg (by omega), if_neg (by omega)]

/-- What a selection must be: as many nodes as asked for, distinct, and all of them eligible. -/
structure Selects (cfg : Config F) (nodes : List NodeInfo) (req : Request)
    (out : List NodeInfo) : Prop where
  count : (out.length : Int) = req.replicas
  distinct : (out.map (·.id)).Nodup
  eligible : ∀ n ∈ out, n ∈ nodes ∧ eligible cfg req n
  excluded : ∀ n ∈ out, n.id ∉ req.exclude

/-- Part of a rearrangement of the eligible nodes is a selection. -/
theorem selects_of_subperm {cfg : Config F} {nodes out : List NodeInfo} {req : Request}
    (distinct : (nodes.map (·.id)).Nodup) (part : out.Subperm (eligibleNodes cfg nodes req))
    (count : (out.length : Int) = req.replicas) : Selects cfg nodes req out where
  count
  distinct := by
    have listed : ((eligibleNodes cfg nodes req).map (·.id)).Nodup :=
      distinct.sublist (List.filter_sublist.map _)
    obtain ⟨l, perm, sublist⟩ := part
    exact (perm.map _).nodup_iff.mp (listed.sublist (sublist.map _))
  eligible := fun n member => List.mem_filter.mp (part.subset member)
  excluded := by
    intro n member excluded
    have chosen := (List.mem_filter.mp (part.subset member)).2
    simp only [eligible, Request.excluded, Bool.and_eq_true, Bool.not_eq_true',
      List.any_eq_false, decide_eq_true_eq] at chosen
    exact chosen.2 n.id excluded rfl

namespace Weighted

variable {replicas : Int} {items : List (Scored F)}

theorem locate_lt {target acc : F} {i j : Nat} (h : locate target acc i items = some j) :
    j < i + items.length := by
  induction items generalizing acc i with
  | nil => cases h
  | cons it rest ih =>
    rw [List.length_cons]
    unfold locate at h
    split_ifs at h
    · have := ih h
      omega
    · cases h
      omega
    · have := ih h
      omega

/-- Whatever is drawn, the sampled position is one of the slice. -/
theorem sampled_lt (rng : Nat → F) (some_ : items ≠ []) :
    (sampleIndex items rng).1.getD 0 < items.length := by
  have positive := List.length_pos_iff.mpr some_
  unfold sampleIndex
  split_ifs
  · exact positive
  · cases found : locate (rng 0 * total items) 0.0 0 items with
    | none =>
      simp only [found, Option.getD_none, Option.getD_some]
      omega
    | some j =>
      have bound := locate_lt found
      simp only [found, Option.getD_some]
      omega

/-- What is selected and what remains is the list of candidates, rearranged. -/
structure Picking.Fair (all : List NodeInfo) (s : Picking F) : Prop where
  parts : (s.selected ++ s.remaining.map (·.node)).Perm all
  chosen : s.chosen = s.selected.map (·.id)

/-- A round with candidates left selects one more node. -/
theorem Picking.Fair.round {all : List NodeInfo} {s : Picking F} (fair : s.Fair all)
    (distinct : (all.map (·.id)).Nodup) (some_ : s.remaining ≠ []) :
    ∃ s', s.round = some s' ∧ s'.Fair all ∧ s'.selected.length = s.selected.length + 1 ∧
      s'.remaining.length + 1 = s.remaining.length := by
  have inside := sampled_lt s.rng some_
  generalize at_ : (sampleIndex s.remaining s.rng).1.getD 0 = idx at inside
  let pick := s.remaining[idx]
  have taken : s.remaining[idx]? = some pick := List.getElem?_eq_getElem inside
  have split : s.remaining.Perm (pick :: s.remaining.eraseIdx idx) :=
    (List.getElem_cons_eraseIdx_perm inside).symm
  -- The identifiers of the candidates are distinct, so this one has not been chosen.
  have fresh : pick.node.id ∉ s.chosen := by
    intro listed
    have parts : ((s.selected ++ s.remaining.map (·.node)).map (·.id)).Nodup :=
      (fair.parts.map _).nodup_iff.mpr distinct
    rw [List.map_append, List.map_map] at parts
    refine List.disjoint_of_nodup_append parts (fair.chosen ▸ listed) ?_
    exact List.mem_map.mpr ⟨pick, List.getElem_mem inside, rfl⟩
  refine ⟨_, by rw [Picking.round, at_, taken, Option.map_some, if_neg fresh], ⟨?_, ?_⟩, ?_, ?_⟩
  · refine List.Perm.trans ?_ fair.parts
    rw [List.append_assoc]
    exact List.Perm.append_left _ (split.map _).symm
  · rw [List.map_append, fair.chosen, List.map_singleton]
  · simp
  · rw [List.length_eraseIdx_of_lt inside]
    omega

/-- The loop ends with as many nodes as were asked for, in no more rounds than there are
candidates left. -/
theorem selectLoop_fair {all : List NodeInfo} (distinct : (all.map (·.id)).Nodup)
    (enough : replicas ≤ all.length) {fuel : Nat} {s : Picking F} (fair : s.Fair all)
    (below : s.selected.length ≤ replicas) (fueled : s.remaining.length < fuel) :
    ∃ s' rounds, selectLoop replicas fuel s = some (s', rounds) ∧ s'.Fair all ∧
      (s'.selected.length : Int) = replicas ∧ rounds ≤ s.remaining.length := by
  induction fuel generalizing s with
  | zero => omega
  | succ fuel ih =>
    have parts : s.selected.length + s.remaining.length = all.length := by
      simpa using fair.parts.length_eq
    unfold selectLoop
    by_cases reached : replicas ≤ s.selected.length
    · rw [if_pos reached]
      exact ⟨s, 0, rfl, fair, by omega, Nat.zero_le _⟩
    · rw [if_neg reached]
      have some_ : s.remaining ≠ [] := by
        rintro none_
        rw [none_, List.length_nil] at parts
        omega
      obtain ⟨s', round, fair', more, fewer⟩ := fair.round distinct some_
      simp only [round]
      have parts' : s'.selected.length + s'.remaining.length = all.length := by
        simpa using fair'.parts.length_eq
      by_cases last : s'.remaining = []
      · rw [if_pos last]
        rw [last, List.length_nil] at parts'
        exact ⟨s', 1, rfl, fair', by omega, by omega⟩
      · rw [if_neg last]
        obtain ⟨out, rounds, ends, fairly, count, bound⟩ := ih fair' (by omega) (by omega)
        rw [ends]
        exact ⟨out, rounds + 1, rfl, fairly, count, by omega⟩

variable {sorter : Sorter} {cfg : Config F} {nodes : List NodeInfo} {req : Request}

theorem candidates_perm (sorter : Sorter) (cfg : Config F) (nodes : List NodeInfo)
    (req : Request) :
    ((candidates sorter cfg nodes req).map (·.node)).Perm (eligibleNodes cfg nodes req) := by
  refine ((ranked_perm sorter _).map _).trans ?_
  rw [List.map_map]
  exact List.Perm.of_eq (List.map_id _)

theorem length_candidates (sorter : Sorter) (cfg : Config F) (nodes : List NodeInfo)
    (req : Request) :
    (candidates sorter cfg nodes req).length = (eligibleNodes cfg nodes req).length := by
  simpa using (candidates_perm sorter cfg nodes req).length_eq

/-- The loop of a selection with enough candidates. -/
theorem selectLoop_candidates (distinct : (nodes.map (·.id)).Nodup) (rng : Nat → F)
    (replicas : 1 ≤ req.replicas) (enough : req.replicas ≤ (eligibleNodes cfg nodes req).length) :
    ∃ s rounds, selectLoop req.replicas ((candidates sorter cfg nodes req).length + 1)
        ⟨rng, [], [], candidates sorter cfg nodes req⟩ = some (s, rounds) ∧
      Selects cfg nodes req s.selected ∧
      rounds ≤ (candidates sorter cfg nodes req).length := by
  have start : Picking.Fair (eligibleNodes cfg nodes req)
      ⟨rng, [], [], candidates sorter cfg nodes req⟩ :=
    ⟨candidates_perm sorter cfg nodes req, rfl⟩
  obtain ⟨s, rounds, ends, fair, count, bound⟩ :=
    selectLoop_fair (distinct.sublist (List.filter_sublist.map _)) enough start
      (by simp only [List.length_nil]; omega) (Nat.lt_succ_self _)
  refine ⟨s, rounds, ends, selects_of_subperm distinct ?_ count, bound⟩
  exact (List.sublist_append_left _ _).subperm.trans fair.parts.subperm

theorem selectNodes_enough (distinct : (nodes.map (·.id)).Nodup) (rng : Nat → F)
    (replicas : 1 ≤ req.replicas) (size : 0 ≤ req.chunkSize)
    (enough : req.replicas ≤ (eligibleNodes cfg nodes req).length) :
    ∃ out, selectNodes sorter cfg rng nodes req = .ok out ∧ Selects cfg nodes req out := by
  obtain ⟨s, rounds, ends, selects, -⟩ :=
    @selectLoop_candidates F _ sorter cfg nodes req distinct rng replicas enough
  refine ⟨s.selected, ?_, selects⟩
  have count := selects.count
  unfold selectNodes
  rw [validate_ok replicas size]
  change (if _ then _ else _) = _
  rw [if_neg (by rw [length_candidates]; omega)]
  simp only [ends]
  rw [if_neg (by omega)]

theorem selectNodes_short (rng : Nat → F) (replicas : 1 ≤ req.replicas)
    (size : 0 ≤ req.chunkSize)
    (short : (eligibleNodes cfg nodes req).length < req.replicas) :
    selectNodes sorter cfg rng nodes req =
      .error (tooFew req.replicas (eligibleNodes cfg nodes req).length nodes.length) := by
  unfold selectNodes
  rw [validate_ok replicas size]
  change (if _ then _ else _) = _
  rw [if_pos (by rw [length_candidates]; exact short), length_candidates]

end Weighted

namespace Rendezvous

variable {sorter : Sorter} {cfg : Config F} {nodes : List NodeInfo} {req : Request}

theorem rank_perm (sorter : Sorter) (cfg : Config F) (nodes : List NodeInfo) (req : Request) :
    (rank sorter cfg nodes req).Perm (eligibleNodes cfg nodes req) := by
  refine ((ranked_perm sorter _).map _).trans ?_
  rw [List.map_map]
  exact List.Perm.of_eq (List.map_id _)

theorem selectNodes_enough (distinct : (nodes.map (·.id)).Nodup) (replicas : 1 ≤ req.replicas)
    (size : 0 ≤ req.chunkSize) (key : req.key ≠ "")
    (enough : req.replicas ≤ (eligibleNodes cfg nodes req).length) :
    ∃ out, selectNodes sorter cfg nodes req = .ok out ∧ Selects cfg nodes req out := by
  have ranked := rank_perm sorter cfg nodes req
  refine ⟨(rank sorter cfg nodes req).take req.replicas.toNat, ?_, selects_of_subperm distinct
    ((List.take_sublist _ _).subperm.trans ranked.subperm) ?_⟩
  · unfold selectNodes
    rw [validate_ok replicas size]
    change (if _ then _ else if _ then _ else _) = _
    rw [if_neg key, if_neg (by omega)]
  · rw [List.length_take, ranked.length_eq]
    omega

theorem selectNodes_short (replicas : 1 ≤ req.replicas) (size : 0 ≤ req.chunkSize)
    (key : req.key ≠ "") (short : (eligibleNodes cfg nodes req).length < req.replicas) :
    selectNodes sorter cfg nodes req =
      .error (tooFew req.replicas (eligibleNodes cfg nodes req).length nodes.length) := by
  unfold selectNodes
  rw [validate_ok replicas size]
  change (if _ then _ else if _ then _ else _) = _
  rw [if_neg key, if_pos short]

end Rendezvous

namespace Strategy

variable {sorter : Sorter} {cfg : Config F} {nodes : List NodeInfo} {req : Request}
  {strategy : Strategy F}

/-- A strategy that succeeds was given a valid request. -/
theorem valid_of_ok {out : List NodeInfo}
    (h : strategy.selectNodes sorter cfg nodes req = .ok out) :
    1 ≤ req.replicas ∧ 0 ≤ req.chunkSize ∧ (strategy = .rendezvous → req.key ≠ "") := by
  have valid : validate req = .ok () := by
    cases checked : validate req with
    | ok => rfl
    | error e =>
      cases strategy <;> simp only [Strategy.selectNodes, Weighted.selectNodes,
        Rendezvous.selectNodes, checked] at h <;> cases h
  refine ⟨?_, ?_, ?_⟩
  · by_contra few
    rw [validate, if_pos (by omega)] at valid
    cases valid
  · by_contra negative
    unfold validate at valid
    dsimp only at valid
    split_ifs at valid
    omega
  · rintro rfl empty
    simp only [Strategy.selectNodes, Rendezvous.selectNodes, valid, empty] at h
    cases h

theorem selectNodes_enough (distinct : (nodes.map (·.id)).Nodup) (replicas : 1 ≤ req.replicas)
    (size : 0 ≤ req.chunkSize) (key : strategy = .rendezvous → req.key ≠ "")
    (enough : req.replicas ≤ (eligibleNodes cfg nodes req).length) :
    ∃ out, strategy.selectNodes sorter cfg nodes req = .ok out ∧ Selects cfg nodes req out := by
  cases strategy with
  | weighted rng => exact Weighted.selectNodes_enough distinct rng replicas size enough
  | rendezvous => exact Rendezvous.selectNodes_enough distinct replicas size (key rfl) enough

theorem selectNodes_short (replicas : 1 ≤ req.replicas) (size : 0 ≤ req.chunkSize)
    (key : strategy = .rendezvous → req.key ≠ "")
    (short : (eligibleNodes cfg nodes req).length < req.replicas) :
    strategy.selectNodes sorter cfg nodes req =
      .error (tooFew req.replicas (eligibleNodes cfg nodes req).length nodes.length) := by
  cases strategy with
  | weighted rng => exact Weighted.selectNodes_short rng replicas size short
  | rendezvous => exact Rendezvous.selectNodes_short replicas size (key rfl) short

theorem enough_of_ok {out : List NodeInfo}
    (h : strategy.selectNodes sorter cfg nodes req = .ok out) :
    req.replicas ≤ (eligibleNodes cfg nodes req).length := by
  obtain ⟨replicas, size, key⟩ := valid_of_ok h
  by_contra short
  rw [selectNodes_short replicas size key (by omega)] at h
  cases h

/-- What a strategy returns is a selection. -/
theorem selects_of_ok (distinct : (nodes.map (·.id)).Nodup) {out : List NodeInfo}
    (h : strategy.selectNodes sorter cfg nodes req = .ok out) : Selects cfg nodes req out := by
  obtain ⟨replicas, size, key⟩ := valid_of_ok h
  obtain ⟨other, success, selects⟩ :=
    selectNodes_enough distinct replicas size key (enough_of_ok h)
  obtain rfl : other = out := Except.ok.inj (success.symm.trans h)
  exact selects

end Strategy

/-- For both strategies, every list of nodes with distinct identifiers, every valid request,
every arithmetic and everything the sampler may draw: the selection succeeds exactly if there
are as many eligible nodes as replicas are asked for, and what it returns are so many distinct
nodes, eligible and not excluded. The loop of the weighted strategy then ends after at most as
many rounds as there are candidates. -/
theorem selectNodes_spec (sorter : Sorter) (cfg : Config F) (nodes : List NodeInfo)
    (distinct : (nodes.map (·.id)).Nodup) (req : Request) (replicas : 1 ≤ req.replicas)
    (size : 0 ≤ req.chunkSize) (key : req.key ≠ "") :
    (∀ strategy : Strategy F,
        ((∃ out, strategy.selectNodes sorter cfg nodes req = .ok out) ↔
          req.replicas ≤ (eligibleNodes cfg nodes req).length) ∧
        ∀ out, strategy.selectNodes sorter cfg nodes req = .ok out →
          Selects cfg nodes req out) ∧
      ∀ rng : Nat → F, req.replicas ≤ (eligibleNodes cfg nodes req).length →
        ∃ s rounds, Weighted.selectLoop req.replicas
            ((Weighted.candidates sorter cfg nodes req).length + 1)
            ⟨rng, [], [], Weighted.candidates sorter cfg nodes req⟩ = some (s, rounds) ∧
          rounds ≤ (Weighted.candidates sorter cfg nodes req).length := by
  constructor
  · intro strategy
    refine ⟨⟨?_, ?_⟩, fun out => Strategy.selects_of_ok distinct⟩
    · rintro ⟨out, h⟩
      exact Strategy.enough_of_ok h
    · intro enough
      obtain ⟨out, success, -⟩ :=
        Strategy.selectNodes_enough distinct replicas size (fun _ => key) enough
      exact ⟨out, success⟩
  · intro rng enough
    obtain ⟨s, rounds, ends, -, bound⟩ :=
      @Weighted.selectLoop_candidates F _ sorter cfg nodes req distinct rng replicas enough
    exact ⟨s, rounds, ends, bound⟩

/-- Four nodes: two with room, one that is SUSPECT and one that is full. -/
def fourNodes : List NodeInfo :=
  [⟨"n1", "n1:9000", .healthy, 1000, 0, 1000, 0, 0⟩,
    ⟨"n2", "n2:9000", .healthy, 1000, 900, 100, 3, 9⟩,
    ⟨"n3", "n3:9000", .suspect, 1000, 0, 1000, 0, 0⟩,
    ⟨"n4", "n4:9000", .healthy, 1000, 1000, 0, 0, 10⟩]

def twoCopies : Request := ⟨"c", 2, 50, []⟩

theorem selectNodes_spec_fourNodes :
    (eligibleNodes (defaultConfig : Config Rat) fourNodes twoCopies).map (·.id) = ["n1", "n2"] ∧
      ∀ strategy : Strategy Rat, ∃ out,
        strategy.selectNodes .merge defaultConfig fourNodes twoCopies = .ok out ∧
          Selects (defaultConfig : Config Rat) fourNodes twoCopies out := by
  have found : (eligibleNodes (defaultConfig : Config Rat) fourNodes twoCopies).map (·.id) =
      ["n1", "n2"] := by decide +kernel
  refine ⟨found, fun strategy => ?_⟩
  have spec := (selectNodes_spec .merge (defaultConfig : Config Rat) fourNodes (by decide)
    twoCopies (by decide) (by decide) (by decide)).1 strategy
  have enough : twoCopies.replicas ≤
      (eligibleNodes (defaultConfig : Config Rat) fourNodes twoCopies).length := by
    rw [← List.length_map (·.id), found]
    decide
  obtain ⟨out, success⟩ := spec.1.mpr enough
  exact ⟨out, success, spec.2 out success⟩

end FlexStore.Placement
