import FlexStore.Go.Sort
import FlexStore.Placement.Strategy
import Mathlib.Data.Prod.Lex
import Mathlib.Data.String.Basic

/-!
# Rendezvous placement moves little

The rendezvous strategy takes the first nodes of a ranking. Here the score is any function of
the key and of a node's own record into a linear order; the strategy itself is the case of
the score that the source computes (`Rendezvous.selectNodes_eq`).

A node's score does not depend on the other nodes, and equal scores are told apart by the
identifiers, so the ranking of some of the nodes is the ranking of all of them with the
others left out (`rankBy_filter`). What a node's leaving, joining or exclusion does to a
selection follows from that and from facts about the first elements of a list.
-/

namespace FlexStore.Placement

open Go FlexStore.Metadata

variable {F : Type} [Float64 F] {κ : Type} [LinearOrder κ]

/-- The comparison of the strategy: the higher score first, then the smaller identifier. -/
def outranks (a b : Scored κ) : Bool :=
  if a.score = b.score then a.node.id < b.node.id else b.score < a.score

/-- `Rank` by a score. -/
def rankBy (sorter : Sorter) (cfg : Config F) (score : String → NodeInfo → κ)
    (nodes : List NodeInfo) (req : Request) : List NodeInfo :=
  (sorter.sort outranks ((eligibleNodes cfg nodes req).map fun n =>
    ⟨n, score req.key n⟩)).map (·.node)

/-- `SelectNodes` by a score. -/
def selectBy (sorter : Sorter) (cfg : Config F) (score : String → NodeInfo → κ)
    (nodes : List NodeInfo) (req : Request) : Except SelectError (List NodeInfo) := do
  validate req
  if req.key = "" then
    .error (.invalidRequest "rendezvous placement requires a non-empty key")
  else
    let found := (eligibleNodes cfg nodes req).length
    if found < req.replicas then .error (tooFew req.replicas found nodes.length)
    else .ok ((rankBy sorter cfg score nodes req).take req.replicas.toNat)

/-- The comparisons of the floating-point numbers are those of a linear order. -/
structure Ordered (F : Type) [Float64 F] [LinearOrder F] : Prop where
  lt : ∀ a b : F, Float64.lt a b = decide (a < b)
  eq : ∀ a b : F, Float64.eq a b = decide (a = b)

theorem Rendezvous.rank_eq [LinearOrder F] (ordered : Ordered F) (sorter : Sorter)
    (cfg : Config F) (nodes : List NodeInfo) (req : Request) :
    Rendezvous.rank sorter cfg nodes req =
      rankBy sorter cfg (Rendezvous.score cfg) nodes req := by
  have same : (fun a b : Scored F =>
      if Float64.eq a.score b.score then decide (a.node.id < b.node.id)
      else Float64.lt b.score a.score) = outranks := by
    funext a b
    rw [outranks, ordered.eq, ordered.lt]
    simp
  rw [Rendezvous.rank, rankBy, ranked, same]

/-- The strategy of the source is the one by its own score. -/
theorem Rendezvous.selectNodes_eq [LinearOrder F] (ordered : Ordered F) (sorter : Sorter)
    (cfg : Config F) (nodes : List NodeInfo) (req : Request) :
    Rendezvous.selectNodes sorter cfg nodes req =
      selectBy sorter cfg (Rendezvous.score cfg) nodes req := by
  rw [Rendezvous.selectNodes, selectBy, Rendezvous.rank_eq ordered]

/-- Rational scores are ordered. -/
theorem ordered_rat : Ordered Rat where
  lt _ _ := rfl
  eq _ _ := rfl

/-- Asking for the same nodes, without those that have one of the identifiers. -/
def Request.excluding (req : Request) (ids : List NodeID) : Request :=
  { req with exclude := ids ++ req.exclude }

/-- What a ranking promises about the selections it gives: `nodes` is what the strategy
knows when it is asked for `req`. -/
structure MovesLittle (select : List NodeInfo → Request → Except SelectError (List NodeInfo))
    (rank : List NodeInfo → Request → List NodeInfo) (nodes : List NodeInfo)
    (req : Request) : Prop where
  order : ∀ nodes' : List NodeInfo, nodes'.Perm nodes →
    select nodes' req = select nodes req
  first : ∀ out, select nodes req = .ok out → out = (rank nodes req).take req.replicas.toNat
  unselected : ∀ out n, select nodes req = .ok out → n ∈ nodes → n ∉ out →
    select (nodes.erase n) req = .ok out
  selected : ∀ out n, select nodes req = .ok out → n ∈ out →
    (∀ next, (rank nodes req)[req.replicas.toNat]? = some next →
      select (nodes.erase n) req = .ok (out.erase n ++ [next])) ∧
    ((rank nodes req)[req.replicas.toNat]? = none →
      ∀ out', select (nodes.erase n) req ≠ .ok out')
  added : ∀ out n, select nodes req = .ok out → n.id ∉ nodes.map (·.id) →
    ∀ nodes' : List NodeInfo, nodes'.Perm (n :: nodes) →
      ∃ out', select nodes' req = .ok out' ∧
        (out' = out ∨ n ∈ out' ∧ out'.erase n = out.dropLast)
  excluded : ∀ ids out, select nodes (req.excluding ids) = .ok out ↔
    select (nodes.filter fun n => n.id ∉ ids) req = .ok out

section Lists

variable {α : Type} [DecidableEq α] {l : List α} {a : α} {k : Nat}

/-- Without an element that is not one of the first, these are the same. -/
theorem take_erase_of_notMem (h : a ∉ l.take k) : (l.erase a).take k = l.take k := by
  by_cases inside : a ∈ l
  · have split : l = l.take k ++ l.drop k := (List.take_append_drop k l).symm
    have rest : a ∈ l.drop k := by
      rw [split, List.mem_append] at inside
      exact inside.resolve_left h
    have short : k ≤ l.length := by
      have := List.length_pos_of_mem rest
      rw [List.length_drop] at this
      omega
    have apart : l.erase a = l.take k ++ (l.drop k).erase a := by
      conv_lhs => rw [split]
      rw [List.erase_append_right _ h]
    rw [apart, List.take_left' (List.length_take_of_le short)]
  · rw [List.erase_of_not_mem inside]

/-- Then there are also as many as before. -/
theorem le_length_erase_of_notMem (h : a ∉ l.take k) (enough : k ≤ l.length) :
    k ≤ (l.erase a).length := by
  have same := congrArg List.length (take_erase_of_notMem h)
  rw [List.length_take, List.length_take] at same
  omega

/-- Without one of the first elements, the others move up and the next one is added. -/
theorem take_erase_of_mem (h : a ∈ l.take k) :
    (l.erase a).take k = (l.take k).erase a ++ (l[k]?).toList := by
  have split : l = l.take k ++ l.drop k := (List.take_append_drop k l).symm
  have apart : l.erase a = (l.take k).erase a ++ l.drop k := by
    conv_lhs => rw [split]
    rw [List.erase_append_left _ h]
  have count : ((l.take k).erase a).length = (l.take k).length - 1 := List.length_erase_of_mem h
  rw [apart, List.take_append, List.take_of_length_le]
  · congr 1
    by_cases short : k ≤ l.length
    · have positive := List.length_pos_of_mem h
      rw [List.length_take_of_le short] at count positive
      rw [count, show k - (k - 1) = 1 by omega, List.take_one, List.head?_drop]
    · rw [List.drop_of_length_le (by omega), List.getElem?_eq_none (by omega), List.take_nil]
      rfl
  · rw [count, List.length_take]
    omega

end Lists

section Ranking

variable (sorter : SliceSort) (cfg : Config F) (score : String → NodeInfo → κ)
variable {nodes : List NodeInfo} {req : Request}

def place (s : Scored κ) : κᵒᵈ ×ₗ String := toLex (OrderDual.toDual s.score, s.node.id)

theorem outranks_iff (a b : Scored κ) : outranks a b = true ↔ place a < place b := by
  rw [place, place, Prod.Lex.toLex_lt_toLex, outranks]
  by_cases same : a.score = b.score
  · simp [same]
  · simp [same, OrderDual.toDual_lt_toDual]

theorem outranks_strictWeak : StrictWeak (outranks : Scored κ → Scored κ → Bool) :=
  StrictWeak.of_key place outranks_iff

def scored (key : String) (n : NodeInfo) : Scored κ := ⟨n, score key n⟩

/-- Nodes that neither outranks have the same identifier. -/
theorem scored_decided (distinct : (nodes.map (·.id)).Nodup) (key : String) :
    Decided outranks (nodes.map (scored score key)) := by
  intro a listed b listed' first second
  obtain ⟨n, mem, rfl⟩ := List.mem_map.mp listed
  obtain ⟨n', mem', rfl⟩ := List.mem_map.mp listed'
  rw [Bool.eq_false_iff, ne_eq, outranks_iff, not_lt] at first second
  have place_eq := le_antisymm second first
  rw [place, place, EmbeddingLike.apply_eq_iff_eq, Prod.mk.injEq] at place_eq
  have same : n = n' := List.inj_on_of_nodup_map distinct mem mem' place_eq.2
  rw [same]

theorem eligibleNodes_distinct (req : Request) (distinct : (nodes.map (·.id)).Nodup) :
    ((eligibleNodes cfg nodes req).map (·.id)).Nodup :=
  distinct.sublist (List.filter_sublist.map _)

theorem rankBy_perm : (rankBy sorter.toSorter cfg score nodes req).Perm
    (eligibleNodes cfg nodes req) := by
  have sorted := (sorter.perm outranks ((eligibleNodes cfg nodes req).map
    (scored score req.key))).map (·.node)
  rw [List.map_map] at sorted
  have same : ((fun s : Scored κ => s.node) ∘ scored score req.key) = id := rfl
  rwa [same, List.map_id] at sorted

/-- The ranking does not depend on the order of the nodes. -/
theorem rankBy_eq_of_perm (distinct : (nodes.map (·.id)).Nodup) {nodes' : List NodeInfo}
    (perm : nodes'.Perm nodes) :
    rankBy sorter.toSorter cfg score nodes' req = rankBy sorter.toSorter cfg score nodes req := by
  have listed := scored_decided score (eligibleNodes_distinct cfg req distinct) req.key
  have arranged : (eligibleNodes cfg nodes req).Perm (eligibleNodes cfg nodes' req) :=
    perm.symm.filter _
  have sorted := sorter.sort_perm outranks_strictWeak listed (arranged.map _)
  exact congrArg (List.map (·.node)) sorted.symm

/-- Ranking some of the nodes leaves out the others of the ranking of all. -/
theorem rankBy_filter (distinct : (nodes.map (·.id)).Nodup) (p : NodeInfo → Bool) :
    rankBy sorter.toSorter cfg score (nodes.filter p) req =
      (rankBy sorter.toSorter cfg score nodes req).filter p := by
  have listed := scored_decided score (eligibleNodes_distinct cfg req distinct) req.key
  have sorted := sorter.sort_filter outranks_strictWeak listed fun s => p s.node
  rw [List.filter_map] at sorted
  have swapped : (eligibleNodes cfg nodes req).filter
      ((fun s : Scored κ => p s.node) ∘ scored score req.key) =
      eligibleNodes cfg (nodes.filter p) req := by
    rw [eligibleNodes, eligibleNodes, List.filter_filter, List.filter_filter]
    apply List.filter_congr
    intro n _
    rw [Bool.and_comm]
    rfl
  rw [swapped] at sorted
  have nodes_eq := congrArg (List.map (·.node)) sorted
  rw [rankBy, rankBy, List.filter_map]
  exact nodes_eq

theorem rankBy_nodup (distinct : (nodes.map (·.id)).Nodup) :
    (rankBy sorter.toSorter cfg score nodes req).Nodup := by
  have listed : (eligibleNodes cfg nodes req).Nodup :=
    (eligibleNodes_distinct cfg req distinct).of_map _
  exact (rankBy_perm sorter cfg score).nodup_iff.mpr listed

/-- The ranking without one node. -/
theorem rankBy_erase (distinct : (nodes.map (·.id)).Nodup) (n : NodeInfo) :
    rankBy sorter.toSorter cfg score (nodes.erase n) req =
      (rankBy sorter.toSorter cfg score nodes req).erase n := by
  rw [(distinct.of_map _).erase_eq_filter, rankBy_filter sorter cfg score distinct,
    (rankBy_nodup sorter cfg score distinct).erase_eq_filter]

/-- A request that the strategy can try to answer. -/
structure Answerable (req : Request) : Prop where
  valid : validate req = .ok ()
  key : req.key ≠ ""

/-- A selection is the first nodes of a ranking that is long enough. -/
theorem selectBy_eq_ok {out : List NodeInfo} :
    selectBy sorter.toSorter cfg score nodes req = .ok out ↔
      Answerable req ∧ req.replicas ≤ (rankBy sorter.toSorter cfg score nodes req).length ∧
        out = (rankBy sorter.toSorter cfg score nodes req).take req.replicas.toNat := by
  rw [(rankBy_perm sorter cfg score).length_eq, selectBy]
  cases valid : validate req with
  | error e =>
    constructor
    · intro answer
      cases answer
    · rintro ⟨⟨absurd_, _⟩, _⟩
      rw [valid] at absurd_
      cases absurd_
  | ok u =>
    show (if req.key = "" then _ else _) = _ ↔ _
    by_cases key : req.key = ""
    · rw [if_pos key]
      constructor
      · intro answer
        cases answer
      · rintro ⟨⟨_, named⟩, _⟩
        exact absurd key named
    · rw [if_neg key]
      by_cases few : ((eligibleNodes cfg nodes req).length : Int) < req.replicas
      · rw [if_pos few]
        constructor
        · intro answer
          cases answer
        · rintro ⟨_, enough, _⟩
          omega
      · rw [if_neg few, Except.ok.injEq]
        constructor
        · intro answer
          exact ⟨⟨valid, key⟩, by omega, answer.symm⟩
        · rintro ⟨_, _, answer⟩
          exact answer.symm

section Changes

variable {sorter cfg score} {out : List NodeInfo} {n : NodeInfo}
variable (distinct : (nodes.map (·.id)).Nodup)
variable (selects : selectBy sorter.toSorter cfg score nodes req = .ok out)
include distinct selects

/-- A node that was not selected leaves. -/
theorem selectBy_erase_of_notMem (unselected : n ∉ out) :
    selectBy sorter.toSorter cfg score (nodes.erase n) req = .ok out := by
  obtain ⟨answerable, enough, rfl⟩ := (selectBy_eq_ok sorter cfg score).mp selects
  rw [selectBy_eq_ok, rankBy_erase sorter cfg score distinct]
  refine ⟨answerable, ?_, (take_erase_of_notMem unselected).symm⟩
  have left := le_length_erase_of_notMem unselected (by omega)
  omega

/-- A selected node leaves, and there is one more eligible node. -/
theorem selectBy_erase_of_mem (selected : n ∈ out) {next : NodeInfo}
    (ranked : (rankBy sorter.toSorter cfg score nodes req)[req.replicas.toNat]? = some next) :
    selectBy sorter.toSorter cfg score (nodes.erase n) req = .ok (out.erase n ++ [next]) := by
  obtain ⟨answerable, enough, rfl⟩ := (selectBy_eq_ok sorter cfg score).mp selects
  rw [selectBy_eq_ok, rankBy_erase sorter cfg score distinct]
  refine ⟨answerable, ?_, ?_⟩
  · rw [List.length_erase_of_mem (List.mem_of_mem_take selected)]
    have more := (List.getElem?_eq_some_iff.mp ranked).1
    omega
  · rw [take_erase_of_mem selected, ranked]
    rfl

/-- A selected node leaves, and there is no other eligible node. -/
theorem selectBy_erase_of_last (selected : n ∈ out)
    (none_ : (rankBy sorter.toSorter cfg score nodes req)[req.replicas.toNat]? = none)
    (out' : List NodeInfo) :
    selectBy sorter.toSorter cfg score (nodes.erase n) req ≠ .ok out' := by
  obtain ⟨answerable, enough, rfl⟩ := (selectBy_eq_ok sorter cfg score).mp selects
  rw [ne_eq, selectBy_eq_ok, rankBy_erase sorter cfg score distinct]
  rintro ⟨_, left, _⟩
  have listed := List.mem_of_mem_take selected
  have positive := List.length_pos_of_mem listed
  have last := List.getElem?_eq_none_iff.mp none_
  rw [List.length_erase_of_mem listed] at left
  omega

/-- A node joins: it is not selected, or it takes the place of the last one. -/
theorem selectBy_cons (new : n.id ∉ nodes.map (·.id)) :
    ∃ out', selectBy sorter.toSorter cfg score (n :: nodes) req = .ok out' ∧
      (out' = out ∨ n ∈ out' ∧ out'.erase n = out.dropLast) := by
  obtain ⟨answerable, enough, rfl⟩ := (selectBy_eq_ok sorter cfg score).mp selects
  have distinct' : ((n :: nodes).map (·.id)).Nodup := List.nodup_cons.mpr ⟨new, distinct⟩
  -- The old ranking is the new one without the node.
  have old : rankBy sorter.toSorter cfg score ((n :: nodes).erase n) req =
      (rankBy sorter.toSorter cfg score (n :: nodes) req).erase n :=
    rankBy_erase sorter cfg score distinct' n
  rw [List.erase_cons_head] at old
  rw [old] at enough
  have longer : ((rankBy sorter.toSorter cfg score (n :: nodes) req).erase n).length ≤
      (rankBy sorter.toSorter cfg score (n :: nodes) req).length := List.erase_sublist.length_le
  refine ⟨_, (selectBy_eq_ok sorter cfg score).mpr ⟨answerable, by omega, rfl⟩, ?_⟩
  by_cases selected : n ∈ (rankBy sorter.toSorter cfg score (n :: nodes) req).take
      req.replicas.toNat
  · refine Or.inr ⟨selected, ?_⟩
    have listed := List.mem_of_mem_take selected
    have positive := List.length_pos_of_mem listed
    rw [List.length_erase_of_mem listed] at enough
    have inside : req.replicas.toNat <
        (rankBy sorter.toSorter cfg score (n :: nodes) req).length := by omega
    rw [old, take_erase_of_mem selected, List.getElem?_eq_getElem inside, Option.toList_some,
      List.dropLast_concat]
  · exact Or.inl (by rw [old, take_erase_of_notMem selected])

end Changes

theorem selectBy_eq_of_perm (distinct : (nodes.map (·.id)).Nodup) {nodes' : List NodeInfo}
    (perm : nodes'.Perm nodes) :
    selectBy sorter.toSorter cfg score nodes' req =
      selectBy sorter.toSorter cfg score nodes req := by
  have found : (eligibleNodes cfg nodes' req).Perm (eligibleNodes cfg nodes req) :=
    perm.filter _
  rw [selectBy, selectBy, rankBy_eq_of_perm sorter cfg score distinct perm, perm.length_eq,
    found.length_eq]

/-- An excluded node is no more eligible than one that has been removed. -/
theorem eligibleNodes_excluding (ids : List NodeID) :
    eligibleNodes cfg nodes (req.excluding ids) =
      eligibleNodes cfg (nodes.filter fun n => n.id ∉ ids) req := by
  rw [eligibleNodes, eligibleNodes, List.filter_filter]
  apply List.filter_congr
  intro n _
  have split : (req.excluding ids).excluded n.id = (ids.any (· = n.id) || req.excluded n.id) :=
    List.any_append
  have listed : ids.any (· = n.id) = decide (n.id ∈ ids) := by
    rw [Bool.eq_iff_iff]
    simp
  have kept : decide (n.id ∉ ids) = !decide (n.id ∈ ids) := decide_not
  have same : required cfg (req.excluding ids) = required cfg req := rfl
  rw [eligible, eligible, split, listed, Bool.not_or, kept, same,
    Bool.and_comm (!decide (n.id ∈ ids)), Bool.and_assoc _ _ (!decide (n.id ∈ ids))]

/-- Excluding nodes selects what removing them selects. -/
theorem selectBy_excluding (ids : List NodeID) (out : List NodeInfo) :
    selectBy sorter.toSorter cfg score nodes (req.excluding ids) = .ok out ↔
      selectBy sorter.toSorter cfg score (nodes.filter fun n => n.id ∉ ids) req = .ok out := by
  have ranking : rankBy sorter.toSorter cfg score nodes (req.excluding ids) =
      rankBy sorter.toSorter cfg score (nodes.filter fun n => n.id ∉ ids) req := by
    rw [rankBy, rankBy, eligibleNodes_excluding]
    rfl
  have answerable : Answerable (req.excluding ids) ↔ Answerable req :=
    ⟨fun h => ⟨h.valid, h.key⟩, fun h => ⟨h.valid, h.key⟩⟩
  rw [selectBy_eq_ok, selectBy_eq_ok, ranking, answerable]
  rfl

/-- Every selection by a score promises this, for every request and all distinct nodes. -/
theorem selectBy_movesLittle (nodes : List NodeInfo) (req : Request)
    (distinct : (nodes.map (·.id)).Nodup) :
    MovesLittle (selectBy sorter.toSorter cfg score) (rankBy sorter.toSorter cfg score)
      nodes req where
  order nodes' perm := selectBy_eq_of_perm sorter cfg score distinct perm
  first out selects := ((selectBy_eq_ok sorter cfg score).mp selects).2.2
  unselected out n selects _ unselected := selectBy_erase_of_notMem distinct selects unselected
  selected out n selects selected :=
    ⟨fun next ranked => selectBy_erase_of_mem distinct selects selected ranked,
      selectBy_erase_of_last distinct selects selected⟩
  added out n selects new nodes' perm := by
    have distinct' : ((n :: nodes).map (·.id)).Nodup := List.nodup_cons.mpr ⟨new, distinct⟩
    rw [selectBy_eq_of_perm sorter cfg score distinct' perm]
    exact selectBy_cons distinct selects new
  excluded ids out := selectBy_excluding sorter cfg score ids out

/-- A healthy node with an eighth of its capacity used. -/
def roomy (id : NodeID) : NodeInfo where
  id := id
  address := id
  health := .healthy
  totalBytes := 4096
  usedBytes := 512
  availableBytes := 3584
  activeRequests := 0
  chunkCount := 1

/-- The strategy of the source with exact arithmetic, on three nodes. -/
theorem rendezvous_movesLittle :
    (["n1", "n2", "n3"].map roomy |>.map (·.id)).Nodup ∧
      MovesLittle (Rendezvous.selectNodes SliceSort.merge.toSorter (defaultConfig (F := Rat)))
        (Rendezvous.rank SliceSort.merge.toSorter (defaultConfig (F := Rat)))
        (["n1", "n2", "n3"].map roomy) ⟨"chunk", 2, 64, []⟩ := by
  have distinct : (["n1", "n2", "n3"].map roomy |>.map (·.id)).Nodup := by decide
  have select_eq := funext₂ (Rendezvous.selectNodes_eq ordered_rat SliceSort.merge.toSorter
    defaultConfig)
  have rank_eq := funext₂ (Rendezvous.rank_eq ordered_rat SliceSort.merge.toSorter
    defaultConfig)
  rw [select_eq, rank_eq]
  exact ⟨distinct, selectBy_movesLittle SliceSort.merge _ _ _ _ distinct⟩

end Ranking

end FlexStore.Placement
