import FlexStore.Go.Slice
import FlexStore.Storage.Paths

/-!
# The inventory of a node

`WalkInventory` walks the data directory and hands the chunks that it finds to a function, in
batches. The batch is one slice that is filled, handed out, and cut back to length zero to be
filled again; what the function sees is the content of the slice at that moment.

The walk is a sequence of visits (`walkDir`). A visited file is a chunk if its name is a chunk
identifier with the suffix of chunk files; the callback ignores everything else. So the batches
are the found chunks in the order of the walk, cut into pieces of the batch size (`batches`),
and if the chunk files of the tree are those of a set of identifiers, each is handed out once.
-/

namespace FlexStore.Storage.Inventory

open Go Paths

structure InventoryEntry where
  chunkID : Bytes
  size : Int
  modified : Int
  deriving DecidableEq, Repr

/-- What `Info` answers for a file: it may have been deleted since the directory was read. -/
inductive Stat where
  | found (size modified : Int)
  | gone
  | failed
  deriving DecidableEq, Repr

/-- An entry of a directory. The children are in the order in which they are read. -/
inductive Entry where
  | file (name : Bytes) (stat : Stat)
  | dir (name : Bytes) (children : List Entry)
  | unreadable (name : Bytes)

/-- A call of the function that `filepath.WalkDir` is given. -/
inductive Visit where
  | directory (path : List Bytes)
  | file (path : List Bytes) (name : Bytes) (stat : Stat)
  | failed (path : List Bytes)
  deriving DecidableEq, Repr

mutual

/-- The visits of an entry below a directory. -/
def visits (above : List Bytes) : Entry → List Visit
  | .file name stat => [.file (above ++ [name]) name stat]
  | .dir name children => .directory (above ++ [name]) :: visitsAll (above ++ [name]) children
  | .unreadable name => [.directory (above ++ [name]), .failed (above ++ [name])]

def visitsAll (above : List Bytes) : List Entry → List Visit
  | [] => []
  | entry :: rest => visits above entry ++ visitsAll above rest

end

/-- `filepath.WalkDir` of a directory with these entries. -/
def walkDir (children : List Entry) : List Visit := .directory [] :: visitsAll [] children

def decode (name : Bytes) : Option Bytes :=
  if chunkSuffix.isSuffixOf name then
    let id := name.take (name.length - chunkSuffix.length)
    match Paths.validateChunkID id with
    | .ok _ => some id
    | .error _ => none
  else none

inductive Cause (ε : Type) where
  | io
  | fn (e : ε)

/-- An error of the walk is returned with a text around it, one of the last batch is not. -/
inductive WalkError (ε : Type) where
  | walk (cause : Cause ε)
  | fn (e : ε)

variable {σ ε : Type}

/-- The variables of the walk. `state` is what the function has done so far. -/
structure Walk (σ : Type) where
  heap : Heap InventoryEntry
  batch : Slice
  state : σ

def step (batchSize : Nat) (fn : σ → List InventoryEntry → Except ε σ) (w : Walk σ) :
    Visit → Except (Cause ε) (Walk σ)
  | .failed _ => .error .io
  | .directory _ => .ok w
  | .file _ name stat =>
    match decode name with
    | none => .ok w
    | some id =>
      match stat with
      | .gone => .ok w
      | .failed => .error .io
      | .found size modified =>
        let (heap, batch) := w.batch.append w.heap [⟨id, size, modified⟩]
        if batchSize ≤ batch.len then
          match fn w.state (batch.contents heap) with
          | .error e => .error (.fn e)
          | .ok state => .ok ⟨heap, batch.reslice 0 0, state⟩
        else .ok ⟨heap, batch, w.state⟩

def effectiveSize (batchSize : Int) : Nat := (if batchSize ≤ 0 then 1000 else batchSize).toNat

def zeroEntry : InventoryEntry := ⟨[], 0, 0⟩

def walkInventory (batchSize : Int) (fn : σ → List InventoryEntry → Except ε σ) (state : σ)
    (children : List Entry) : Except (WalkError ε) σ :=
  let size := effectiveSize batchSize
  let (heap, batch) := makeSlice ⟨[]⟩ zeroEntry 0 size
  match (walkDir children).foldlM (step size fn) ⟨heap, batch, state⟩ with
  | .error cause => .error (.walk cause)
  | .ok w =>
    if 0 < w.batch.len then
      match fn w.state (w.batch.contents w.heap) with
      | .error e => .error (.fn e)
      | .ok state => .ok state
    else .ok w.state

def entryOf : Visit → Option InventoryEntry
  | .file _ name (.found size modified) => (decode name).map fun id => ⟨id, size, modified⟩
  | _ => none

def Visit.Fine : Visit → Prop
  | .failed _ => False
  | .directory _ => True
  | .file _ _ stat => stat ≠ .failed

/-- A chunk file has not been deleted during the walk. -/
def Visit.Present : Visit → Prop
  | .file _ name .gone => decode name = none
  | _ => True

instance : DecidablePred Visit.Fine
  | .failed _ => inferInstanceAs (Decidable False)
  | .directory _ => inferInstanceAs (Decidable True)
  | .file _ _ stat => inferInstanceAs (Decidable (stat ≠ .failed))

instance : DecidablePred Visit.Present
  | .failed _ => inferInstanceAs (Decidable True)
  | .directory _ => inferInstanceAs (Decidable True)
  | .file _ name .gone => inferInstanceAs (Decidable (decode name = none))
  | .file _ _ (.found _ _) => inferInstanceAs (Decidable True)
  | .file _ _ .failed => inferInstanceAs (Decidable True)

/-- Full batches, and what is left over. -/
def collect (size : Nat) : List InventoryEntry → List InventoryEntry →
    List (List InventoryEntry) × List InventoryEntry
  | pending, [] => ([], pending)
  | pending, entry :: rest =>
    if size ≤ (pending ++ [entry]).length then
      ((pending ++ [entry]) :: (collect size [] rest).1, (collect size [] rest).2)
    else collect size (pending ++ [entry]) rest

/-- The batches that are handed out: the last one may be shorter. -/
def batches (size : Nat) (entries : List InventoryEntry) : List (List InventoryEntry) :=
  (collect size [] entries).1 ++
    if (collect size [] entries).2 = [] then [] else [(collect size [] entries).2]

section Batches

variable {size : Nat} {pending : List InventoryEntry}

theorem collect_flatten (size : Nat) (pending entries : List InventoryEntry) :
    (collect size pending entries).1.flatten ++ (collect size pending entries).2 =
      pending ++ entries := by
  fun_induction collect size pending entries with
  | case1 pending => simp
  | case2 pending entry rest full ih =>
    rw [List.flatten_cons, List.append_assoc, ih, List.nil_append, List.append_assoc,
      List.singleton_append]
  | case3 pending entry rest short ih => rw [ih, List.append_assoc, List.singleton_append]

theorem collect_lengths (entries : List InventoryEntry) (positive : 1 ≤ size)
    (room : pending.length < size) :
    (∀ batch ∈ (collect size pending entries).1, batch.length = size) ∧
      (collect size pending entries).2.length < size := by
  fun_induction collect size pending entries with
  | case1 pending => exact ⟨fun batch listed => absurd listed List.not_mem_nil, room⟩
  | case2 pending entry rest full ih =>
    obtain ⟨others, last⟩ := ih positive
    refine ⟨List.forall_mem_cons.mpr ⟨?_, others⟩, last⟩
    rw [List.length_append, List.length_singleton] at full ⊢
    omega
  | case3 pending entry rest short ih => exact ih (by omega)

theorem batches_flatten (size : Nat) (entries : List InventoryEntry) :
    (batches size entries).flatten = entries := by
  have whole := collect_flatten size [] entries
  rw [batches, List.flatten_append]
  split_ifs with none_
  · rwa [none_] at whole
  · rw [List.flatten_singleton]
    exact whole

/-- Every batch has at least one entry and at most as many as the size. -/
theorem batches_lengths (positive : 1 ≤ size) (entries : List InventoryEntry) :
    ∀ batch ∈ batches size entries, 1 ≤ batch.length ∧ batch.length ≤ size := by
  obtain ⟨full, short⟩ := collect_lengths entries positive
    (show ([] : List InventoryEntry).length < size from positive)
  intro batch listed
  obtain inside | last := List.mem_append.mp listed
  · have exact_ := full batch inside
    omega
  · split_ifs at last with none_
    · exact absurd last List.not_mem_nil
    · rw [List.mem_singleton.mp last]
      have some_ := List.length_pos_iff.mpr none_
      omega

end Batches

section Walk

variable {size : Nat} {w : Walk σ} {pending : List InventoryEntry}
variable {fn : σ → List InventoryEntry → Except ε σ}

/-- The slice holds the entries that have not been handed out, and there is room for a
batch. -/
structure Filled (size : Nat) (w : Walk σ) (pending : List InventoryEntry) : Prop where
  valid : w.batch.Valid w.heap
  room : size ≤ w.batch.cap
  contents : w.batch.contents w.heap = pending

theorem Filled.len (filled : Filled size w pending) : w.batch.len = pending.length := by
  rw [← filled.contents, filled.valid.length_contents]

/-- The slice after an entry has been appended to it. -/
def Walk.appended (w : Walk σ) (entry : InventoryEntry) : Walk σ where
  heap := (w.batch.append w.heap [entry]).1
  batch := (w.batch.append w.heap [entry]).2
  state := w.state

theorem Filled.append (filled : Filled size w pending) (short : pending.length < size)
    (entry : InventoryEntry) : Filled size (w.appended entry) (pending ++ [entry]) := by
  have room : w.batch.len + [entry].length ≤ w.batch.cap := by
    have enough := filled.room
    rw [filled.len, List.length_singleton]
    omega
  refine ⟨filled.valid.append_in_place room, ?_, ?_⟩
  · show size ≤ (w.batch.append w.heap [entry]).2.cap
    rw [Slice.append_in_place room]
    exact filled.room
  · show (w.batch.append w.heap [entry]).2.contents (w.batch.append w.heap [entry]).1 = _
    rw [filled.valid.contents_append room, filled.contents]

/-- The slice cut back to length zero. -/
theorem Filled.reset (filled : Filled size w pending) (state : σ) :
    Filled size ⟨w.heap, w.batch.reslice 0 0, state⟩ [] where
  valid := filled.valid.reslice (Nat.le_refl 0) (Nat.zero_le _)
  room := filled.room
  contents := Slice.contents_reslice_zero _ _

/-- A visit without an entry changes nothing. -/
theorem step_none {v : Visit} (fine : v.Fine) (none_ : entryOf v = none) :
    step size fn w v = .ok w := by
  cases v with
  | directory path => rfl
  | failed path => exact absurd fine not_false
  | file path name stat =>
    rw [step]
    cases stat with
    | gone => cases decode name <;> rfl
    | failed => exact absurd rfl fine
    | found bytes modified =>
      rw [entryOf, Option.map_eq_none_iff] at none_
      rw [none_]

/-- A visit with an entry appends it, and hands out the batch if it is full. -/
theorem step_some {v : Visit} {entry : InventoryEntry} (some_ : entryOf v = some entry) :
    step size fn w v =
      if size ≤ (w.appended entry).batch.len then
        match fn w.state ((w.appended entry).batch.contents (w.appended entry).heap) with
        | .error e => .error (.fn e)
        | .ok state => .ok ⟨(w.appended entry).heap, (w.appended entry).batch.reslice 0 0, state⟩
      else .ok (w.appended entry) := by
  cases v with
  | directory path | failed path => cases some_
  | file path name stat =>
    cases stat with
    | gone | failed => cases some_
    | found bytes modified =>
      rw [entryOf] at some_
      obtain ⟨id, decoded, rfl⟩ := Option.map_eq_some_iff.mp some_
      rw [step, decoded]
      rfl

/-- How a walk ends whose function does this on the full batches: with its error, or with
what is left over in the slice. -/
def Ends (size : Nat) (result : Except ε σ) (pending : List InventoryEntry)
    (out : Except (Cause ε) (Walk σ)) : Prop :=
  match result with
  | .error e => out = .error (.fn e)
  | .ok state => ∃ w, out = .ok w ∧ w.state = state ∧ Filled size w pending

/-- The walk hands out the full batches of the entries, by induction on the visits. -/
theorem foldlM_step (fn : σ → List InventoryEntry → Except ε σ) {vs : List Visit}
    (fine : ∀ v ∈ vs, v.Fine) (positive : 1 ≤ size)
    (filled : Filled size w pending) (short : pending.length < size) :
    Ends size ((collect size pending (vs.filterMap entryOf)).1.foldlM fn w.state)
      (collect size pending (vs.filterMap entryOf)).2 (vs.foldlM (step size fn) w) := by
  induction vs generalizing w pending with
  | nil => exact ⟨w, rfl, rfl, filled⟩
  | cons v vs ih =>
    obtain ⟨first, others⟩ := List.forall_mem_cons.mp fine
    rw [List.foldlM_cons]
    cases found : entryOf v with
    | none =>
      rw [step_none first found, List.filterMap_cons_none found]
      exact ih others filled short
    | some entry =>
      have more := filled.append short entry
      have count : (w.appended entry).batch.len = (pending ++ [entry]).length := more.len
      rw [step_some found, List.filterMap_cons_some found, collect, count]
      by_cases full : size ≤ (pending ++ [entry]).length
      · rw [if_pos full, if_pos full, List.foldlM_cons, more.contents]
        cases fn w.state (pending ++ [entry]) with
        | error e => rfl
        | ok state => exact ih others (more.reset state) positive
      · rw [if_neg full, if_neg full]
        exact ih others more (by omega)

theorem effectiveSize_pos (batchSize : Int) : 1 ≤ effectiveSize batchSize := by
  rw [effectiveSize]
  split_ifs <;> omega

theorem filled_makeSlice (size : Nat) (state : σ) :
    Filled size ⟨(makeSlice ⟨[]⟩ zeroEntry 0 size).1, (makeSlice ⟨[]⟩ zeroEntry 0 size).2, state⟩
      [] where
  valid := makeSlice_valid (Nat.zero_le size)
  room := by
    show size ≤ (List.replicate size zeroEntry).length
    rw [List.length_replicate]
  contents := by
    show List.take 0 _ = _
    rw [List.take_zero]

/-- `WalkInventory` calls the function on the batches of the entries, one after the other,
until it fails. -/
theorem walkInventory_eq {children : List Entry} (fine : ∀ v ∈ walkDir children, v.Fine)
    (batchSize : Int) (fn : σ → List InventoryEntry → Except ε σ) (state : σ) :
    (walkInventory batchSize fn state children).toOption =
      ((batches (effectiveSize batchSize) ((walkDir children).filterMap entryOf)).foldlM fn
        state).toOption := by
  have positive := effectiveSize_pos batchSize
  have ends := foldlM_step fn fine positive (filled_makeSlice _ state) positive
  rw [walkInventory, batches, List.foldlM_append]
  dsimp only at ends ⊢
  generalize (collect _ [] ((walkDir children).filterMap entryOf)).2 = left at ends ⊢
  cases spec : (collect (effectiveSize batchSize) []
      ((walkDir children).filterMap entryOf)).1.foldlM fn state with
  | error e =>
    rw [spec] at ends
    rw [show (walkDir children).foldlM _ _ = _ from ends]
    rfl
  | ok state' =>
    rw [spec] at ends
    obtain ⟨w, out, rfl, filled⟩ := ends
    rw [out]
    dsimp only
    by_cases none_ : left = []
    · rw [if_neg (by rw [filled.len, none_]; decide), if_pos none_]
      rfl
    · have some_ := List.length_pos_iff.mpr none_
      rw [if_pos (by rw [filled.len]; exact some_), if_neg none_, filled.contents]
      show _ = Except.toOption (List.foldlM fn w.state [left])
      rw [List.foldlM_cons]
      cases fn w.state left <;> rfl

end Walk

section Names

variable {id name : Bytes}

/-- The name of a chunk file is decoded to its identifier. -/
theorem decode_name (valid : IsChunkID id) : decode (id ++ chunkSuffix) = some id := by
  have trimmed :
      (id ++ chunkSuffix).take ((id ++ chunkSuffix).length - chunkSuffix.length) = id := by
    rw [List.length_append, Nat.add_sub_cancel, List.take_left]
  rw [decode, if_pos (by simp), trimmed]
  dsimp only
  rw [validateChunkID_eq_ok.mpr valid]

def chunkPath : Visit → Option (List Bytes)
  | .file path name _ => if (decode name).isSome then some path else none
  | _ => none

/-- The path ends with the name of the file. -/
def Visit.Named : Visit → Prop
  | .file path name _ => path.getLast? = some name
  | _ => True

mutual

theorem visits_named (above : List Bytes) : ∀ entry, ∀ v ∈ visits above entry, v.Named
  | .file name stat => by
    rw [visits, List.forall_mem_singleton]
    exact List.getLast?_concat
  | .dir name children => by
    rw [visits, List.forall_mem_cons]
    exact ⟨trivial, visitsAll_named (above ++ [name]) children⟩
  | .unreadable name => by
    rw [visits, List.forall_mem_cons, List.forall_mem_singleton]
    exact ⟨trivial, trivial⟩

theorem visitsAll_named (above : List Bytes) : ∀ entries, ∀ v ∈ visitsAll above entries, v.Named
  | [] => by
    rw [visitsAll]
    exact fun v listed => absurd listed List.not_mem_nil
  | entry :: rest => by
    rw [visitsAll, List.forall_mem_append]
    exact ⟨visits_named above entry, visitsAll_named above rest⟩

end

theorem walkDir_named (children : List Entry) : ∀ v ∈ walkDir children, v.Named :=
  List.forall_mem_cons.mpr ⟨trivial, visitsAll_named [] children⟩

/-- The tree can be read and its chunk files are those of these identifiers, each at its
place. What else is there has a name that is not that of a chunk. -/
structure Stores (ids : List Bytes) (children : List Entry) : Prop where
  distinct : ids.Nodup
  valid : ∀ id ∈ ids, IsChunkID id
  fine : ∀ v ∈ walkDir children, v.Fine
  present : ∀ v ∈ walkDir children, v.Present
  files : ((walkDir children).filterMap chunkPath).Perm (ids.map components)

/-- The entries of the walk are those of the identifiers. -/
theorem Stores.entries {ids : List Bytes} {children : List Entry} (stores : Stores ids children) :
    (((walkDir children).filterMap entryOf).map (·.chunkID)).Perm ids := by
  -- The identifier of an entry can be read off the path of its file.
  have reading : ((walkDir children).filterMap entryOf).map (·.chunkID) =
      ((walkDir children).filterMap chunkPath).filterMap fun path =>
        path.getLast?.bind decode := by
    rw [List.map_filterMap, List.filterMap_filterMap]
    apply List.filterMap_congr
    intro v listed
    cases v with
    | directory path => rfl
    | failed path => rfl
    | file path name stat =>
      have named : path.getLast? = some name := walkDir_named children _ listed
      cases decoded : decode name with
      | none =>
        simp only [chunkPath, decoded, Option.isSome_none]
        cases stat with
        | found bytes modified => rw [entryOf, decoded]; rfl
        | gone => rfl
        | failed => rfl
      | some id =>
        simp only [chunkPath, decoded, Option.isSome_some, if_true, Option.bind_some, named]
        cases stat with
        | found bytes modified => rw [entryOf, decoded]; rfl
        | gone =>
          rw [show decode name = none from stores.present _ listed] at decoded
          cases decoded
        | failed => exact absurd rfl (stores.fine _ listed)
  have names : (ids.map components).filterMap (fun path => path.getLast?.bind decode) = ids := by
    rw [List.filterMap_map]
    conv_rhs => rw [← List.filterMap_some (l := ids)]
    apply List.filterMap_congr
    intro id listed
    exact decode_name (stores.valid id listed)
  rw [reading]
  exact (stores.files.filterMap _).trans (List.Perm.of_eq names)

end Names

/-- A path is given to every UUID and to nothing else, no two of them have the same one, it
has two directories and a file and lies below the data directory. Walking a tree that stores
the chunks of some identifiers hands out each of them once and nothing else, in batches of at
least one and at most as many entries as the batch size, or as a thousand if that is not
positive. -/
theorem paths_and_inventory :
    (∀ id, (∃ path, relativePath id = .ok path) ↔ IsChunkID id) ∧
    (∀ id id' path, relativePath id = .ok path → relativePath id' = .ok path → id = id') ∧
    (∀ id path, relativePath id = .ok path → ∃ first second name, Fanned path first second name) ∧
    (∀ root id path, pathFor root id = .ok path →
      Path.resolve path =
        ((Path.resolve (dataDir root)).1, (Path.resolve (dataDir root)).2 ++ components id)) ∧
    ∀ (batchSize : Int) ids children, Stores ids children →
      ∃ handed : List (List InventoryEntry),
        (∀ batch ∈ handed, 1 ≤ batch.length ∧
          (batch.length : Int) ≤ if batchSize ≤ 0 then 1000 else batchSize) ∧
        (handed.flatten.map (·.chunkID)).Perm ids ∧ ids.Nodup ∧
        ∀ (σ ε : Type) (fn : σ → List InventoryEntry → Except ε σ) (state : σ),
          (walkInventory batchSize fn state children).toOption =
            (handed.foldlM fn state).toOption := by
  refine ⟨?_, ?_, ?_, ?_, ?_⟩
  · intro id
    constructor
    · rintro ⟨path, found⟩
      exact (relativePath_eq_ok.mp found).1
    · exact fun valid => ⟨_, relativePath_eq_ok.mpr ⟨valid, rfl⟩⟩
  · intro id id' path first second
    exact relativePath_injective first second
  · intro id path found
    exact ⟨_, _, _, relativePath_fanned found⟩
  · intro root id path found
    exact pathFor_inside found
  · intro batchSize ids children stores
    refine ⟨batches (effectiveSize batchSize) ((walkDir children).filterMap entryOf), ?_, ?_,
      stores.distinct, fun σ ε fn state => walkInventory_eq stores.fine batchSize fn state⟩
    · intro batch listed
      obtain ⟨some_, bounded⟩ := batches_lengths (effectiveSize_pos batchSize) _ batch listed
      refine ⟨some_, ?_⟩
      rw [effectiveSize] at bounded
      split_ifs at bounded ⊢ <;> omega
    · rw [batches_flatten]
      exact stores.entries

/-- `8f1c9d2e-0000-4000-8000-000000000001`. -/
def sampleID : Bytes := utf8 "8f1c9d2e-0000-4000-8000-000000000001"

/-- The chunk of the sample, and a stray file beside it. -/
def sampleTree : List Entry :=
  [.dir (utf8 "8f") [.dir (utf8 "1c")
    [.file (utf8 "8f1c9d2e-0000-4000-8000-000000000001.chunk") (.found 3 5),
      .file (utf8 "README.txt") (.found 4 6)]]]

/-- Keeps the batches that it is called with. -/
def log (handed : List (List InventoryEntry)) (batch : List InventoryEntry) :
    Except Empty (List (List InventoryEntry)) :=
  .ok (handed ++ [batch])

theorem sampleTree_stores : Stores [sampleID] sampleTree where
  distinct := List.nodup_singleton _
  valid := by
    rw [List.forall_mem_singleton, ← validateChunkID_eq_ok]
    decide +kernel
  fine := by decide +kernel
  present := by decide +kernel
  files := by
    have paths : (walkDir sampleTree).filterMap chunkPath = [sampleID].map components := by
      decide +kernel
    rw [paths]

/-- With the batch size zero the chunk is handed out all the same, in a batch that is larger. -/
theorem walkInventory_zero :
    Stores [sampleID] sampleTree ∧
      (walkInventory 0 log [] sampleTree).toOption = some [[⟨sampleID, 3, 5⟩]] ∧
      ¬ ∃ handed : List (List InventoryEntry),
        (∀ batch ∈ handed, 1 ≤ batch.length ∧ (batch.length : Int) ≤ 0) ∧
          (walkInventory 0 log [] sampleTree).toOption = some handed := by
  have found : (walkDir sampleTree).filterMap entryOf = [⟨sampleID, 3, 5⟩] := by decide +kernel
  have handed : (walkInventory 0 log [] sampleTree).toOption = some [[⟨sampleID, 3, 5⟩]] := by
    rw [walkInventory_eq sampleTree_stores.fine, found]
    rfl
  refine ⟨sampleTree_stores, handed, ?_⟩
  rintro ⟨other, bounded, same⟩
  rw [handed] at same
  cases same
  have absurd_ := (bounded _ List.mem_cons_self).2
  cases absurd_

/-- The sample is found and handed out. -/
theorem paths_and_inventory_sample :
    (∃ path, relativePath sampleID = .ok path) ∧
      ∃ handed : List (List InventoryEntry),
        (handed.flatten.map (·.chunkID)).Perm [sampleID] ∧
          (walkInventory 1 log [] sampleTree).toOption = some handed := by
  refine ⟨(paths_and_inventory.1 sampleID).mpr
    (sampleTree_stores.valid _ (List.mem_singleton.mpr rfl)), ?_⟩
  obtain ⟨handed, _, perm, _, same⟩ :=
    paths_and_inventory.2.2.2.2 1 [sampleID] sampleTree sampleTree_stores
  refine ⟨handed, perm, ?_⟩
  rw [same]
  have kept (start rest : List (List InventoryEntry)) :
      (rest.foldlM log start).toOption = some (start ++ rest) := by
    induction rest generalizing start with
    | nil => exact congrArg some (List.append_nil start).symm
    | cons batch rest ih =>
      rw [List.foldlM_cons]
      show (rest.foldlM log (start ++ [batch])).toOption = _
      rw [ih, List.append_assoc, List.singleton_append]
  exact kept [] handed

end FlexStore.Storage.Inventory
