import FlexStore.Go.Path
import FlexStore.Go.Text
import FlexStore.Storage.ChunkStore

/-!
# Where a chunk lies

The file of a chunk is found from its identifier: two directories named by its first four
digits, and a file named by the whole identifier. Identifiers come from other processes, so
nothing but a bare UUID may get into a path. Strings are their bytes here, valid UTF-8 or
not.
-/

namespace FlexStore.Storage.Paths

open Go Go.Path

inductive ChunkIDError where
  | length (id : Bytes)
  | notUUID (id : Bytes)
  | notLowercaseHex (id : Bytes)
  deriving DecidableEq, Repr

def hyphen : UInt8 := 0x2D

def hyphenAt (i : Nat) : Bool := i = 8 || i = 13 || i = 18 || i = 23

def isHex (c : UInt8) : Bool := (0x30 ≤ c && c ≤ 0x39) || (0x61 ≤ c && c ≤ 0x66)

/-- The loop over the bytes, from a position on. -/
def checkFrom (id : Bytes) : Nat → Bytes → Except ChunkIDError Unit
  | _, [] => .ok ()
  | i, c :: rest =>
    if hyphenAt i then
      if c ≠ hyphen then .error (.notUUID id) else checkFrom id (i + 1) rest
    else if isHex c = false then .error (.notLowercaseHex id)
    else checkFrom id (i + 1) rest

def validateChunkID (id : Bytes) : Except ChunkIDError Unit :=
  if id.length ≠ 36 then .error (.length id) else checkFrom id 0 id

def fanoutDepth : Nat := 2

/-- `.chunk`. -/
def chunkSuffix : Bytes := [0x2E, 0x63, 0x68, 0x75, 0x6E, 0x6B]

def relativePath (chunkID : Bytes) : Except ChunkIDError Bytes := do
  validateChunkID chunkID
  let flat := chunkID.filter (· ≠ hyphen)
  let parts := (List.range fanoutDepth).map fun i => (flat.drop (i * 2)).take 2
  .ok (join (parts ++ [chunkID ++ chunkSuffix]))

/-- `data`. -/
def dataDirName : Bytes := [0x64, 0x61, 0x74, 0x61]

/-- The data directory below the root of a store. -/
def dataDir (root : Bytes) : Bytes := join [root, dataDirName]

def pathFor (root chunkID : Bytes) : Except ChunkIDError Bytes := do
  let rel ← relativePath chunkID
  .ok (join [dataDir root, rel])

/-- What may stand at a position of an identifier. -/
def Allowed (i : Nat) (c : UInt8) : Prop := if hyphenAt i then c = hyphen else isHex c = true

structure IsChunkID (id : Bytes) : Prop where
  length : id.length = 36
  bytes : ∀ i c, id[i]? = some c → Allowed i c

def components (id : Bytes) : List Bytes := [id.take 2, (id.drop 2).take 2, id ++ chunkSuffix]

section Validate

variable {id rest : Bytes} {i : Nat}

theorem checkFrom_eq_ok :
    checkFrom id i rest = .ok () ↔ ∀ j c, rest[j]? = some c → Allowed (i + j) c := by
  induction rest generalizing i with
  | nil => simp [checkFrom]
  | cons b rest ih =>
    have split : (∀ j c, (b :: rest)[j]? = some c → Allowed (i + j) c) ↔
        Allowed i b ∧ ∀ j c, rest[j]? = some c → Allowed (i + 1 + j) c := by
      constructor
      · intro all
        refine ⟨all 0 b rfl, ?_⟩
        intro j c found
        have later := all (j + 1) c found
        rwa [show i + (j + 1) = i + 1 + j by omega] at later
      · rintro ⟨first, others⟩ j c found
        cases j with
        | zero =>
          cases found
          exact first
        | succ j =>
          rw [show i + (j + 1) = i + 1 + j by omega]
          exact others j c found
    rw [split, checkFrom, ← ih, Allowed]
    by_cases dash : hyphenAt i = true
    · rw [if_pos dash, if_pos dash]
      by_cases same : b = hyphen
      · rw [if_neg (not_not.mpr same)]
        exact ⟨fun h => ⟨same, h⟩, fun h => h.2⟩
      · rw [if_pos same]
        constructor
        · intro absurd_
          cases absurd_
        · exact fun h => absurd h.1 same
    · rw [if_neg dash, if_neg dash]
      by_cases hex : isHex b = true
      · rw [if_neg (by simp [hex])]
        exact ⟨fun h => ⟨hex, h⟩, fun h => h.2⟩
      · rw [if_pos (by simpa using hex)]
        constructor
        · intro absurd_
          cases absurd_
        · exact fun h => absurd h.1 hex

theorem validateChunkID_eq_ok : validateChunkID id = .ok () ↔ IsChunkID id := by
  rw [validateChunkID]
  by_cases long : id.length = 36
  · rw [if_neg (not_not.mpr long), checkFrom_eq_ok]
    constructor
    · intro all
      refine ⟨long, ?_⟩
      intro i c found
      have there := all i c found
      rwa [Nat.zero_add] at there
    · intro valid i c found
      rw [Nat.zero_add]
      exact valid.bytes i c found
  · rw [if_pos long]
    constructor
    · intro absurd_
      cases absurd_
    · exact fun valid => absurd valid.length long

theorem isHex_toNat {c : UInt8} (hex : isHex c = true) :
    48 ≤ c.toNat ∧ c.toNat ≤ 57 ∨ 97 ≤ c.toNat ∧ c.toNat ≤ 102 := by
  simpa [isHex, UInt8.le_iff_toNat_le] using hex

theorem Allowed.toNat {c : UInt8} (allowed : Allowed i c) :
    c.toNat = 45 ∨ 48 ≤ c.toNat ∧ c.toNat ≤ 57 ∨ 97 ≤ c.toNat ∧ c.toNat ≤ 102 := by
  rw [Allowed] at allowed
  split_ifs at allowed
  · exact Or.inl (congrArg UInt8.toNat allowed)
  · exact Or.inr (isHex_toNat allowed)

/-- The bytes before the first hyphen are digits. -/
theorem IsChunkID.digits (valid : IsChunkID id) : ∀ c ∈ id.take 8, isHex c = true := by
  intro c listed
  obtain ⟨i, found⟩ := List.mem_iff_getElem?.mp listed
  have low : i < 8 := by
    have inside := (List.getElem?_eq_some_iff.mp found).1
    rw [List.length_take] at inside
    omega
  rw [List.getElem?_take_of_lt low] at found
  have allowed := valid.bytes i c found
  rwa [Allowed, if_neg] at allowed
  simp only [hyphenAt, Bool.or_eq_true, decide_eq_true_eq]
  omega

theorem IsChunkID.allowed (valid : IsChunkID id) {c : UInt8} (listed : c ∈ id) :
    ∃ i, Allowed i c := by
  obtain ⟨i, found⟩ := List.mem_iff_getElem?.mp listed
  exact ⟨i, valid.bytes i c found⟩

/-- No byte of an identifier is a separator. -/
theorem IsChunkID.no_separator (valid : IsChunkID id) : separator ∉ id := by
  intro listed
  obtain ⟨i, allowed⟩ := valid.allowed listed
  have value := allowed.toNat
  have slash : separator.toNat = 47 := rfl
  omega

end Validate

section Components

variable {id : Bytes}

/-- Removing the hyphens does not change the first digits. -/
theorem IsChunkID.parts (valid : IsChunkID id) :
    ((List.range fanoutDepth).map fun i =>
      ((id.filter (· ≠ hyphen)).drop (i * 2)).take 2) ++ [id ++ chunkSuffix] = components id := by
  have front : id.filter (· ≠ hyphen) = id.take 8 ++ (id.drop 8).filter (· ≠ hyphen) := by
    conv_lhs => rw [← List.take_append_drop 8 id, List.filter_append]
    rw [List.filter_eq_self.mpr]
    intro c listed
    have hex := isHex_toNat (valid.digits c listed)
    rw [decide_eq_true_eq]
    rintro rfl
    have dash : hyphen.toNat = 45 := rfl
    omega
  have long : (id.take 8).length = 8 := by
    rw [List.length_take, valid.length]
    rfl
  have first : (id.filter (· ≠ hyphen)).take 2 = id.take 2 := by
    rw [front, List.take_append_of_le_length (by omega), List.take_take]
    rfl
  have second : ((id.filter (· ≠ hyphen)).drop 2).take 2 = (id.drop 2).take 2 := by
    rw [front, List.drop_append_of_le_length (by omega), List.take_append_of_le_length (by
      rw [List.length_drop]
      omega), List.drop_take, List.take_take]
    rfl
  show [(id.filter (· ≠ hyphen)).take 2, ((id.filter (· ≠ hyphen)).drop 2).take 2] ++ _ = _
  rw [first, second]
  rfl

/-- Digits name a directory below. -/
theorem proper_digits {c : Bytes} (long : c.length = 2) (hex : ∀ b ∈ c, isHex b = true) :
    Proper c where
  nonempty := by
    rintro rfl
    cases long
  not_dot := by
    rintro rfl
    cases long
  not_dotDot := by
    rintro rfl
    exact absurd (hex 0x2E List.mem_cons_self) (by decide)
  no_separator := fun listed => absurd (hex _ listed) (by decide)

theorem IsChunkID.proper_first (valid : IsChunkID id) : Proper (id.take 2) := by
  apply proper_digits
  · rw [List.length_take, valid.length]
    rfl
  · intro b listed
    apply valid.digits
    have inside : id.take 2 = (id.take 8).take 2 := by rw [List.take_take]; rfl
    rw [inside] at listed
    exact List.mem_of_mem_take listed

theorem IsChunkID.proper_second (valid : IsChunkID id) : Proper ((id.drop 2).take 2) := by
  apply proper_digits
  · rw [List.length_take, List.length_drop, valid.length]
    rfl
  · intro b listed
    apply valid.digits
    have inside : (id.drop 2).take 2 = ((id.take 8).drop 2).take 2 := by
      rw [List.drop_take, List.take_take]
      rfl
    rw [inside] at listed
    exact List.mem_of_mem_drop (List.mem_of_mem_take listed)

theorem IsChunkID.proper_name (valid : IsChunkID id) : Proper (id ++ chunkSuffix) where
  nonempty := List.append_ne_nil_of_right_ne_nil _ (by decide)
  not_dot same := by
    have long := congrArg List.length same
    rw [List.length_append, valid.length] at long
    cases long
  not_dotDot same := by
    have long := congrArg List.length same
    rw [List.length_append, valid.length] at long
    cases long
  no_separator listed := by
    obtain inside | behind := List.mem_append.mp listed
    · exact valid.no_separator inside
    · exact absurd behind (by decide)

theorem IsChunkID.proper (valid : IsChunkID id) : ∀ c ∈ components id, Proper c := by
  rw [components, List.forall_mem_cons, List.forall_mem_cons, List.forall_mem_singleton]
  exact ⟨valid.proper_first, valid.proper_second, valid.proper_name⟩

/-- The path of every UUID, and of nothing else. -/
theorem relativePath_eq_ok {path : Bytes} :
    relativePath id = .ok path ↔ IsChunkID id ∧ path = concat (components id) := by
  rw [relativePath]
  cases checked : validateChunkID id with
  | error e =>
    constructor
    · intro absurd_
      cases absurd_
    · rintro ⟨valid, _⟩
      rw [validateChunkID_eq_ok.mpr valid] at checked
      cases checked
  | ok u =>
    have valid := validateChunkID_eq_ok.mp checked
    show Except.ok (join _) = _ ↔ _
    have joined : join (components id) = concat (components id) :=
      join_proper (List.cons_ne_nil _ _) valid.proper
    rw [valid.parts, joined, Except.ok.injEq]
    exact ⟨fun same => ⟨valid, same.symm⟩, fun same => same.2.symm⟩

end Components

/-- A path of two directories with names of two bytes and a file, with two separators and no
component that leads up. -/
structure Fanned (path : Bytes) (first second name : Bytes) : Prop where
  split : path = first ++ separator :: second ++ separator :: name
  lengths : first.length = 2 ∧ second.length = 2
  proper : Proper first ∧ Proper second ∧ Proper name

theorem relativePath_fanned {id path : Bytes} (found : relativePath id = .ok path) :
    Fanned path (id.take 2) ((id.drop 2).take 2) (id ++ chunkSuffix) := by
  obtain ⟨valid, rfl⟩ := relativePath_eq_ok.mp found
  refine ⟨?_, ⟨?_, ?_⟩, valid.proper_first, valid.proper_second, valid.proper_name⟩
  · rw [components, concat, List.intercalate_cons_cons, List.intercalate_cons_cons,
      List.intercalate_singleton]
    simp only [List.append_assoc, List.cons_append, List.nil_append]
  · rw [List.length_take, valid.length]
    rfl
  · rw [List.length_take, List.length_drop, valid.length]
    rfl

/-- The name of the file tells the chunks apart. -/
theorem relativePath_injective {id id' path : Bytes} (first : relativePath id = .ok path)
    (second : relativePath id' = .ok path) : id = id' := by
  obtain ⟨valid, split⟩ := relativePath_eq_ok.mp first
  obtain ⟨valid', split'⟩ := relativePath_eq_ok.mp second
  have same : components id = components id' := by
    have single (id : Bytes) (valid : IsChunkID id) : ∀ c ∈ components id, separator ∉ c :=
      fun c listed => (valid.proper c listed).no_separator
    rw [← List.splitOn_intercalate separator (single id valid) (List.cons_ne_nil _ _),
      ← List.splitOn_intercalate separator (single id' valid') (List.cons_ne_nil _ _)]
    exact congrArg (List.splitOn separator) (split.symm.trans split')
  rw [components, components, List.cons.injEq, List.cons.injEq, List.cons.injEq] at same
  exact List.append_cancel_right same.2.2.1

/-- The file lies below the data directory. -/
theorem pathFor_inside {root id path : Bytes} (found : pathFor root id = .ok path) :
    resolve path = ((resolve (dataDir root)).1, (resolve (dataDir root)).2 ++ components id) := by
  rw [pathFor] at found
  cases rel : relativePath id with
  | error e =>
    rw [rel] at found
    cases found
  | ok relative =>
    rw [rel] at found
    cases found
    obtain ⟨valid, rfl⟩ := relativePath_eq_ok.mp rel
    apply resolve_join ?_ valid.proper
    rw [dataDir, join]
    split
    next none_ =>
      cases root <;> simp [dataDirName] at none_
    next => exact clean_ne_nil _

end FlexStore.Storage.Paths
