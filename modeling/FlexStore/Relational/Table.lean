import Mathlib.Data.List.Nodup
import Mathlib.Data.List.Perm.Basic
import Mathlib.Data.List.Sort
import Mathlib.Data.Option.Basic
import Mathlib.Logic.Function.Basic

/-!
# Finite relations with a primary key

A `Table key` is a finite list of rows on which `key` is injective. The primary
key is a field of the structure, so no statement below can produce two rows with
one key, and every reader of a table may look a row up instead of scanning.

The operations are the row-level statements of a relational database: updating
or deleting the rows a condition selects, inserting with or without a conflict
clause, and counting. Each one has a lookup equation, which makes a table behave
like a partial function from keys to rows in every later proof.
-/

namespace Relational

variable {ρ κ : Type}

/-- A list of rows in which no two rows share a primary key. -/
structure Table (key : ρ → κ) where
  rows : List ρ
  nodup : (rows.map key).Nodup

namespace Table

variable {key : ρ → κ}

def empty : Table key := ⟨[], List.nodup_nil⟩

/-- The rows that satisfy a condition, in table order. -/
def select (t : Table key) (p : ρ → Bool) : List ρ := t.rows.filter p

/-- `COUNT(*)` of the rows that satisfy a condition. -/
def count (t : Table key) (p : ρ → Bool) : Nat := t.rows.countP p

/-- Rewrite every row that satisfies `p`. The rewriting must keep the key, which
is what the database calls an update of non-key columns. -/
def updateWhere (t : Table key) (p : ρ → Bool) (f : ρ → ρ)
    (keep : ∀ r, key (f r) = key r := by intro _; rfl) : Table key where
  rows := t.rows.map fun r => if p r then f r else r
  nodup := by
    have same : (t.rows.map fun r => if p r then f r else r).map key = t.rows.map key := by
      rw [List.map_map]
      apply List.map_congr_left
      intro r _
      by_cases h : p r = true <;> simp [h, keep]
    rw [same]
    exact t.nodup

/-- Remove every row that satisfies `p`. -/
def deleteWhere (t : Table key) (p : ρ → Bool) : Table key where
  rows := t.rows.filter fun r => !p r
  nodup := t.nodup.sublist (List.filter_sublist.map key)

theorem eq_of_key {t : Table key} {r s : ρ} (hr : r ∈ t.rows) (hs : s ∈ t.rows)
    (same : key r = key s) : r = s :=
  List.inj_on_of_nodup_map t.nodup hr hs same

theorem nodup_select (t : Table key) (p : ρ → Bool) : ((t.select p).map key).Nodup :=
  t.nodup.sublist (List.filter_sublist.map key)

section Lookup

variable [DecidableEq κ]

def find? (t : Table key) (k : κ) : Option ρ := t.rows.find? fun r => key r = k

theorem find?_eq_none {t : Table key} {k : κ} :
    t.find? k = none ↔ ∀ r ∈ t.rows, key r ≠ k := by
  simp [find?]

theorem mem_of_find? {t : Table key} {k : κ} {r : ρ} (h : t.find? k = some r) :
    r ∈ t.rows ∧ key r = k := by
  refine ⟨List.mem_of_find?_eq_some h, ?_⟩
  simpa using List.find?_some h

/-- Insert a row whose key is not in use. -/
def append (t : Table key) (r : ρ) (fresh : t.find? (key r) = none) : Table key where
  rows := t.rows ++ [r]
  nodup := by
    rw [List.map_append, List.map_singleton]
    refine List.nodup_append.mpr ⟨t.nodup, List.nodup_singleton _, ?_⟩
    intro a inTable b new equal
    obtain ⟨s, member, rfl⟩ := List.mem_map.mp inTable
    exact find?_eq_none.mp fresh s member (equal.trans (List.mem_singleton.mp new))

/-- `INSERT`: refused when the key is already in use. -/
def insert? (t : Table key) (r : ρ) : Option (Table key) :=
  if fresh : t.find? (key r) = none then some (t.append r fresh) else none

/-- `INSERT ... ON CONFLICT DO NOTHING`. -/
def insertIgnore (t : Table key) (r : ρ) : Table key :=
  if fresh : t.find? (key r) = none then t.append r fresh else t

/-- `INSERT ... ON CONFLICT DO UPDATE`: a present row is rewritten in place. -/
def upsert (t : Table key) (r : ρ) (f : ρ → ρ)
    (keep : ∀ r, key (f r) = key r := by intro _; rfl) : Table key :=
  if fresh : t.find? (key r) = none then t.append r fresh
  else t.updateWhere (fun s => key s = key r) f keep

variable {t : Table key} {k : κ} {r : ρ}

theorem find?_of_mem (h : r ∈ t.rows) : t.find? (key r) = some r := by
  cases found : t.find? (key r) with
  | none => exact absurd rfl (find?_eq_none.mp found r h)
  | some s =>
    obtain ⟨member, same⟩ := mem_of_find? found
    rw [eq_of_key member h same]

theorem find?_eq_some : t.find? k = some r ↔ r ∈ t.rows ∧ key r = k := by
  constructor
  · exact mem_of_find?
  · rintro ⟨member, rfl⟩
    exact find?_of_mem member

/-- Looking up every key of the table gives its rows. -/
theorem perm_filterMap_find? {keys : List κ} (distinct : keys.Nodup)
    (all : ∀ r ∈ t.rows, key r ∈ keys) : (keys.filterMap t.find?).Perm t.rows := by
  refine (List.perm_ext_iff_of_nodup (distinct.filterMap ?_) t.nodup.of_map).mpr fun r => ?_
  · intro k k' r found found'
    exact (mem_of_find? found).2.symm.trans (mem_of_find? found').2
  · rw [List.mem_filterMap]
    constructor
    · rintro ⟨k, -, found⟩
      exact (mem_of_find? found).1
    · intro member
      exact ⟨key r, all r member, find?_of_mem member⟩

theorem filterMap_find?_keys (t : Table key) : (t.rows.map key).filterMap t.find? = t.rows := by
  rw [List.filterMap_map]
  exact (List.filterMap_congr fun r member => find?_of_mem member).trans List.filterMap_some

theorem mem_map_key_select {p : ρ → Bool} :
    k ∈ (t.select p).map key ↔ (t.find? k).any p = true := by
  rw [Option.any_eq_true]
  constructor
  · intro h
    obtain ⟨r, selected, rfl⟩ := List.mem_map.mp h
    obtain ⟨member, holds⟩ := List.mem_filter.mp selected
    exact ⟨r, find?_of_mem member, holds⟩
  · rintro ⟨r, found, holds⟩
    obtain ⟨member, rfl⟩ := mem_of_find? found
    exact List.mem_map.mpr ⟨r, List.mem_filter.mpr ⟨member, holds⟩, rfl⟩

/-- What a function makes of the rows: the part that belongs to a key is made of its row. -/
theorem filter_filterMap {β : Type*} {f : ρ → Option β} {tag : β → κ}
    (tagged : ∀ r b, f r = some b → tag b = key r) (t : Table key) (k : κ) :
    (t.rows.filterMap f).filter (fun b => tag b = k) = ((t.find? k).bind f).toList := by
  obtain ⟨rows, nodup⟩ := t
  show (rows.filterMap f).filter _ = ((rows.find? fun r => key r = k).bind f).toList
  induction rows with
  | nil => rfl
  | cons r rest ih =>
    obtain ⟨fresh, others⟩ := List.nodup_cons.mp nodup
    have later := ih others
    by_cases same : key r = k
    · have absent : rest.find? (fun r => key r = k) = none := by
        rw [List.find?_eq_none]
        intro s member equal
        refine fresh (List.mem_map.mpr ⟨s, member, ?_⟩)
        rw [of_decide_eq_true equal, same]
      rw [absent, Option.bind_none] at later
      rw [List.find?_cons_of_pos (by simpa using same), Option.bind_some]
      cases image : f r with
      | none => rwa [List.filterMap_cons_none image]
      | some b =>
        have kept : tag b = k := (tagged r b image).trans same
        rw [List.filterMap_cons_some image, List.filter_cons_of_pos (by simpa using kept),
          later]
        rfl
    · rw [List.find?_cons_of_neg (by simpa using same), ← later]
      cases image : f r with
      | none => rw [List.filterMap_cons_none image]
      | some b =>
        have dropped : tag b ≠ k := fun equal => same ((tagged r b image).symm.trans equal)
        rw [List.filterMap_cons_some image, List.filter_cons_of_neg (by simpa using dropped)]

@[simp] theorem find?_empty (k : κ) : (empty : Table key).find? k = none := rfl

@[simp] theorem find?_updateWhere (t : Table key) (p : ρ → Bool) (f : ρ → ρ)
    (keep : ∀ r, key (f r) = key r) (k : κ) :
    (t.updateWhere p f keep).find? k = (t.find? k).map fun r => if p r then f r else r := by
  simp only [find?, updateWhere, List.find?_map]
  congr 2
  funext r
  by_cases h : p r = true <;> simp [h, keep]

theorem find?_updateWhere_eq {p : ρ → Bool} {f : ρ → ρ}
    (keep : ∀ r, key (f r) = key r := by intro _; rfl) :
    (t.updateWhere p f keep).find? = fun k => (t.find? k).map fun r => if p r then f r else r :=
  funext (find?_updateWhere t p f keep)

@[simp] theorem find?_deleteWhere (t : Table key) (p : ρ → Bool) (k : κ) :
    (t.deleteWhere p).find? k = (t.find? k).filter fun r => !p r := by
  cases found : t.find? k with
  | none =>
    rw [Option.filter_none]
    refine find?_eq_none.mpr fun r member => ?_
    exact find?_eq_none.mp found r (List.mem_filter.mp member).1
  | some r =>
    obtain ⟨member, rfl⟩ := mem_of_find? found
    by_cases h : p r = true
    · rw [Option.filter_some, if_neg (by simp [h])]
      refine find?_eq_none.mpr fun s kept same => ?_
      obtain ⟨inTable, keeps⟩ := List.mem_filter.mp kept
      rw [eq_of_key inTable member same] at keeps
      simp [h] at keeps
    · rw [Option.filter_some, if_pos (by simp [h])]
      exact find?_eq_some.mpr ⟨List.mem_filter.mpr ⟨member, by simp [h]⟩, rfl⟩

@[simp] theorem find?_append (t : Table key) (r : ρ) (fresh : t.find? (key r) = none) (k : κ) :
    (t.append r fresh).find? k = (t.find? k).or (if key r = k then some r else none) := by
  simp only [find?, append, List.find?_append]
  congr 1
  by_cases h : key r = k <;> simp [h]

theorem find?_insertIgnore (t : Table key) (r : ρ) (k : κ) :
    (t.insertIgnore r).find? k = (t.find? k).or (if key r = k then some r else none) := by
  unfold insertIgnore
  split
  · exact find?_append t r _ k
  · rename_i present
    by_cases h : key r = k
    · subst h
      cases found : t.find? (key r) with
      | none => exact absurd found present
      | some s => rfl
    · simp [h]

theorem rows_insertIgnore (t : Table key) (r : ρ) :
    (t.insertIgnore r).rows = t.rows ∨ (t.insertIgnore r).rows = t.rows ++ [r] := by
  unfold insertIgnore
  split
  · exact Or.inr rfl
  · exact Or.inl rfl

theorem find?_upsert (t : Table key) (r : ρ) (f : ρ → ρ) (keep : ∀ r, key (f r) = key r) (k : κ) :
    (t.upsert r f keep).find? k =
      if key r = k then some ((t.find? k).elim r f) else t.find? k := by
  unfold upsert
  split
  · rename_i fresh
    rw [find?_append]
    by_cases h : key r = k
    · subst h
      simp [fresh]
    · simp [h]
  · rename_i present
    rw [find?_updateWhere]
    by_cases h : key r = k
    · subst h
      cases found : t.find? (key r) with
      | none => exact absurd found present
      | some s => simp [(mem_of_find? found).2]
    · rw [if_neg h]
      cases found : t.find? k with
      | none => rfl
      | some s =>
        have other : key s ≠ key r := fun same => h (same.symm.trans (mem_of_find? found).2)
        simp [other]

/-- As a partial function, a table with one more row is updated at the row's key. -/
theorem find?_append_eq (t : Table key) (r : ρ) (fresh : t.find? (key r) = none) :
    (t.append r fresh).find? = Function.update t.find? (key r) (some r) := by
  funext k
  rw [find?_append]
  by_cases h : k = key r
  · subst h
    simp [fresh]
  · rw [Function.update_of_ne h, if_neg fun same => h same.symm, Option.or_none]

theorem find?_upsert_eq (t : Table key) (r : ρ) (f : ρ → ρ) (keep : ∀ r, key (f r) = key r) :
    (t.upsert r f keep).find? =
      Function.update t.find? (key r) (some ((t.find? (key r)).elim r f)) := by
  funext k
  rw [find?_upsert]
  by_cases h : k = key r
  · subst h
    simp
  · rw [Function.update_of_ne h, if_neg fun same => h same.symm]

/-- Rewriting the row with a given key updates the partial function at that key. -/
theorem find?_updateKey {f : ρ → ρ} (found : t.find? k = some r)
    (keep : ∀ r, key (f r) = key r := by intro _; rfl) :
    (t.updateWhere (fun s => key s = k) f keep).find? = Function.update t.find? k (some (f r)) := by
  funext k'
  rw [find?_updateWhere]
  by_cases h : k' = k
  · subst h
    simp [found, (mem_of_find? found).2]
  · rw [Function.update_of_ne h]
    cases other : t.find? k' with
    | none => rfl
    | some s =>
      have differs : key s ≠ k := fun same => h ((mem_of_find? other).2.symm.trans same)
      simp [differs]

theorem insert?_eq_some {t' : Table key} :
    t.insert? r = some t' ↔ ∃ fresh : t.find? (key r) = none, t' = t.append r fresh := by
  unfold insert?
  split
  · rename_i fresh
    simp only [Option.some.injEq]
    exact ⟨fun h => ⟨fresh, h.symm⟩, fun ⟨_, h⟩ => h.symm⟩
  · rename_i present
    simp only [reduceCtorEq, false_iff]
    rintro ⟨fresh, _⟩
    exact present fresh

section Selection

variable {t u : Table key} {p q : ρ → Bool}

theorem mem_rows_iff {r : ρ} : r ∈ t.rows ↔ t.find? (key r) = some r :=
  ⟨find?_of_mem, fun found => (mem_of_find? found).1⟩

/-- Tables in which the selected rows have the same values in some columns, the key among
them, select the same values, up to order. -/
theorem map_select_perm {β : Type*} {g : ρ → β} (keyed : ∀ r s, g r = g s → key r = key s)
    (same : ∀ b, (∃ r, t.find? (key r) = some r ∧ p r ∧ g r = b) ↔
      ∃ r, u.find? (key r) = some r ∧ q r ∧ g r = b) :
    ((t.select p).map g).Perm ((u.select q).map g) := by
  have nodup : ∀ (t : Table key) (p : ρ → Bool), ((t.select p).map g).Nodup := by
    intro t p
    refine (List.nodup_map_iff_inj_on (nodup_select t p).of_map).mpr fun r hr s hs equal => ?_
    exact eq_of_key (List.mem_filter.mp hr).1 (List.mem_filter.mp hs).1 (keyed r s equal)
  refine (List.perm_ext_iff_of_nodup (nodup t p) (nodup u q)).mpr fun b => ?_
  simpa only [select, List.mem_map, List.mem_filter, mem_rows_iff, and_assoc] using same b

/-- Tables that agree on the selected rows select the same rows, up to order. -/
theorem select_perm (same : ∀ r, p r → (t.find? (key r) = some r ↔ u.find? (key r) = some r)) :
    (t.select p).Perm (u.select p) := by
  have perm := map_select_perm (t := t) (u := u) (p := p) (q := p) (g := id)
    (fun _ _ equal => congrArg key equal) fun b => by
      constructor
      · rintro ⟨r, found, chosen, equal⟩
        exact ⟨r, (same r chosen).mp found, chosen, equal⟩
      · rintro ⟨r, found, chosen, equal⟩
        exact ⟨r, (same r chosen).mpr found, chosen, equal⟩
  simpa only [List.map_id] using perm

/-- They select the same list when it is ordered by a column without duplicates. -/
theorem sorted_select_eq {f : ρ → Nat}
    (same : ∀ r, p r → (t.find? (key r) = some r ↔ u.find? (key r) = some r))
    (unique : ∀ a ∈ t.select p, ∀ b ∈ t.select p, f a = f b → a = b) :
    (t.select p).insertionSort (fun a b => f a ≤ f b) =
      (u.select p).insertionSort fun a b => f a ≤ f b := by
  have perm := select_perm same
  have total : Std.Total fun a b : ρ => f a ≤ f b := ⟨fun a b => Nat.le_total _ _⟩
  have trans : IsTrans ρ fun a b : ρ => f a ≤ f b := ⟨fun _ _ _ => Nat.le_trans⟩
  refine List.Perm.eq_of_pairwise ?_ (List.pairwise_insertionSort _ _)
    (List.pairwise_insertionSort _ _)
    ((List.perm_insertionSort _ _).trans (perm.trans (List.perm_insertionSort _ _).symm))
  intro a b first second below above
  refine unique a ((List.mem_insertionSort _).mp first) b ?_ (Nat.le_antisymm below above)
  exact perm.mem_iff.mpr ((List.mem_insertionSort _).mp second)

/-- A table in which every counted row of another one is matched counts at least as many. -/
theorem count_le_count
    (matched : ∀ k r, t.find? k = some r → p r → ∃ r', u.find? k = some r' ∧ q r') :
    t.count p ≤ u.count q := by
  have subset : (t.select p).map key ⊆ (u.select q).map key := by
    intro k listed
    obtain ⟨r, member, rfl⟩ := List.mem_map.mp listed
    obtain ⟨inTable, selected⟩ := List.mem_filter.mp member
    obtain ⟨r', found, chosen⟩ := matched (key r) r (find?_of_mem inTable) selected
    obtain ⟨member', same⟩ := mem_of_find? found
    exact List.mem_map.mpr ⟨r', List.mem_filter.mpr ⟨member', chosen⟩, same⟩
  have shorter := (List.subperm_of_subset (nodup_select t p) subset).length_le
  simpa [count, select, List.countP_eq_length_filter] using shorter

end Selection

end Lookup

end Table

end Relational
