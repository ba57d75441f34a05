import FlexStore.Relational.Like
import FlexStore.Relational.Keyset
import FlexStore.Metadata.Integrity
import Mathlib.Data.List.Lex
import Mathlib.Data.Char

/-!
# Listing the objects of a bucket

`ListObjects` selects with `key > $2 AND key LIKE $3 || '%'`, orders by the key and fetches
one row more than the page has. The order is that of the database's collation: any injective
map of keys into a linear order.

The prefix reaches the pattern without escapes, so the query lists the keys that begin with
it exactly for the prefixes without `%`, `_` and backslash. Whatever the condition selects, a
client that goes from page to page is given each key once.
-/

namespace FlexStore.Metadata

open Relational Relational.Keyset Relational.Like Transition

variable {κ : Type} [LinearOrder κ]

/-- `WHERE bucket = $1 AND state = 'COMPLETE' AND key LIKE $3 || '%'`. -/
def matching (bucket stem : String) (o : ObjectRow) : Bool :=
  o.bucket = bucket && o.state = .complete && like o.key (stem ++ "%")

def selects (collate : String → κ) (bucket stem startAfter : String) (o : ObjectRow) : Bool :=
  decide (collate startAfter < collate o.key) && matching bucket stem o

/-- The page that the caller gets who asks for `limit` keys. -/
def pageLimit (limit : Int) : Nat := if limit ≤ 0 ∨ 1000 < limit then 1000 else limit.toNat

/-- Returns COMPLETE objects in a bucket, in the order of their keys, and whether there are
more. -/
def listObjects (collate : String → κ) (bucket stem startAfter : String) (limit : Int)
    (db : Database) : List Object × Bool :=
  let rows := sorted (fun o => collate o.key)
    (db.objects.select (selects collate bucket stem startAfter))
  lookahead (pageLimit limit) ((rows.take (pageLimit limit + 1)).map scanObject)

/-- A client that asks for page after page, behind the last key it was given, until a page
is not truncated. Returns the objects and the number of calls. -/
def listAll (collate : String → κ) (bucket stem : String) (limit : Int) (db : Database)
    (fuel : Nat) : Option (List Object × Nat) :=
  pages (fun startAfter => listObjects collate bucket stem startAfter limit db) Object.key fuel ""

/-- The answer is made of the first rows that meet a condition, in the order of the keys,
and tells whether there are more. -/
def ListsFirst (collate : String → κ) (wanted : ObjectRow → Bool) (limit : Nat) (db : Database)
    (answer : List Object × Bool) : Prop :=
  ∃ all : List ObjectRow, all.Perm (db.objects.select wanted) ∧
    all.Pairwise (fun a b => collate a.key ≤ collate b.key) ∧
    answer = ((all.take limit).map scanObject, decide (limit < all.length))

/-- A COMPLETE object of the bucket whose key begins with the prefix and comes after the
given one. -/
def begins (collate : String → κ) (bucket stem startAfter : String) (o : ObjectRow) : Bool :=
  decide (collate startAfter < collate o.key) && (o.bucket = bucket && o.state = .complete &&
    stem.toList.isPrefixOf o.key.toList)

/-- The unique index on the COMPLETE version of a key. -/
def CurrentIndex (db : Database) : Prop :=
  ∀ a ∈ db.objects.rows, ∀ b ∈ db.objects.rows, a.state = .complete → b.state = .complete →
    a.bucket = b.bucket → a.key = b.key → a = b

theorem selects_iff {collate : String → κ} {bucket stem startAfter : String} {o : ObjectRow} :
    selects collate bucket stem startAfter o ↔
      collate startAfter < collate o.key ∧ matching bucket stem o := by
  rw [selects, Bool.and_eq_true, decide_eq_true_eq]

theorem pageLimit_of_le {limit : Nat} (positive : 1 ≤ limit) (small : limit ≤ 1000) :
    pageLimit limit = limit := by
  unfold pageLimit
  rw [if_neg (by omega), Int.toNat_natCast]

/-- The page is cut from the list of all rows that the condition selects. -/
theorem listObjects_eq (collate : String → κ) (bucket stem startAfter : String) (limit : Int)
    (db : Database) :
    listObjects collate bucket stem startAfter limit db =
      lookahead (pageLimit limit) (((sorted (fun o => collate o.key)
        (db.objects.select (selects collate bucket stem startAfter))).map scanObject).take
          (pageLimit limit + 1)) := by
  rw [← List.map_take]
  rfl

/-- Whatever the prefix, the query answers for the condition that it has. -/
theorem listObjects_listsFirst (collate : String → κ) (bucket stem startAfter : String)
    (limit : Int) (db : Database) :
    ListsFirst collate (selects collate bucket stem startAfter) (pageLimit limit) db
      (listObjects collate bucket stem startAfter limit db) := by
  refine ⟨_, sorted_perm (fun o => collate o.key) _, pairwise_sorted _ _, ?_⟩
  rw [listObjects_eq, lookahead_take, List.map_take, List.length_map]

/-- For a prefix without special characters it is the condition that is meant. -/
theorem selects_plain {stem : String} (plain : ∀ c ∈ stem.toList, special c = false)
    (collate : String → κ) (bucket startAfter : String) :
    selects collate bucket stem startAfter = begins collate bucket stem startAfter := by
  funext o
  have same : like o.key (stem ++ "%") = stem.toList.isPrefixOf o.key.toList := by
    rw [Bool.eq_iff_iff, like_plain plain, List.isPrefixOf_iff_prefix]
  rw [selects, matching, same]
  rfl

def oneObject (key : String) : Database :=
  { Database.empty with
    objects := Table.empty.append
      { newObject 0 1 "b" key "" 8 Database.empty with state := .complete } rfl }

section OneObject

variable {stem key : String}

theorem oneObject_select_selects (matched : like key (stem ++ "%")) (filled : key.toList ≠ []) :
    (oneObject key).objects.select (selects String.toList "b" stem "") =
      (oneObject key).objects.rows := by
  refine List.filter_eq_self.mpr fun o listed => ?_
  rw [List.mem_singleton.mp listed]
  have above : "".toList < key.toList := by
    cases spelled : key.toList with
    | nil => exact absurd spelled filled
    | cons c rest => exact List.nil_lt_cons c rest
  refine selects_iff.mpr ⟨above, ?_⟩
  rw [matching, Bool.and_eq_true]
  exact ⟨rfl, matched⟩

theorem oneObject_select_begins (differs : ¬ stem.toList <+: key.toList) :
    (oneObject key).objects.select (begins String.toList "b" stem "") = [] := by
  refine List.filter_eq_nil_iff.mpr fun o listed selected => differs ?_
  rw [List.mem_singleton.mp listed] at selected
  simp only [begins, Bool.and_eq_true, List.isPrefixOf_iff_prefix] at selected
  exact selected.2.2

end OneObject

/-- `ListObjects` treats a prefix literally, for every table, order, page and limit, exactly
if it has none of the characters that a pattern treats specially. -/
theorem listObjects_literal_iff (stem : String) :
    (∀ (κ : Type) [LinearOrder κ] (collate : String → κ), Function.Injective collate →
      ∀ (db : Database) (bucket startAfter : String) (limit : Nat), 1 ≤ limit → limit ≤ 1000 →
        ListsFirst collate (begins collate bucket stem startAfter) limit db
          (listObjects collate bucket stem startAfter limit db)) ↔
      ∀ c ∈ stem.toList, special c = false := by
  constructor
  · intro literal
    by_contra marked
    push Not at marked
    simp only [ne_eq, Bool.not_eq_false] at marked
    -- A key that the pattern matches and that does not begin with the prefix.
    obtain ⟨matched, differs⟩ := like_sample marked
    have filled : (String.ofList (sample false stem.toList)).toList ≠ [] := by
      obtain ⟨c, listed, -⟩ := marked
      rw [String.toList_ofList]
      exact sample_ne_nil false (List.ne_nil_of_mem listed)
    generalize String.ofList (sample false stem.toList) = key at *
    have lists := listObjects_listsFirst String.toList "b" stem "" (1 : Nat) (oneObject key)
    have claimed := literal (List Char) String.toList (fun _ _ => String.toList_injective)
      (oneObject key) "b" "" 1 le_rfl (by decide)
    rw [ListsFirst, oneObject_select_selects matched filled] at lists
    rw [ListsFirst, oneObject_select_begins differs] at claimed
    obtain ⟨all, found, -, answer⟩ := lists
    obtain ⟨none_, empty, -, answer'⟩ := claimed
    rw [List.perm_nil.mp empty] at answer'
    rw [List.perm_singleton.mp found, answer'] at answer
    cases answer
  · intro plain κ _ collate _ db bucket startAfter limit positive small
    rw [← selects_plain plain]
    nth_rewrite 1 [← pageLimit_of_le positive small]
    exact listObjects_listsFirst collate bucket stem startAfter limit db

/-- Two objects that are stored under the given keys. -/
def storedUnder (first second : String) : List Call :=
  [⟨1, .beginUpload 1 "b" first "" 8⟩, ⟨2, .completeUpload 1 0 0 "e"⟩,
    ⟨3, .beginUpload 2 "b" second "" 8⟩, ⟨4, .completeUpload 2 0 0 "e"⟩]

/-- The listing of `log_` has a key that does not begin with it, in the place of the one that
does. -/
theorem listing_of_underscore :
    ((listObjects String.toList "b" "log_" "" 1
      (run step Database.empty (storedUnder "log_1" "logA"))).1.map (·.key)) = ["logA"] ∧
    ¬ "log_".toList <+: "logA".toList := by
  decide +kernel

section Client

variable {db : Database}

/-- In every reachable database the index holds. -/
theorem currentIndex_of_consistent (consistent : db.view.Consistent) : CurrentIndex db := by
  intro a first b second current current' bucket key
  refine Table.eq_of_key first second ?_
  exact consistent.current (Table.find?_of_mem first) (Table.find?_of_mem second) current current'
    bucket key

variable {collate : String → κ} (injective : Function.Injective collate) (index : CurrentIndex db)
  (bucket stem : String)

include injective index

omit [LinearOrder κ] in
/-- The query selects one object for each key. -/
theorem matching_unique :
    ∀ a ∈ db.objects.select (matching bucket stem), ∀ b ∈ db.objects.select (matching bucket stem),
      collate a.key = collate b.key → a = b := by
  have current {o : ObjectRow} (matched : matching bucket stem o) :
      o.bucket = bucket ∧ o.state = .complete := by
    simp only [matching, Bool.and_eq_true, decide_eq_true_eq] at matched
    exact matched.1
  intro a first b second same
  obtain ⟨listed, matched⟩ := List.mem_filter.mp first
  obtain ⟨listed', matched'⟩ := List.mem_filter.mp second
  obtain ⟨here, complete⟩ := current matched
  obtain ⟨here', complete'⟩ := current matched'
  exact index a listed b listed' complete complete' (here.trans here'.symm) (injective same)

/-- Each page is what comes behind the cursor in one list. -/
theorem sorted_selects (startAfter : String) :
    sorted (fun o => collate o.key)
        (db.objects.select (selects collate bucket stem startAfter)) =
      (sorted (fun o => collate o.key) (db.objects.select (matching bucket stem))).filter
        fun o => collate startAfter < collate o.key := by
  rw [← sorted_filter (matching_unique injective index bucket stem), Table.select, Table.select,
    List.filter_filter]
  rfl

/-- A client that goes from page to page ends after as many calls as the keys make pages,
and was given every object that the condition of the query selects once, in the order of the
keys. If no key comes before the empty one, these are all that match the prefix. -/
theorem listAll_spec {limit : Nat} (positive : 1 ≤ limit) (small : limit ≤ 1000) :
    ∃ all : List ObjectRow,
      all.Perm (db.objects.select (selects collate bucket stem "")) ∧
      all.Pairwise (fun a b => collate a.key < collate b.key) ∧
      ((∀ o ∈ db.objects.rows, collate "" < collate o.key) →
        all.Perm (db.objects.select (matching bucket stem))) ∧
      ∀ fuel, pageCount limit all.length ≤ fuel →
        listAll collate bucket stem limit db fuel =
          some (all.map scanObject, pageCount limit all.length) := by
  have ascending := pairwise_lt_sorted (matching_unique injective index bucket stem)
    (Table.nodup_select db.objects (matching bucket stem)).of_map
  have behind := sorted_selects injective index bucket stem
  generalize listed : sorted (fun o => collate o.key)
    (db.objects.select (matching bucket stem)) = every at ascending behind
  refine ⟨every.filter fun o => collate "" < collate o.key, ?_, ascending.filter _, ?_, ?_⟩
  · rw [← behind]
    exact sorted_perm _ _
  · intro above
    have all_listed : every.Perm (db.objects.select (matching bucket stem)) :=
      listed ▸ sorted_perm _ _
    rw [List.filter_eq_self.mpr]
    · exact all_listed
    · intro o member
      have inTable := (List.mem_filter.mp (all_listed.mem_iff.mp member)).1
      exact decide_eq_true (above o inTable)
  · intro fuel enough
    have mapped (startAfter : String) :
        (every.map scanObject).filter (fun o => collate startAfter < collate o.key) =
          (every.filter fun o => collate startAfter < collate o.key).map scanObject := by
      rw [List.filter_map]
      rfl
    have ordered : (every.map scanObject).Pairwise fun a b => collate a.key < collate b.key :=
      List.pairwise_map.mpr ascending
    have answers (startAfter : String) :
        listObjects collate bucket stem startAfter limit db = lookahead limit
          (((every.map scanObject).filter fun o => collate startAfter < collate o.key).take
            (limit + 1)) := by
      rw [listObjects_eq, pageLimit_of_le positive small, behind, mapped]
    rw [← @List.length_map _ _ _ scanObject] at enough ⊢
    exact pages_of_ascending ordered positive answers (mapped "") enough

end Client

def threeStored : List Call :=
  storedUnder "logB" "logA" ++
    [⟨5, .beginUpload 3 "b" "log" "" 8⟩, ⟨6, .completeUpload 3 0 0 "e"⟩]

/-- With pages of two, the client ends after two calls. -/
theorem listAll_threeStored :
    ∃ all : List ObjectRow, all.length = 3 ∧
      listAll String.toList "b" "log" 2 (run step Database.empty threeStored) 2 =
        some (all.map scanObject, 2) := by
  obtain ⟨all, listed, -, -, loop⟩ := @listAll_spec _ _ (run step Database.empty threeStored)
    String.toList (fun _ _ => String.toList_injective)
    (currentIndex_of_consistent (consistent_run consistent_empty threeStored)) "b" "log" 2
    (by decide) (by decide)
  have three : all.length = 3 := by
    rw [listed.length_eq]
    decide +kernel
  rw [three] at loop
  exact ⟨all, three, loop 2 (by decide)⟩

end FlexStore.Metadata
