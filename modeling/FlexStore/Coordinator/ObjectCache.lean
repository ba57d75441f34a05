import FlexStore.Metadata.Publication
import FlexStore.Transition.CacheAside

/-!
# The object cache

`GetObject` serves the layout of an object from a cache entry, and fills the entry from the
database on a miss. `CompleteUpload`, `CompleteMultipartUpload` and `DeleteObject` commit to
the database and then delete the entry of their key. For one key that is the protocol of
`CacheAside`: the database is the store, and its calls are the actions.

The order of the versions is the order in which they were installed. The version numbers do
not give it, because they are handed out when an upload begins.
-/

namespace FlexStore.Coordinator

open Metadata Transition

/-- A database that keeps the constraints of the schema. -/
abbrev ConsistentDatabase := { db : Database // db.view.Consistent }

/-- What `GetObject` returns. -/
abbrev Layout := Object × List ChunkWithReplicas

/-- The call is followed by `invalidateObject` for the key: it published or withdrew a version
of it, or was a deletion that found nothing. -/
def invalidates (bucket key : String) (op : Op) (r : Reply) : Bool :=
  (publishes op r).any (·.1 = (bucket, key)) ||
    match op with
    | .deleteObject b k => (b, k) = (bucket, key)
    | _ => false

/-- A call of the store, and whether the entry of the key is to be deleted after it. -/
def perform (bucket key : String) (call : Call) (db : ConsistentDatabase) :
    ConsistentDatabase × Bool :=
  match outcome : exec call db.1 with
  | .ok (r, db') => (⟨db', (exec_change outcome).consistent db.2⟩, invalidates bucket key call.op r)
  | .error _ => (db, false)

section Current

variable {db db' : Database} {bucket key : String}

theorem headObject_eq_ok {obj : Object} : headObject bucket key db = .ok obj ↔
    ∃ row, (db.objects.select (currentVersion bucket key)).head? = some row ∧
      scanObject row = obj := by
  simp only [headObject, bind_eq_ok, lookup_eq_ok, pure_eq_ok]

/-- The lookup answers with what is visible. -/
theorem headObject_visible (consistent : db.view.Consistent) {obj : Object} :
    headObject bucket key db = .ok obj ↔ db.view.Visible bucket key obj := by
  rw [headObject_eq_ok]
  constructor
  · rintro ⟨row, first, rfl⟩
    obtain ⟨member, current⟩ := List.mem_filter.mp (List.mem_of_head? first)
    exact ⟨row.id, row, Relational.Table.find?_of_mem member, current, rfl⟩
  · rintro ⟨id, row, found, current, rfl⟩
    have member : row ∈ db.objects.select (currentVersion bucket key) :=
      List.mem_filter.mpr ⟨(Relational.Table.mem_of_find? found).1, current⟩
    obtain ⟨first, rest, split⟩ := List.exists_cons_of_ne_nil (List.ne_nil_of_mem member)
    have listed : first ∈ db.objects.select (currentVersion bucket key) := by simp [split]
    obtain ⟨present, alsoCurrent⟩ := List.mem_filter.mp listed
    have visible : scanObject first = scanObject row :=
      (consistent.visible (Relational.Table.find?_of_mem present) alsoCurrent).mp
        ⟨id, row, found, current, rfl⟩
    exact ⟨first, by rw [split]; rfl, visible⟩

/-- A call that does not publish the key leaves what the lookup answers. -/
theorem headObject_of_quiet {op : Op} {r : Reply} (change : Change db db' op r)
    (consistent : db.view.Consistent)
    (quiet : ∀ value, publishes op r ≠ some ((bucket, key), value)) :
    (headObject bucket key db').toOption = (headObject bucket key db).toOption := by
  have same (obj : Object) : headObject bucket key db' = .ok obj ↔
      headObject bucket key db = .ok obj := by
    rw [headObject_visible (change.consistent consistent), headObject_visible consistent]
    exact change.visible_of_quiet quiet
  cases before : headObject bucket key db with
  | ok obj => rw [(same obj).mpr before]
  | error e =>
    cases after : headObject bucket key db' with
    | ok obj => exact absurd (before.symm.trans ((same obj).mp after)) (by simp)
    | error e' => rfl

theorem getObject_head {layout : Layout} (h : getObject bucket key db = .ok layout) :
    headObject bucket key db = .ok layout.1 := by
  obtain ⟨obj, head, rest⟩ := bind_eq_ok.mp h
  simp only [getLayout, bind_eq_ok, pure_eq_ok] at rest
  obtain ⟨_, -, rfl⟩ := rest
  exact head

theorem perform_of_ok (bucket key : String) {call : Call} {db : ConsistentDatabase} {r : Reply}
    {db' : Database} (h : exec call db.1 = .ok (r, db')) :
    (perform bucket key call db).1.1 = db' ∧
      (perform bucket key call db).2 = invalidates bucket key call.op r := by
  unfold perform
  split
  next r' after outcome =>
    obtain ⟨rfl, rfl⟩ := Prod.mk.inj (Except.ok.inj (outcome.symm.trans h))
    exact ⟨rfl, rfl⟩
  next e outcome => exact absurd (outcome.symm.trans h) (by simp)

theorem perform_of_error {call : Call} {db : ConsistentDatabase} {e : StoreError}
    (h : exec call db.1 = .error e) : perform bucket key call db = (db, false) := by
  unfold perform
  split
  next r after outcome => exact absurd (outcome.symm.trans h) (by simp)
  next => rfl

end Current

/-- The store behind the cache entry of a key. -/
def keyStore (bucket key : String) : CacheAside.Store ConsistentDatabase Call Layout Object where
  lookup db := (getObject bucket key db.1).toOption
  version layout := layout.1
  current db := (headObject bucket key db.1).toOption
  act := perform bucket key
  lookup_current := by
    intro db layout found
    cases read : getObject bucket key db.1 with
    | error e => simp [read, Except.toOption] at found
    | ok layout' =>
      rw [read] at found
      obtain rfl := Option.some.inj found
      rw [getObject_head read]
      rfl
  quiet := by
    intro call db untouched
    cases outcome : exec call db.1 with
    | error e => rw [perform_of_error outcome]
    | ok answer =>
      obtain ⟨r, db'⟩ := answer
      obtain ⟨after, invalidated⟩ := perform_of_ok bucket key outcome
      rw [after]
      rw [invalidated] at untouched
      apply headObject_of_quiet (exec_change outcome) db.2
      intro value published
      simp [invalidates, published] at untouched

/-- In every interleaving of the steps of reads and writes of a key in which no reader fills
the cache with a version that is older than one that a write has installed and returned, every
read returns the version that some write installed, and none older than the last one that had
been installed by a write that had returned when the read started. -/
theorem getObject_fresh (bucket key : String) (db : ConsistentDatabase)
    {events : List (CacheAside.Event Call)}
    (timely : Guarded (CacheAside.step (keyStore bucket key)) CacheAside.Timely
      (.start (keyStore bucket key) db) events) :
    Always (CacheAside.step (keyStore bucket key)) (CacheAside.Fresh (keyStore bucket key))
      (.start (keyStore bucket key) db) events :=
  CacheAside.always_fresh (keyStore bucket key) db timely

/-- Two uploads of one byte to a key; the second is not completed yet. -/
def twoUploads : List (CacheAside.Event Call) :=
  ([⟨0, .upsertNode "n1" "n1:9000" .healthy {} 0⟩, ⟨1, .beginUpload 1 "b" "k" "" 8⟩,
    ⟨2, .reserveChunk 10 ⟨some 1, none⟩ 0 1⟩, ⟨3, .recordChunkTargets 10 ["n1"]⟩,
    ⟨4, .commitChunk 10 5 1 ["n1"] [] 1⟩, ⟨5, .beginUpload 2 "b" "k" "" 8⟩,
    ⟨6, .reserveChunk 11 ⟨some 2, none⟩ 0 1⟩, ⟨7, .recordChunkTargets 11 ["n1"]⟩,
    ⟨8, .commitChunk 11 6 1 ["n1"] [] 1⟩] : List Call).map (.act 0) ++
  [.act 1 ⟨9, .completeUpload 1 1 1 "e"⟩, .drop 1]

def emptyDatabase : ConsistentDatabase := ⟨Database.empty, consistent_empty⟩

/-- A reader reads the first version and fills the cache at once; the second version is
completed and then read. -/
def promptFill : List (CacheAside.Event Call) :=
  twoUploads ++ [.get 0, .read 0, .set 0, .act 2 ⟨10, .completeUpload 2 1 1 "f"⟩, .drop 2,
    .get 1, .read 1, .set 1]

/-- The reader fills the cache after the second completion has returned. -/
def lateFill : List (CacheAside.Event Call) :=
  twoUploads ++ [.get 0, .read 0, .act 2 ⟨10, .completeUpload 2 1 1 "f"⟩, .drop 2, .set 0, .get 1]

/-- The floor of a read that has returned, the position of its version and its object. -/
def answered (s : CacheAside.State ConsistentDatabase Layout Object) (r : Nat) :
    Option (Nat × Nat × UUID) :=
  match s.readers r with
  | .returned floor (some v) => some (floor, v.stamp, v.value.1.id)
  | _ => none

theorem getObject_fresh_promptFill :
    Always (CacheAside.step (keyStore "b" "k")) (CacheAside.Fresh (keyStore "b" "k"))
      (.start (keyStore "b" "k") emptyDatabase) promptFill ∧
    answered (run (CacheAside.step (keyStore "b" "k"))
      (.start (keyStore "b" "k") emptyDatabase) promptFill) 1 = some (2, 2, 2) :=
  ⟨getObject_fresh "b" "k" emptyDatabase (by decide +kernel), by decide +kernel⟩

/-- A read that starts after the second completion has returned is answered with the first
version. -/
theorem getObject_stale_lateFill :
    answered (run (CacheAside.step (keyStore "b" "k"))
        (.start (keyStore "b" "k") emptyDatabase) lateFill) 1 = some (2, 1, 1) ∧
      ¬ CacheAside.Fresh (keyStore "b" "k") (run (CacheAside.step (keyStore "b" "k"))
        (.start (keyStore "b" "k") emptyDatabase) lateFill) := by
  have stale : answered (run (CacheAside.step (keyStore "b" "k"))
      (.start (keyStore "b" "k") emptyDatabase) lateFill) 1 = some (2, 1, 1) := by
    decide +kernel
  refine ⟨stale, ?_⟩
  intro fresh
  unfold answered at stale
  split at stale
  next floor v returned =>
    obtain ⟨rfl, old, -⟩ : floor = 2 ∧ v.stamp = 1 ∧ v.value.1.id = 1 := by simpa using stale
    have recent := (fresh 1 2 v returned).2
    omega
  next => cases stale

end FlexStore.Coordinator
