import FlexStore.Coordinator.Service

/-!
# The keys of the cache

Object entries, multipart sessions, the node roster and locks share one key space. An object's
entry is named by its bucket and its key with a colon in between. Keys may contain colons, so
the two can be told apart only because a bucket cannot: what `ValidateBucket` accepts has no
colon in it, and the first colon behind the namespace ends the bucket.
-/

namespace FlexStore.Cache

open Coordinator Transition

def objectKey (bucket key : String) : String := "obj:" ++ bucket ++ ":" ++ key

def nodesKey : String := "nodes:healthy"

def multipartKey (uploadID : String) : String := "mpu:" ++ uploadID

/-- The key under which `AcquireLock` takes a lock. -/
def lockKey (key : String) : String := "lock:" ++ key

/-- The key in the database that several clusters may share. -/
def redisKey (stem k : String) : String := stem ++ ":" ++ k

section Cut

variable {α : Type} {a : α} {s t s' t' : List α}

/-- A list is cut at the first occurrence of an element in one way only. -/
theorem cut_unique (first : a ∉ s) (first' : a ∉ s') (same : s ++ a :: t = s' ++ a :: t') :
    s = s' ∧ t = t' := by
  induction s generalizing s' with
  | nil =>
    cases s' with
    | nil => exact ⟨rfl, (List.cons.inj same).2⟩
    | cons b s' => exact absurd ((List.cons.inj same).1 ▸ List.mem_cons_self) first'
  | cons c s ih =>
    cases s' with
    | nil => exact absurd ((List.cons.inj same).1.symm ▸ List.mem_cons_self) first
    | cons b s' =>
      obtain ⟨rfl, rest⟩ := List.cons.inj same
      obtain ⟨rfl, rfl⟩ := ih (fun later => first (List.mem_cons_of_mem c later))
        (fun later => first' (List.mem_cons_of_mem c later)) rest
      exact ⟨rfl, rfl⟩

end Cut

/-- A bucket name has no colon. -/
theorem colon_notMem_of_validateBucket {bucket : String} {u : Unit}
    (accepted : validateBucket bucket = .ok u) : ':' ∉ bucket.toList := by
  intro listed
  simp only [validateBucket, bind_eq_ok, require_eq_ok] at accepted
  obtain ⟨_, _, _, characters, _⟩ := accepted
  have colon := List.all_eq_true.mp characters ':' listed
  revert colon
  decide

theorem toList_objectKey (bucket key : String) : (objectKey bucket key).toList =
    ['o', 'b', 'j', ':'] ++ (bucket.toList ++ ':' :: key.toList) := by
  simp [objectKey]

/-- The bucket and the key can be read off the cache key of an object. -/
theorem objectKey_injective {bucket bucket' key key' : String} {u u' : Unit}
    (accepted : validateBucket bucket = .ok u) (accepted' : validateBucket bucket' = .ok u')
    (same : objectKey bucket key = objectKey bucket' key') : bucket = bucket' ∧ key = key' := by
  have texts := congrArg String.toList same
  rw [toList_objectKey, toList_objectKey, List.append_cancel_left_eq] at texts
  obtain ⟨buckets, keys⟩ := cut_unique (colon_notMem_of_validateBucket accepted)
    (colon_notMem_of_validateBucket accepted') texts
  exact ⟨String.toList_inj.mp buckets, String.toList_inj.mp keys⟩

/-- A cache key that belongs to something else than an object. -/
inductive OtherKey : String → Prop where
  | multipart (uploadID : String) : OtherKey (multipartKey uploadID)
  | nodes : OtherKey nodesKey
  | lock (key : String) : OtherKey (lockKey key)

/-- The first letter tells the namespaces apart. -/
theorem objectKey_ne_other {bucket key other : String} (foreign : OtherKey other) :
    objectKey bucket key ≠ other := by
  intro same
  have texts := congrArg (fun s : String => s.toList.head?) same
  simp only [toList_objectKey] at texts
  cases foreign with
  | multipart uploadID => simp [multipartKey] at texts
  | nodes => simp [nodesKey] at texts
  | lock key => simp [lockKey] at texts

theorem redisKey_injective {stem k k' : String} (same : redisKey stem k = redisKey stem k') :
    k = k' := by
  have texts := congrArg String.toList same
  simp only [redisKey, String.toList_append, List.append_cancel_left_eq] at texts
  exact String.toList_inj.mp texts

/-- Accepted names give different objects different cache keys, none of which belongs to
anything else; and the keys of one cluster in the shared database are as different. -/
theorem objectKey_separates {bucket key : String} {u : Unit}
    (accepted : validateBucketKey bucket key = .ok u) :
    (∀ bucket' key', validateBucketKey bucket' key' = .ok u →
      objectKey bucket key = objectKey bucket' key' → (bucket, key) = (bucket', key')) ∧
    (∀ other, OtherKey other → objectKey bucket key ≠ other) ∧
    ∀ stem k, objectKey bucket key ≠ k →
      redisKey stem (objectKey bucket key) ≠ redisKey stem k := by
  have bucketOf {bucket key : String} {u : Unit} (accepted : validateBucketKey bucket key = .ok u) :
      ∃ u, validateBucket bucket = .ok u := by
    obtain ⟨v, first, _⟩ := bind_eq_ok.mp accepted
    exact ⟨v, first⟩
  refine ⟨?_, fun other foreign => objectKey_ne_other foreign, ?_⟩
  · intro bucket' key' accepted' same
    obtain ⟨_, first⟩ := bucketOf accepted
    obtain ⟨_, second⟩ := bucketOf accepted'
    obtain ⟨rfl, rfl⟩ := objectKey_injective first second same
    rfl
  · intro stem k different same
    exact different (redisKey_injective same)

/-- A key with colons and slashes. -/
theorem objectKey_separates_colons :
    validateBucketKey "images" "cats:tabby/1.png" = .ok () ∧
      objectKey "images" "cats:tabby/1.png" ≠ multipartKey "1" := by
  have accepted : validateBucketKey "images" "cats:tabby/1.png" = .ok () := by decide +kernel
  exact ⟨accepted, (objectKey_separates accepted).2.1 _ (.multipart "1")⟩

end FlexStore.Cache
