import Mathlib.Data.List.Sort

/-!
# Pages with a look-ahead

A query `WHERE key > after ORDER BY key LIMIT limit + 1` fetches one row more than the page
has: if it comes, the page is cut and marked as truncated. A client that repeats the query
with the key of the last row it was given, until a page is not truncated, gets every row
once and in order, if no two rows share a key.
-/

namespace Relational.Keyset

variable {ρ γ κ : Type} [LinearOrder κ]

/-- `ORDER BY`. -/
def sorted (rank : ρ → κ) (rows : List ρ) : List ρ := rows.insertionSort fun a b => rank a ≤ rank b

/-- The page that is made of what a query with one row of look-ahead has fetched. -/
def lookahead (limit : Nat) (fetched : List ρ) : List ρ × Bool :=
  if limit < fetched.length then (fetched.take limit, true) else (fetched, false)

/-- Query after query, each from the last row of the one before, until a page is not
truncated. Returns the rows and the number of queries. -/
def pages (page : γ → List ρ × Bool) (cursor : ρ → γ) : Nat → γ → Option (List ρ × Nat)
  | 0, _ => none
  | fuel + 1, after =>
    if (page after).2 then
      (page after).1.getLast?.bind fun last =>
        (pages page cursor fuel (cursor last)).map fun more =>
          ((page after).1 ++ more.1, more.2 + 1)
    else some ((page after).1, 1)

/-- The number of pages of `n` rows, of which there is at least one. -/
def pageCount (limit n : Nat) : Nat := max 1 ((n + limit - 1) / limit)

theorem sorted_perm (rank : ρ → κ) (rows : List ρ) : (sorted rank rows).Perm rows :=
  List.perm_insertionSort _ _

theorem pairwise_sorted (rank : ρ → κ) (rows : List ρ) :
    (sorted rank rows).Pairwise fun a b => rank a ≤ rank b := by
  have total : Std.Total fun a b : ρ => rank a ≤ rank b := ⟨fun a b => le_total _ _⟩
  have trans : IsTrans ρ fun a b : ρ => rank a ≤ rank b := ⟨fun _ _ _ => le_trans⟩
  exact List.pairwise_insertionSort _ _

section Unique

variable {rank : ρ → κ} {rows : List ρ}
  (unique : ∀ a ∈ rows, ∀ b ∈ rows, rank a = rank b → a = b)

include unique

/-- Filtering and sorting commute. -/
theorem sorted_filter (p : ρ → Bool) :
    sorted rank (rows.filter p) = (sorted rank rows).filter p := by
  refine List.Perm.eq_of_pairwise ?_ (pairwise_sorted rank _) ((pairwise_sorted rank _).filter p)
    ((sorted_perm rank _).trans ((sorted_perm rank rows).symm.filter p))
  intro a b first second below above
  have listed := (List.mem_filter.mp ((sorted_perm rank _).mem_iff.mp first)).1
  have listed' := (sorted_perm rank _).mem_iff.mp (List.mem_filter.mp second).1
  exact unique a listed b listed' (le_antisymm below above)

/-- The rows come in strictly ascending order. -/
theorem pairwise_lt_sorted (nodup : rows.Nodup) :
    (sorted rank rows).Pairwise fun a b => rank a < rank b := by
  have distinct : (sorted rank rows).Pairwise (· ≠ ·) := (sorted_perm rank rows).nodup_iff.mpr nodup
  refine ((pairwise_sorted rank rows).and distinct).imp_of_mem ?_
  intro a b first second both
  refine lt_of_le_of_ne both.1 fun same => both.2 ?_
  exact unique a ((sorted_perm rank _).mem_iff.mp first) b ((sorted_perm rank _).mem_iff.mp second)
    same

end Unique

/-- One row of look-ahead is enough to know whether there are more. -/
theorem lookahead_take (limit : Nat) (rows : List ρ) :
    lookahead limit (rows.take (limit + 1)) = (rows.take limit, decide (limit < rows.length)) := by
  unfold lookahead
  by_cases more : limit < rows.length
  · rw [if_pos (by rw [List.length_take]; omega), List.take_take, Nat.min_eq_left (by omega)]
    simp [more]
  · rw [if_neg (by rw [List.length_take]; omega), List.take_of_length_le (by omega),
      List.take_of_length_le (by omega)]
    simp [more]

theorem pageCount_of_le {limit n : Nat} (positive : 1 ≤ limit) (fits : n ≤ limit) :
    pageCount limit n = 1 := by
  have below : (n + limit - 1) / limit ≤ 1 := by
    rw [Nat.div_le_iff_le_mul_add_pred positive]
    omega
  unfold pageCount
  omega

/-- A full page counts for one. -/
theorem pageCount_of_lt {limit n : Nat} (positive : 1 ≤ limit) (more : limit < n) :
    pageCount limit n = pageCount limit (n - limit) + 1 := by
  have split : n + limit - 1 = (n - limit + limit - 1) + limit := by omega
  have some_ : 1 ≤ (n - limit + limit - 1) / limit :=
    (Nat.one_le_div_iff positive).mpr (by omega)
  unfold pageCount
  rw [split, Nat.add_div_right _ positive]
  omega

section Pages

variable {rank : γ → κ} {cursor : ρ → γ} {limit : Nat} {all rest : List ρ}

/-- Behind the last row of a full page come the rows that the page has left out. -/
theorem filter_after_page (ascending : rest.Pairwise fun a b => rank (cursor a) < rank (cursor b))
    {last : ρ} (end_ : (rest.take limit).getLast? = some last) :
    rest.filter (fun r => rank (cursor last) < rank (cursor r)) = rest.drop limit := by
  have split := List.take_append_drop limit rest
  rw [← split] at ascending
  obtain ⟨front, -, across⟩ := List.pairwise_append.mp ascending
  obtain ⟨before, whole⟩ := List.getLast?_eq_some_iff.mp end_
  nth_rewrite 1 [← split]
  rw [List.filter_append, List.filter_eq_nil_iff.mpr, List.filter_eq_self.mpr, List.nil_append]
  · intro r behind
    exact decide_eq_true (across last (List.mem_of_getLast? end_) r behind)
  · intro r member
    rw [whole] at member front
    obtain early | same := List.mem_append.mp member
    · have := (List.pairwise_append.mp front).2.2 r early last List.mem_cons_self
      simpa using this.le
    · simp [List.mem_singleton.mp same]

/-- The queries return what is left behind the cursor, in as many pages as that makes. -/
theorem pages_of_ascending
    (ascending : all.Pairwise fun a b => rank (cursor a) < rank (cursor b)) (positive : 1 ≤ limit)
    {page : γ → List ρ × Bool}
    (answers : ∀ after, page after = lookahead limit
      ((all.filter fun r => rank after < rank (cursor r)).take (limit + 1)))
    {fuel : Nat} {after : γ} (left : all.filter (fun r => rank after < rank (cursor r)) = rest)
    (enough : pageCount limit rest.length ≤ fuel) :
    pages page cursor fuel after = some (rest, pageCount limit rest.length) := by
  induction fuel generalizing after rest with
  | zero =>
    have : 1 ≤ pageCount limit rest.length := Nat.le_max_left _ _
    omega
  | succ fuel ih =>
    have answer : page after = (rest.take limit, decide (limit < rest.length)) := by
      rw [answers, left, lookahead_take]
    unfold pages
    by_cases more : limit < rest.length
    · have sorted : rest.Pairwise fun a b => rank (cursor a) < rank (cursor b) :=
        left ▸ ascending.filter _
      have filled : rest.take limit ≠ [] := by
        intro empty
        have := congrArg List.length empty
        rw [List.length_take, List.length_nil] at this
        omega
      obtain ⟨last, end_⟩ : ∃ last, (rest.take limit).getLast? = some last :=
        ⟨_, List.getLast?_eq_some_getLast filled⟩
      -- The cursor moves to the last row, and what was behind it is still behind it.
      have next : all.filter (fun r => rank (cursor last) < rank (cursor r)) =
          rest.drop limit := by
        rw [← filter_after_page sorted end_, ← left, List.filter_filter]
        refine List.filter_congr fun r _ => ?_
        have reached : last ∈ rest := List.mem_of_mem_take (List.mem_of_getLast? end_)
        rw [← left] at reached
        have ahead : rank after < rank (cursor last) := by
          simpa using (List.mem_filter.mp reached).2
        by_cases behind : rank (cursor last) < rank (cursor r)
        · simp [behind, ahead.trans behind]
        · simp [behind]
      have counted := pageCount_of_lt positive more
      have length : (rest.drop limit).length = rest.length - limit := List.length_drop
      rw [answer, if_pos (decide_eq_true more)]
      dsimp only
      rw [end_, Option.bind_some, ih next (by rw [length]; omega), length, counted]
      simp
    · rw [answer, if_neg (by simpa using more)]
      dsimp only
      rw [pageCount_of_le positive (by omega), List.take_of_length_le (by omega)]

end Pages

end Relational.Keyset
