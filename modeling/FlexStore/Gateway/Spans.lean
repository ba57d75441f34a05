import FlexStore.Gateway.Range
import Mathlib.Algebra.BigOperators.Group.List.Basic

/-!
# The chunks of a range

`selectChunks` walks over the chunks of an object and keeps those that overlap a range, each
with the window of it that belongs to the range. Two comparisons decide which chunks are
kept and two more where the windows start and end. The invariant of the walk is that the
pieces cut out from an offset on are the rest of the range in the rest of the object.
-/

namespace FlexStore.Gateway

open Go Metadata

structure NodeInfo where
  nodeID : NodeID
  grpcAddress : String
  deriving DecidableEq, Repr

/-- A chunk of an object as the coordinator returns it. A recorded checksum that is not a
digest is `none`. -/
structure ChunkPlacement where
  chunkID : UUID
  chunkIndex : Nat
  sizeBytes : Int
  checksum : Option Checksum
  nodes : List NodeInfo
  deriving DecidableEq, Repr

/-- A chunk that overlaps a range, and the part of it that was asked for: the bytes from
`fromOffset` up to `toOffset`, exclusive. -/
structure ChunkSpan where
  chunk : ChunkPlacement
  fromOffset : Int
  toOffset : Int
  deriving DecidableEq, Repr

/-- The window of a chunk that starts at `start` and overlaps the range. -/
def overlap (br : ByteRange) (start : Int) (c : ChunkPlacement) : ChunkSpan where
  chunk := c
  fromOffset := if start < br.start then int64 (br.start - start) else 0
  toOffset :=
    if br.last < int64 (int64 (start + c.sizeBytes) - 1) then
      int64 (int64 (br.last - start) + 1)
    else c.sizeBytes

/-- The loop of `selectChunks` from an offset on. -/
def selectFrom (br : ByteRange) : Int → List ChunkPlacement → List ChunkSpan
  | _, [] => []
  | offset, c :: rest =>
    let stop := int64 (offset + c.sizeBytes)
    if stop ≤ br.start then selectFrom br stop rest
    else if br.last < offset then []
    else overlap br offset c :: selectFrom br stop rest

def selectChunks (chunks : List ChunkPlacement) (br : ByteRange) : List ChunkSpan :=
  selectFrom br 0 chunks

def objectSizeFromChunks (chunks : List ChunkPlacement) : Int :=
  chunks.foldl (fun n c => int64 (n + c.sizeBytes)) 0

def allChunks (chunks : List ChunkPlacement) : List ChunkSpan :=
  chunks.map fun c => ⟨c, 0, c.sizeBytes⟩

/-- The bytes of `data` from `s` up to `e`, exclusive: `data[s:e]`. -/
def window (s e : Nat) (data : Bytes) : Bytes := (data.take e).drop s

/-- What `streamDownload` cuts out of the data of a chunk. -/
def ChunkSpan.cut (span : ChunkSpan) (data : Bytes) : Bytes :=
  if 0 < span.fromOffset ∨ span.toOffset < data.length then
    window span.fromOffset.toNat span.toOffset.toNat data
  else data

def ChunkSpan.Within (span : ChunkSpan) : Prop :=
  0 ≤ span.fromOffset ∧ span.fromOffset ≤ span.toOffset ∧ span.toOffset ≤ span.chunk.sizeBytes

instance (span : ChunkSpan) : Decidable span.Within := inferInstanceAs (Decidable (_ ∧ _ ∧ _))

/-- The pieces of the spans one after the other. -/
def pieces (content : ChunkPlacement → Bytes) (spans : List ChunkSpan) : Bytes :=
  spans.flatMap fun span => span.cut (content span.chunk)

section Window

variable {s e : Nat} {data : Bytes}

theorem window_append (s e : Nat) (a b : Bytes) :
    window s e (a ++ b) = window s e a ++ window (s - a.length) (e - a.length) b := by
  unfold window
  rw [List.take_append, List.drop_append, List.length_take]
  by_cases inside : a.length ≤ e
  · rw [Nat.min_eq_right inside]
  · have none_ : e - a.length = 0 := by omega
    simp [none_]

theorem window_nil_of_le (short : e ≤ s) : window s e data = [] := by
  apply List.drop_eq_nil_of_le
  rw [List.length_take]
  omega

theorem window_length_le (short : data.length ≤ s) : window s e data = [] := by
  apply List.drop_eq_nil_of_le
  rw [List.length_take]
  omega

theorem window_min (s e : Nat) (data : Bytes) :
    window s (min e data.length) data = window s e data := by
  unfold window
  congr 1
  exact List.take_eq_take_min.symm

theorem length_window (inside : e ≤ data.length) : (window s e data).length = e - s := by
  rw [window, List.length_drop, List.length_take, Nat.min_eq_left inside]

theorem window_all (data : Bytes) : window 0 data.length data = data := by
  simp [window]

end Window

/-- Within its chunk a span cuts out its window, whether or not the cut is skipped. -/
theorem ChunkSpan.cut_eq {span : ChunkSpan} (within : span.Within) {data : Bytes}
    (full : (data.length : Int) = span.chunk.sizeBytes) :
    span.cut data = window span.fromOffset.toNat span.toOffset.toNat data := by
  obtain ⟨low, order, high⟩ := within
  unfold ChunkSpan.cut
  split
  next => rfl
  next whole =>
    have start : span.fromOffset.toNat = 0 := by omega
    have stop : span.toOffset.toNat = data.length := by omega
    rw [start, stop, window_all]

theorem ChunkSpan.length_cut {span : ChunkSpan} (within : span.Within) {data : Bytes}
    (full : (data.length : Int) = span.chunk.sizeBytes) :
    ((span.cut data).length : Int) = span.toOffset - span.fromOffset := by
  rw [span.cut_eq within full]
  obtain ⟨low, order, high⟩ := within
  rw [length_window (by omega)]
  omega

section Select

variable {br : ByteRange} {s e o k : Nat} {c : ChunkPlacement}
  {content : ChunkPlacement → Bytes} {chunks : List ChunkPlacement}

/-- The window of an overlapping chunk, without the wrap-around of its arithmetic. -/
theorem overlap_eq (start : br.start = s) (last : br.last + 1 = e) (size : c.sizeBytes = k)
    (low : s < o + k) (high : o < e) (fits : o + k < 2 ^ 63) (range : e < 2 ^ 63) :
    overlap br o c = ⟨c, (s - o : Nat), (min (e - o) k : Nat)⟩ := by
  have stop : int64 (o + k) = o + k := int64_eq (by omega) (by omega)
  have behind : int64 ((o + k : Int) - 1) = o + k - 1 := int64_eq (by omega) (by omega)
  have width : int64 (br.last - o) = br.last - o := int64_eq (by omega) (by omega)
  have next : int64 (br.last - o + 1) = br.last - o + 1 := int64_eq (by omega) (by omega)
  have fromOffset : (if (o : Int) < br.start then int64 (br.start - o) else 0) =
      ((s - o : Nat) : Int) := by
    split
    · rw [int64_eq (by omega) (by omega)]
      omega
    · omega
  have toOffset : (if br.last < (o : Int) + k - 1 then br.last - o + 1 else k) =
      ((min (e - o) k : Nat) : Int) := by
    split
    · omega
    · omega
  unfold overlap
  rw [size, stop, behind, width, next, fromOffset, toOffset]

theorem overlap_within (start : br.start = s) (last : br.last + 1 = e) (size : c.sizeBytes = k)
    (order : s < e) (low : s < o + k) (high : o < e) (fits : o + k < 2 ^ 63)
    (range : e < 2 ^ 63) : (overlap br o c).Within := by
  rw [overlap_eq start last size low high fits range]
  refine ⟨?_, ?_, ?_⟩
  · simp
  · simp only
    omega
  · simp only [size]
    omega

/-- The walk from an offset on keeps spans of its chunks, and cuts out what is left of the
range. -/
theorem selectFrom_window (start : br.start = s) (last : br.last + 1 = e) (order : s < e)
    (range : e < 2 ^ 63) (sizes : ∀ c ∈ chunks, ((content c).length : Int) = c.sizeBytes)
    (fits : o + (chunks.flatMap content).length < 2 ^ 63) :
    (∀ span ∈ selectFrom br o chunks, span.chunk ∈ chunks ∧ span.Within) ∧
      pieces content (selectFrom br o chunks) =
        window (s - o) (e - o) (chunks.flatMap content) := by
  induction chunks generalizing o with
  | nil => simp [selectFrom, pieces, window]
  | cons c rest ih =>
    obtain ⟨size, sizes⟩ := List.forall_mem_cons.mp sizes
    rw [List.flatMap_cons, List.length_append] at fits
    rw [List.flatMap_cons, window_append]
    generalize body : content c = data at size fits ⊢
    have stop : int64 (o + c.sizeBytes) = ((o + data.length : Nat) : Int) := by
      rw [← size]
      exact int64_eq (by omega) (by omega)
    have shorter : o + data.length + (rest.flatMap content).length < 2 ^ 63 := by omega
    obtain ⟨spans, cuts⟩ := ih sizes shorter
    have there : ∀ span ∈ selectFrom br ((o + data.length : Nat) : Int) rest,
        span.chunk ∈ c :: rest ∧ span.Within := fun span mem =>
      ⟨List.mem_cons_of_mem c (spans span mem).1, (spans span mem).2⟩
    rw [Nat.sub_sub, Nat.sub_sub, ← cuts]
    simp only [selectFrom, stop]
    split
    next before =>
      -- the chunk ends before the range starts
      have nothing : window (s - o) (e - o) data = [] := window_length_le (by omega)
      rw [nothing, List.nil_append]
      exact ⟨there, rfl⟩
    next reached =>
      split
      next beyond =>
        -- the chunk starts behind the range, and so do all that follow
        have passed : e - o ≤ s - o := by omega
        have rest_ : e - (o + data.length) ≤ s - (o + data.length) := by omega
        rw [cuts, window_nil_of_le passed, window_nil_of_le rest_]
        exact ⟨by simp, rfl⟩
      next inside =>
        have within : (overlap br o c).Within := overlap_within start last size.symm order
          (by omega) (by omega) (by omega) range
        refine ⟨List.forall_mem_cons.mpr ⟨⟨List.mem_cons_self, within⟩, there⟩, ?_⟩
        have piece : (overlap br o c).cut (content c) = window (s - o) (e - o) data := by
          rw [body, ChunkSpan.cut_eq within size, overlap_eq start last size.symm (by omega)
            (by omega) (by omega) range, Int.toNat_natCast, Int.toNat_natCast, window_min]
        rw [pieces, List.flatMap_cons]
        exact congrArg₂ (· ++ ·) piece rfl

/-- The recorded sizes add up to the length of the object. -/
theorem length_flatMap_content (sizes : ∀ c ∈ chunks, ((content c).length : Int) = c.sizeBytes) :
    ((chunks.flatMap content).length : Int) = (chunks.map (·.sizeBytes)).sum := by
  induction chunks with
  | nil => rfl
  | cons c rest ih =>
    obtain ⟨size, sizes⟩ := List.forall_mem_cons.mp sizes
    rw [List.flatMap_cons, List.length_append, List.map_cons, List.sum_cons, ← ih sizes, ← size]
    exact Int.natCast_add _ _

theorem widths_pieces {spans : List ChunkSpan} (within : ∀ span ∈ spans, span.Within)
    (sizes : ∀ span ∈ spans, ((content span.chunk).length : Int) = span.chunk.sizeBytes) :
    (spans.map fun span => span.toOffset - span.fromOffset).sum =
      (pieces content spans).length := by
  induction spans with
  | nil => rfl
  | cons span rest ih =>
    obtain ⟨inside, within⟩ := List.forall_mem_cons.mp within
    obtain ⟨size, sizes⟩ := List.forall_mem_cons.mp sizes
    rw [List.map_cons, List.sum_cons, ih within sizes, ← ChunkSpan.length_cut inside size]
    simp [pieces]

theorem pieces_allChunks (sizes : ∀ c ∈ chunks, ((content c).length : Int) = c.sizeBytes) :
    pieces content (allChunks chunks) = chunks.flatMap content := by
  have whole : ∀ c ∈ chunks, (⟨c, 0, c.sizeBytes⟩ : ChunkSpan).cut (content c) = content c := by
    intro c mem
    simp [ChunkSpan.cut, ← sizes c mem]
  rw [pieces, allChunks, List.flatMap_map]
  exact List.flatMap_congr whole

/-- The sum of the sizes does not wrap if it fits. -/
theorem objectSizeFromChunks_eq (sizes : ∀ c ∈ chunks, ((content c).length : Int) = c.sizeBytes)
    (fits : (chunks.map (·.sizeBytes)).sum < 2 ^ 63) :
    objectSizeFromChunks chunks = (chunks.map (·.sizeBytes)).sum := by
  have sum : ∀ n : Nat, n + (chunks.flatMap content).length < 2 ^ 63 →
      chunks.foldl (fun n c => int64 (n + c.sizeBytes)) (n : Int) =
        ((n + (chunks.flatMap content).length : Nat) : Int) := by
    clear fits
    induction chunks with
    | nil => simp
    | cons c rest ih =>
      intro n fits
      obtain ⟨size, sizes⟩ := List.forall_mem_cons.mp sizes
      rw [List.flatMap_cons, List.length_append] at fits ⊢
      have step : int64 ((n : Int) + c.sizeBytes) = ((n + (content c).length : Nat) : Int) := by
        rw [← size]
        exact int64_eq (by omega) (by omega)
      rw [List.foldl_cons, step, ih sizes _ (by omega), Nat.add_assoc]
  rw [← length_flatMap_content sizes] at fits ⊢
  simpa [objectSizeFromChunks] using sum 0 (by omega)

variable {header : Bytes}

/-- The selected spans lie within their chunks and cut the range out of the object. -/
theorem selectChunks_window (sizes : ∀ c ∈ chunks, ((content c).length : Int) = c.sizeBytes)
    (fits : (chunks.map (·.sizeBytes)).sum < 2 ^ 63)
    (accepted : parseRange header (chunks.map (·.sizeBytes)).sum = .ok br) :
    (∀ span ∈ selectChunks chunks br, span.chunk ∈ chunks ∧ span.Within) ∧
      pieces content (selectChunks chunks br) =
        window br.start.toNat (br.last + 1).toNat (chunks.flatMap content) := by
  rw [← length_flatMap_content sizes] at accepted fits
  obtain ⟨low, order, high⟩ := parseRange_bounds (Int.natCast_nonneg _) fits accepted
  have start : br.start = br.start.toNat := by omega
  have last : br.last + 1 = (br.last + 1).toNat := by omega
  have nonempty : br.start.toNat < (br.last + 1).toNat := by omega
  have range : (br.last + 1).toNat < 2 ^ 63 := by omega
  exact selectFrom_window (o := 0) start last nonempty range sizes (by omega)

/-- The pieces are as long as the range. -/
theorem length_pieces_selectChunks
    (sizes : ∀ c ∈ chunks, ((content c).length : Int) = c.sizeBytes)
    (fits : (chunks.map (·.sizeBytes)).sum < 2 ^ 63)
    (accepted : parseRange header (chunks.map (·.sizeBytes)).sum = .ok br) :
    ((pieces content (selectChunks chunks br)).length : Int) = br.length := by
  rw [(selectChunks_window sizes fits accepted).2]
  rw [← length_flatMap_content sizes] at accepted fits
  obtain ⟨low, order, high⟩ := parseRange_bounds (Int.natCast_nonneg _) fits accepted
  have gap : int64 (br.last - br.start) = br.last - br.start := int64_eq (by omega) (by omega)
  rw [ByteRange.length, gap, int64_eq (by omega) (by omega), length_window (by omega)]
  omega

end Select

/-- For every range that is accepted against the total size, the spans that are selected lie
within their chunks, are as wide as the range together, and cut the range out of the object.
The spans of a whole-object read cut out the whole object. -/
theorem selectChunks_cuts_range {chunks : List ChunkPlacement} {content : ChunkPlacement → Bytes}
    (sizes : ∀ c ∈ chunks, ((content c).length : Int) = c.sizeBytes)
    (fits : (chunks.map (·.sizeBytes)).sum < 2 ^ 63) {header : Bytes} {br : ByteRange}
    (accepted : parseRange header (chunks.map (·.sizeBytes)).sum = .ok br) :
    (∀ span ∈ selectChunks chunks br, span.chunk ∈ chunks ∧ span.Within) ∧
      ((selectChunks chunks br).map fun span => span.toOffset - span.fromOffset).sum =
        br.length ∧
      pieces content (selectChunks chunks br) =
        window br.start.toNat (br.last + 1).toNat (chunks.flatMap content) ∧
      pieces content (allChunks chunks) = chunks.flatMap content := by
  obtain ⟨spans, cuts⟩ := selectChunks_window sizes fits accepted
  have widths := widths_pieces (fun span mem => (spans span mem).2)
    (fun span mem => sizes _ (spans span mem).1)
  exact ⟨spans, widths.trans (length_pieces_selectChunks sizes fits accepted), cuts,
    pieces_allChunks sizes⟩

/-- Three chunks, the one in the middle empty. -/
def unevenChunks : List ChunkPlacement :=
  [⟨1, 0, 3, none, []⟩, ⟨2, 1, 0, none, []⟩, ⟨3, 2, 2, none, []⟩]

def unevenContent (c : ChunkPlacement) : Bytes :=
  if c.chunkIndex = 0 then [1, 2, 3] else if c.chunkIndex = 1 then [] else [4, 5]

/-- `bytes=2-3` crosses the empty chunk. -/
theorem selectChunks_cuts_uneven :
    pieces unevenContent (selectChunks unevenChunks ⟨2, 3⟩) = [3, 4] ∧
      pieces unevenContent (allChunks unevenChunks) = [1, 2, 3, 4, 5] := by
  have accepted : parseRange (bytesPrefix ++ [0x32, dash, 0x33])
      (unevenChunks.map (·.sizeBytes)).sum = .ok ⟨2, 3⟩ := by decide +kernel
  have sizes : ∀ c ∈ unevenChunks, ((unevenContent c).length : Int) = c.sizeBytes := by decide
  obtain ⟨-, -, range, whole⟩ := selectChunks_cuts_range sizes (by decide) accepted
  exact ⟨range, whole⟩

end FlexStore.Gateway
