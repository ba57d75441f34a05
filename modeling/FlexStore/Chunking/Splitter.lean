import FlexStore.Go.Reader

/-!
# Splitting a stream into chunks

`next` is one call of the splitter on an arbitrary reader. What a sequence of calls
returns is the relation `Drains`: the chunks up to the first error, and that error.

A stream that ends with `io.EOF` is cut at the multiples of the chunk size (`Cut`), and the
size limit is met before the chunk that would exceed it is emitted.

The splitter tells a finished stream from a broken one by the error of `io.ReadFull`,
which reports a short last buffer as `io.ErrUnexpectedEOF`. A reader whose own error is
`io.ErrUnexpectedEOF` is therefore taken for a stream that ended with a short chunk, and
one whose error wraps `io.EOF` for a stream that ended on a chunk boundary.
-/

namespace FlexStore.Chunking

open Go

/-- The errors that the splitter makes, and those of other packages. -/
inductive ErrorName where
  | chunkTooLarge
  | chunkSize (got : Int)
  | other (number : Nat)
  deriving DecidableEq, Repr

abbrev Error := Go.Error ErrorName
abbrev Reader := Go.Reader ErrorName

/-- One unit of placement and replication. -/
structure Chunk where
  index : Nat
  data : Bytes
  deriving DecidableEq, Repr

/-- Reads from an underlying reader and yields fixed-size chunks. The chunk size is the
length of the working buffer, which is not empty. -/
structure Splitter where
  r : Reader
  chunkSize : Nat
  positive : 0 < chunkSize
  maxTotal : Int
  index : Nat
  totalRead : Nat
  done : Bool

/-- A splitter with a working buffer of the given length. -/
def newSplitterBuffer (r : Reader) (buf : Nat) (maxTotal : Int) : Except Error Splitter :=
  if positive : 0 < buf then
    .ok { r, chunkSize := buf, positive, maxTotal, index := 0, totalRead := 0, done := false }
  else .error (.leaf (.own (.chunkSize buf)))

namespace Splitter

/-- The second half of `Next`: the bytes that were read are counted, checked against the
limit and returned as a chunk, unless there are none. -/
def emit (s : Splitter) (data : Bytes) : Except Error Chunk × Splitter :=
  let total := s.totalRead + data.length
  let limit := s.maxTotal
  let s := { s with totalRead := total }
  if 0 < limit ∧ limit < total then
    (.error (.wrapped s!"%w: read {total} bytes, limit {limit}" (.leaf (.own .chunkTooLarge))),
      { s with done := true })
  else if data = [] then (.error (.leaf .eof), s)
  else (.ok ⟨s.index, data⟩, { s with index := s.index + 1 })

/-- The switch of `Next` on the error of `io.ReadFull`. -/
def settle (s : Splitter) (data : Bytes) : Option Error → Except Error Chunk × Splitter
  | none => s.emit data
  | some err =>
    let index := s.index
    let s := { s with done := true }
    if err.is .eof then (.error (.leaf .eof), s)
    else if err.is .unexpectedEOF then s.emit data
    else (.error (.wrapped s!"reading chunk {index}: %w" err), s)

/-- The next chunk, or `io.EOF` when the stream is exhausted. -/
def next (s : Splitter) : Except Error Chunk × Splitter :=
  if s.done then (.error (.leaf .eof), s)
  else
    let (data, err, r) := s.r.readFull s.chunkSize
    { s with r }.settle data err

/-- Calling `Next` until it fails returns these chunks and then this error. -/
inductive Drains : Splitter → List Chunk → Error → Prop where
  | stop {s s' e} : s.next = (.error e, s') → Drains s [] e
  | more {s s' c cs e} : s.next = (.ok c, s') → Drains s' cs e → Drains s (c :: cs) e

end Splitter

/-- The splitter returns the bytes behind the last chunk boundary. It does so for a stream
that ends with `io.EOF`, and for one whose error is found to be `io.ErrUnexpectedEOF`. -/
def keepsTail (err : Error) : Bool := err = .leaf .eof || !err.is .eof && err.is .unexpectedEOF

/-- The bytes of a stream that reach the chunks, if the size limit lets them. -/
def counted (chunkSize : Nat) (err : Error) (bytes : Bytes) : Bytes :=
  if keepsTail err then bytes else bytes.take (bytes.length / chunkSize * chunkSize)

theorem counted_of_le {chunkSize : Nat} (positive : 0 < chunkSize) (err : Error) {bytes : Bytes}
    (full : chunkSize ≤ bytes.length) : counted chunkSize err bytes =
      bytes.take chunkSize ++ counted chunkSize err (bytes.drop chunkSize) := by
  unfold counted
  split
  next => exact (List.take_append_drop chunkSize bytes).symm
  next =>
    have blocks : bytes.length / chunkSize * chunkSize =
        chunkSize + (bytes.length - chunkSize) / chunkSize * chunkSize := by
      rw [Nat.div_eq_sub_div positive full, Nat.succ_mul, Nat.add_comm]
    rw [blocks, List.take_add, List.length_drop]

theorem counted_of_lt {chunkSize : Nat} {err : Error} {bytes : Bytes}
    (short : bytes.length < chunkSize) :
    counted chunkSize err bytes = if keepsTail err then bytes else [] := by
  simp [counted, Nat.div_eq_of_lt short]

namespace Splitter

variable {s : Splitter}

/-- The size limit is exceeded when so many more bytes are counted. -/
def Over (s : Splitter) (more : Nat) : Prop :=
  0 < s.maxTotal ∧ s.maxTotal < ((s.totalRead + more : Nat) : Int)

theorem Over.mono {m n : Nat} (excess : s.Over m) (more : m ≤ n) : s.Over n :=
  ⟨excess.1, by have := excess.2; omega⟩

/-- What the calls return: below the limit chunks of all the counted bytes, numbered in
order, and then a clean end or the reader's error; above it an error that is not an end. -/
structure Splits (s : Splitter) (all : Bytes) (clean : Bool) (cs : List Chunk) (e : Error) :
    Prop where
  excess : s.Over all.length → e.is .eof = false
  ends : ¬s.Over all.length → e.is .eof = clean
  bytes : ¬s.Over all.length → (cs.map (·.data)).flatten = all
  indices : cs.map (·.index) = List.range' s.index cs.length
  count : cs.length ≤ all.length

/-- A chunk is emitted, or the error that ends the calls. -/
theorem emit_cases (s : Splitter) (data : Bytes) :
    (s.Over data.length ∧ ∃ e s', s.emit data = (.error e, s') ∧ e.is .eof = false ∧
        e.is (.own .chunkTooLarge)) ∨
      (¬s.Over data.length ∧ data = [] ∧ ∃ s', s.emit data = (.error (.leaf .eof), s')) ∨
      (¬s.Over data.length ∧ data ≠ [] ∧ s.emit data = (.ok ⟨s.index, data⟩, { s with
        totalRead := s.totalRead + data.length, index := s.index + 1 })) := by
  by_cases excess : s.Over data.length
  · exact Or.inl ⟨excess, _, _, if_pos excess, rfl, rfl⟩
  · have within : s.emit data = _ := if_neg excess
    by_cases empty : data = []
    · exact Or.inr (Or.inl ⟨excess, empty, _, within.trans (if_pos empty)⟩)
    · exact Or.inr (Or.inr ⟨excess, empty, within.trans (if_neg empty)⟩)

theorem next_done (done : s.done = true) : s.next = (.error (.leaf .eof), s) := if_pos done

theorem next_of_read {data : Bytes} {err : Option Error} {r : Reader} (running : s.done = false)
    (read : s.r.readFull s.chunkSize = (data, err, r)) :
    s.next = { s with r }.settle data err := by
  simp only [next, running, Bool.false_eq_true, if_false, read]

/-- The last call that delivers bytes: the calls after it find the stream done. -/
theorem splits_tail {s' : Splitter} {data : Bytes} (call : s.next = s'.emit data)
    (done : s'.done = true) (limit : s'.maxTotal = s.maxTotal) (index : s'.index = s.index)
    (total : s'.totalRead = s.totalRead) :
    ∃ cs e, Drains s cs e ∧ s.Splits data true cs e := by
  have same : s'.Over data.length ↔ s.Over data.length := by rw [Over, Over, limit, total]
  rcases s'.emit_cases data with ⟨excess, e, s'', out, bad, -⟩ | ⟨within, rfl, s'', out⟩ |
    ⟨within, nonempty, out⟩
  · rw [same] at excess
    exact ⟨[], e, .stop (call.trans out),
      ⟨fun _ => bad, absurd excess, absurd excess, rfl, Nat.zero_le _⟩⟩
  · rw [same] at within
    exact ⟨[], _, .stop (call.trans out),
      ⟨fun excess => absurd excess within, fun _ => rfl, fun _ => rfl, rfl, Nat.zero_le _⟩⟩
  · rw [same] at within
    exact ⟨[⟨s'.index, data⟩], _, .more (call.trans out) (.stop (next_done done)),
      ⟨fun excess => absurd excess within, fun _ => rfl, fun _ => by simp, by simp [index],
        List.length_pos_iff.mpr nonempty⟩⟩

/-- A call that ends the stream without bytes. -/
theorem splits_end {e : Error} {s' : Splitter} {clean : Bool} (within : ¬s.Over 0)
    (out : s.next = (.error e, s')) (verdict : e.is .eof = clean) :
    ∃ cs e, Drains s cs e ∧ s.Splits [] clean cs e :=
  ⟨[], e, .stop out,
    ⟨fun excess => absurd excess within, fun _ => verdict, fun _ => rfl, rfl, Nat.zero_le _⟩⟩

/-- The calls on a stream that does not fill another buffer. -/
theorem splits_of_lt (running : s.done = false) (within : ¬s.Over 0)
    (short : s.r.bytes.length < s.chunkSize) :
    ∃ cs e, Drains s cs e ∧ s.Splits (counted s.chunkSize s.r.err s.r.bytes)
      (s.r.err.is .eof || s.r.err.is .unexpectedEOF) cs e := by
  obtain ⟨r', read, -, -⟩ := Go.Reader.readFull_of_lt short
  have call := next_of_read running read
  rw [counted_of_lt short]
  by_cases plain : s.r.err = .leaf .eof
  · by_cases empty : s.r.bytes = []
    · rw [if_neg (by simp [empty]), plain] at call
      simpa [empty, plain, Error.is] using splits_end within call rfl
    · rw [if_pos ⟨empty, plain⟩] at call
      simpa [keepsTail, plain, Error.is] using splits_tail call rfl rfl rfl rfl
  · rw [if_neg (by simp [plain])] at call
    by_cases eof : s.r.err.is .eof = true
    · have ended := splits_end within (call.trans (if_pos eof)) rfl
      simpa [keepsTail, plain, eof, Error.is] using ended
    · have out := call.trans (if_neg eof)
      by_cases unexpected : s.r.err.is .unexpectedEOF = true
      · rw [if_pos unexpected] at out
        simpa [keepsTail, eof, unexpected] using splits_tail out rfl rfl rfl rfl
      · rw [if_neg unexpected] at out
        simpa [keepsTail, plain, eof, unexpected] using
          splits_end within out (Bool.eq_false_iff.mpr eof)

/-- What the calls on a running splitter return, for every reader. -/
theorem splits (running : s.done = false) (within : ¬s.Over 0) :
    ∃ cs e, Drains s cs e ∧ s.Splits (counted s.chunkSize s.r.err s.r.bytes)
      (s.r.err.is .eof || s.r.err.is .unexpectedEOF) cs e := by
  induction measure : s.r.bytes.length using Nat.strongRecOn generalizing s with
  | _ n ih =>
    rcases Nat.lt_or_ge s.r.bytes.length s.chunkSize with short | full
    · exact splits_of_lt running within short
    · obtain ⟨r', read, rest, same⟩ := Go.Reader.readFull_of_le full
      have call := next_of_read running read
      have size : (s.r.bytes.take s.chunkSize).length = s.chunkSize :=
        List.length_take_of_le full
      have positive := s.positive
      rw [counted_of_le positive _ full]
      rcases { s with r := r' }.emit_cases (s.r.bytes.take s.chunkSize) with
        ⟨excess, e, s', out, bad, -⟩ | ⟨-, empty, -⟩ | ⟨fits, -, out⟩
      · have excess : s.Over (s.r.bytes.take s.chunkSize ++
            counted s.chunkSize s.r.err (s.r.bytes.drop s.chunkSize)).length :=
          Over.mono (s := s) excess (by rw [List.length_append]; omega)
        exact ⟨[], e, .stop (call.trans out),
          ⟨fun _ => bad, absurd excess, absurd excess, rfl, Nat.zero_le _⟩⟩
      · simp [empty] at size
        omega
      · have less : r'.bytes.length < s.r.bytes.length := by
          rw [rest, List.length_drop]
          omega
        obtain ⟨cs, e, drains, excess, ends, bytes, indices, count⟩ := ih _ (measure ▸ less)
          (s := { s with
            r := r'
            totalRead := s.totalRead + (s.r.bytes.take s.chunkSize).length
            index := s.index + 1 }) running fits rfl
        have shift (n : Nat) : s.Over ((s.r.bytes.take s.chunkSize).length + n) ↔
            Over { s with
              r := r'
              totalRead := s.totalRead + (s.r.bytes.take s.chunkSize).length
              index := s.index + 1 } n := by
          rw [Over, Over, Nat.add_assoc]
        rw [rest, same, ← shift, ← List.length_append] at excess ends bytes
        have count : cs.length ≤
            (counted s.chunkSize s.r.err (s.r.bytes.drop s.chunkSize)).length := by
          simpa only [rest, same] using count
        refine ⟨_ :: cs, e, .more (call.trans out) drains, ⟨excess, ends, ?_, ?_, ?_⟩⟩
        · intro within
          rw [List.map_cons, List.flatten_cons, bytes within]
        · rw [List.map_cons, indices, List.length_cons, List.range'_succ]
        · rw [List.length_cons, List.length_append]
          omega

/-- One call finds the limit exceeded only if the stream exceeds it, and a chunk uses up its
bytes. -/
theorem next_spec (foreign : s.r.err.is (.own .chunkTooLarge) = false)
    (within : ¬s.Over s.r.bytes.length) :
    (∃ e s', s.next = (.error e, s') ∧ e.is (.own .chunkTooLarge) = false) ∨
      ∃ c s', s.next = (.ok c, s') ∧ s'.r.err = s.r.err ∧ ¬s'.Over s'.r.bytes.length := by
  by_cases done : s.done
  · exact Or.inl ⟨_, _, next_done done, rfl⟩
  have running : s.done = false := Bool.eq_false_iff.mpr done
  rcases Nat.lt_or_ge s.r.bytes.length s.chunkSize with short | full
  · obtain ⟨r', read, drained, same⟩ := Go.Reader.readFull_of_lt short
    have call := next_of_read running read
    have last : ∀ data : Bytes, data.length = s.r.bytes.length →
        s.next = { s with r := r', done := true }.emit data →
        (∃ e s', s.next = (.error e, s') ∧ e.is (.own .chunkTooLarge) = false) ∨
          ∃ c s', s.next = (.ok c, s') ∧ s'.r.err = s.r.err ∧ ¬s'.Over s'.r.bytes.length := by
      intro data length out
      rcases { s with r := r', done := true }.emit_cases data with
        ⟨excess, -⟩ | ⟨-, -, s', ended⟩ | ⟨fits, -, more⟩
      · rw [length] at excess
        exact absurd excess within
      · exact Or.inl ⟨_, _, out.trans ended, rfl⟩
      · refine Or.inr ⟨_, _, out.trans more, same, ?_⟩
        simpa [Over, drained] using fits
    split at call
    · exact last s.r.bytes rfl call
    · unfold settle at call
      dsimp only at call
      split at call
      · exact Or.inl ⟨_, _, call, rfl⟩
      · split at call
        · exact last s.r.bytes rfl call
        · exact Or.inl ⟨_, _, call, foreign⟩
  · obtain ⟨r', read, rest, same⟩ := Go.Reader.readFull_of_le full
    have call := next_of_read running read
    have size : (s.r.bytes.take s.chunkSize).length = s.chunkSize := List.length_take_of_le full
    rcases { s with r := r' }.emit_cases (s.r.bytes.take s.chunkSize) with
      ⟨excess, -⟩ | ⟨-, -, s', ended⟩ | ⟨-, -, more⟩
    · exact absurd (Over.mono (s := s) excess (by omega)) within
    · exact Or.inl ⟨_, _, call.trans ended, rfl⟩
    · refine Or.inr ⟨_, _, call.trans more, same, fun excess => within ?_⟩
      have total : (s.totalRead + s.chunkSize + (s.r.bytes.length - s.chunkSize)) =
          s.totalRead + s.r.bytes.length := by omega
      simpa only [Over, rest, size, List.length_drop, total] using excess

/-- A stream within the limit is not found too large, unless its own error says so. -/
theorem Drains.not_tooLarge {cs : List Chunk} {e : Error} (drains : Drains s cs e)
    (foreign : s.r.err.is (.own .chunkTooLarge) = false) (within : ¬s.Over s.r.bytes.length) :
    e.is (.own .chunkTooLarge) = false := by
  induction drains with
  | stop out =>
    obtain ⟨e', s', call, fine⟩ | ⟨c, s', call, -⟩ := next_spec foreign within
    · obtain ⟨same, -⟩ := Prod.mk.inj (out.symm.trans call)
      exact Except.error.inj same ▸ fine
    · cases out.symm.trans call
  | more out rest ih =>
    obtain ⟨e', s', call, -⟩ | ⟨c, s', call, same, within'⟩ := next_spec foreign within
    · cases out.symm.trans call
    · obtain ⟨-, rfl⟩ := Prod.mk.inj (out.symm.trans call)
      exact ih (same ▸ foreign) within'

/-- A sequence of calls returns one thing. -/
theorem Drains.unique {cs cs' : List Chunk} {e e' : Error} (h : Drains s cs e)
    (h' : Drains s cs' e') : cs' = cs ∧ e' = e := by
  induction h generalizing cs' with
  | stop out =>
    cases h' with
    | stop out' => simp_all
    | more out' => simp_all
  | more out rest ih =>
    cases h' with
    | stop out' => simp_all
    | more out' rest' =>
      obtain ⟨same, rfl⟩ := Prod.mk.inj (out.symm.trans out')
      obtain rfl := Except.ok.inj same
      obtain ⟨rfl, rfl⟩ := ih rest'
      exact ⟨rfl, rfl⟩

/-- What the calls return on a stream that ends with `io.EOF`: the stream cut at the multiples
of the chunk size and numbered in order, as far as the size limit lets it through. -/
structure Cut (s : Splitter) (cs : List Chunk) (e : Error) : Prop where
  indices : cs.map (·.index) = List.range' s.index cs.length
  sizes : ∀ c ∈ cs, 0 < c.data.length ∧ c.data.length ≤ s.chunkSize
  full : ∀ c ∈ cs.dropLast, c.data.length = s.chunkSize
  bytes : (cs.map (·.data)).flatten <+: s.r.bytes
  fits : ¬s.Over (cs.map (·.data)).flatten.length
  excess : s.Over s.r.bytes.length → e.is (.own .chunkTooLarge)
  whole : ¬s.Over s.r.bytes.length → e = .leaf .eof ∧ (cs.map (·.data)).flatten = s.r.bytes ∧
    cs.length = (s.r.bytes.length + s.chunkSize - 1) / s.chunkSize

/-- The call that exceeds the limit emits nothing. -/
theorem cut_excess {e : Error} (within : ¬s.Over 0) (excess : s.Over s.r.bytes.length)
    (tooLarge : e.is (.own .chunkTooLarge)) : s.Cut [] e where
  indices := rfl
  sizes := by simp
  full := by simp
  bytes := List.nil_prefix
  fits := within
  excess _ := tooLarge
  whole fits := absurd excess fits

/-- The last calls on a stream that does not fill another buffer. -/
theorem cut_of_lt (running : s.done = false) (within : ¬s.Over 0) (clean : s.r.err = .leaf .eof)
    (short : s.r.bytes.length < s.chunkSize) : ∃ cs e, Drains s cs e ∧ s.Cut cs e := by
  obtain ⟨r', read, -, -⟩ := Go.Reader.readFull_of_lt short
  have call := next_of_read running read
  have positive := s.positive
  by_cases empty : s.r.bytes = []
  · rw [if_neg (by simp [empty]), clean] at call
    have none_ : (s.chunkSize - 1) / s.chunkSize = 0 := Nat.div_eq_of_lt (by omega)
    refine ⟨[], .leaf .eof, .stop call, rfl, by simp, by simp, List.nil_prefix, within,
      fun excess => absurd ?_ within, fun _ => ⟨rfl, by simp [empty], by simp [empty, none_]⟩⟩
    simpa [empty] using excess
  · rw [if_pos ⟨empty, clean⟩] at call
    have one : (s.r.bytes.length + s.chunkSize - 1) / s.chunkSize = 1 := by
      have some_ := List.length_pos_iff.mpr empty
      rw [Nat.div_eq_iff positive]
      omega
    rcases { s with r := r', done := true }.emit_cases s.r.bytes with
      ⟨excess, e, s', out, -, tooLarge⟩ | ⟨-, empty', -⟩ | ⟨fits, -, out⟩
    · exact ⟨[], e, .stop (call.trans out), cut_excess within excess tooLarge⟩
    · exact absurd empty' empty
    · refine ⟨_, .leaf .eof, .more (call.trans out) (.stop (next_done rfl)), rfl, ?_, by simp,
        by simp, ?_, fun excess => absurd excess fits, fun _ => ⟨rfl, by simp, ?_⟩⟩
      · intro c listed
        obtain rfl := List.mem_singleton.mp listed
        exact ⟨List.length_pos_iff.mpr empty, Nat.le_of_lt short⟩
      · rw [List.map_singleton, List.flatten_singleton]
        exact fits
      · rw [one]
        rfl

/-- A stream that ends with `io.EOF` is cut at the multiples of the chunk size. -/
theorem cut (running : s.done = false) (within : ¬s.Over 0) (clean : s.r.err = .leaf .eof) :
    ∃ cs e, Drains s cs e ∧ s.Cut cs e := by
  induction measure : s.r.bytes.length using Nat.strongRecOn generalizing s with
  | _ n ih =>
    rcases Nat.lt_or_ge s.r.bytes.length s.chunkSize with short | full
    · exact cut_of_lt running within clean short
    · obtain ⟨r', read, rest, same⟩ := Go.Reader.readFull_of_le full
      have call := next_of_read running read
      have size : (s.r.bytes.take s.chunkSize).length = s.chunkSize :=
        List.length_take_of_le full
      have positive := s.positive
      rcases { s with r := r' }.emit_cases (s.r.bytes.take s.chunkSize) with
        ⟨excess, e, s', out, -, tooLarge⟩ | ⟨-, empty, -⟩ | ⟨fits, -, out⟩
      · refine ⟨[], e, .stop (call.trans out), cut_excess within ?_ tooLarge⟩
        exact Over.mono (s := s) excess (by omega)
      · simp [empty] at size
        omega
      · have shift (n : Nat) : s.Over (s.chunkSize + n) ↔
            Over { s with
              r := r'
              totalRead := s.totalRead + (s.r.bytes.take s.chunkSize).length
              index := s.index + 1 } n := by
          rw [Over, Over, size, Nat.add_assoc]
        have split : s.r.bytes.length = s.chunkSize + r'.bytes.length := by
          rw [rest, List.length_drop]
          omega
        obtain ⟨cs, e, drains, cut⟩ := ih r'.bytes.length (by omega)
          (s := { s with
            r := r'
            totalRead := s.totalRead + (s.r.bytes.take s.chunkSize).length
            index := s.index + 1 }) running fits (same.trans clean) rfl
        have fits' := cut.fits
        have excess := cut.excess
        have whole := cut.whole
        rw [← shift] at fits' excess whole
        refine ⟨_ :: cs, e, .more (call.trans out) drains, ?_, ?_, ?_, ?_, ?_, ?_, ?_⟩
        · rw [List.map_cons, cut.indices, List.length_cons, List.range'_succ]
        · intro c listed
          rcases List.mem_cons.mp listed with rfl | listed
          · exact ⟨size.symm ▸ positive, Nat.le_of_eq size⟩
          · exact cut.sizes c listed
        · intro c listed
          cases cs with
          | nil => simp at listed
          | cons first later =>
            rw [List.dropLast_cons_cons] at listed
            rcases List.mem_cons.mp listed with rfl | listed
            · exact size
            · exact cut.full c listed
        · rw [List.map_cons, List.flatten_cons]
          conv_rhs => rw [← List.take_append_drop s.chunkSize s.r.bytes]
          exact List.prefix_append_right_inj _ |>.mpr (rest ▸ cut.bytes)
        · rw [List.map_cons, List.flatten_cons, List.length_append, size]
          exact fits'
        · rw [split]
          exact excess
        · rw [split]
          intro below
          obtain ⟨ended, bytes, count⟩ := whole below
          refine ⟨ended, ?_, ?_⟩
          · rw [List.map_cons, List.flatten_cons, bytes, rest, List.take_append_drop]
          · have next : s.chunkSize + r'.bytes.length + s.chunkSize - 1 =
                r'.bytes.length + s.chunkSize - 1 + s.chunkSize := by omega
            rw [List.length_cons, count, next, Nat.add_div_right _ positive]

end Splitter

/-- How many chunks an object of the given size will produce. -/
def planChunks (objectSize chunkSize : Int) : Int :=
  if chunkSize ≤ 0 ∨ objectSize ≤ 0 then 0 else (objectSize + chunkSize - 1).tdiv chunkSize

theorem planChunks_natCast {chunkSize : Nat} (positive : 0 < chunkSize) (size : Nat) :
    planChunks size chunkSize = ((size + chunkSize - 1) / chunkSize : Nat) := by
  unfold planChunks
  split
  · have empty : size = 0 := by omega
    have none_ : (chunkSize - 1) / chunkSize = 0 := Nat.div_eq_of_lt (by omega)
    simp [empty, none_]
  · have total : (size : Int) + chunkSize - 1 = ((size + chunkSize - 1 : Nat) : Int) := by omega
    rw [total]
    rfl

end FlexStore.Chunking
