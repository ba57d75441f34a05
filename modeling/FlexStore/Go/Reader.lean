import Mathlib.Data.List.Basic

/-!
# Errors and readers

An error value is a sentinel or wraps other errors. Comparing it with a sentinel and
asking `errors.Is` for the sentinel are different questions, and a wrapped sentinel
answers them differently.

A `Reader` is given by what it will still deliver: the pieces that its reads return one
after the other, and the error that ends the stream and is returned by every read after
that. A piece may be empty, a read that asks for less than a piece leaves the rest of it,
and the final error may come together with the last bytes or alone. Every finite stream
behind an `io.Reader` is of this form for the pieces it happened to return.

`io.ReadFull` does not depend on the pieces: its result is a function of the bytes and
of the final error.
-/

namespace Go

abbrev Bytes := List UInt8

/-- The error values that are compared by identity: the two of package `io`, and those
that a program declares. -/
inductive Sentinel (ι : Type) where
  | eof
  | unexpectedEOF
  | own (name : ι)
  deriving DecidableEq, Repr

/-- An error: a sentinel, an error with a text around it (`fmt.Errorf` with one `%w`), or
two errors at once (`errors.Join`). -/
inductive Error (ι : Type) where
  | leaf (s : Sentinel ι)
  | wrapped (text : String) (cause : Error ι)
  | joined (first second : Error ι)
  deriving DecidableEq, Repr

variable {ι : Type}

/-- `errors.Is`. -/
def Error.is [DecidableEq ι] (s : Sentinel ι) : Error ι → Bool
  | .leaf t => t = s
  | .wrapped _ cause => cause.is s
  | .joined first second => first.is s || second.is s

structure Reader (ι : Type) where
  pieces : List Bytes
  err : Error ι
  /-- The final error is returned together with the last piece. -/
  eager : Bool

namespace Reader

/-- The bytes that the reader still delivers. -/
def bytes (r : Reader ι) : Bytes := r.pieces.flatten

/-- `r.Read` into a buffer with room for `limit` bytes. -/
def read (r : Reader ι) (limit : Nat) : Bytes × Option (Error ι) × Reader ι :=
  match r.pieces with
  | [] => ([], some r.err, r)
  | piece :: rest =>
    let pieces := if piece.length ≤ limit then rest else piece.drop limit :: rest
    (piece.take limit, if pieces = [] ∧ r.eager then some r.err else none, { r with pieces })

/-- The loop of `io.ReadAtLeast`: read until `need` bytes are there or a read fails. A read
without an error uses up a piece or fills the buffer, so one turn more than there are
pieces is enough. -/
def readLoop : Nat → Reader ι → Nat → Bytes × Option (Error ι) × Reader ι
  | 0, r, _ => ([], none, r)
  | fuel + 1, r, need =>
    if need = 0 then ([], none, r)
    else
      match r.read need with
      | (data, some err, r) => (data, some err, r)
      | (data, none, r) =>
        let (more, err, r) := readLoop fuel r (need - data.length)
        (data ++ more, err, r)

/-- The bytes that were delivered, the reader behind them, and nothing lost in between. -/
structure Delivered (r : Reader ι) (got : Bytes) (r' : Reader ι) : Prop where
  bytes : r.bytes = got ++ r'.bytes
  err : r'.err = r.err

theorem Delivered.trans {r r' r'' : Reader ι} {first second : Bytes} (h : Delivered r first r')
    (h' : Delivered r' second r'') : Delivered r (first ++ second) r'' where
  bytes := by rw [h.bytes, h'.bytes, List.append_assoc]
  err := h'.err.trans h.err

/-- One read fails only at the end of the bytes, and otherwise uses up a piece or fills the
buffer. -/
theorem read_spec (r : Reader ι) (limit : Nat) :
    ∃ got err r', r.read limit = (got, err, r') ∧ Delivered r got r' ∧ got.length ≤ limit ∧
      (∀ e, err = some e → e = r.err ∧ r'.bytes = []) ∧
      (err = none → r'.pieces.length < r.pieces.length ∨
        r'.pieces.length = r.pieces.length ∧ got.length = limit) := by
  rcases r with ⟨pieces, err, eager⟩
  cases pieces with
  | nil =>
    exact ⟨[], some err, _, rfl, ⟨rfl, rfl⟩, Nat.zero_le _, by simp [bytes, eq_comm], by simp⟩
  | cons piece rest =>
    refine ⟨_, _, _, rfl, ⟨?_, rfl⟩, List.length_take_le _ _, ?_, ?_⟩
    · by_cases whole : piece.length ≤ limit
      · simp [bytes, whole, List.take_of_length_le]
      · simp [bytes, whole, ← List.append_assoc]
    · intro e failed
      obtain ⟨⟨last, -⟩, same⟩ := Option.ite_none_right_eq_some.mp failed
      exact ⟨(Option.some.inj same).symm, by rw [bytes, last]; rfl⟩
    · intro _
      by_cases whole : piece.length ≤ limit
      · exact Or.inl (by simp [whole])
      · exact Or.inr ⟨by simp [whole], by simp; omega⟩

/-- The loop stops short of the wanted bytes only at the end of the stream. -/
theorem readLoop_spec {fuel : Nat} {r : Reader ι} (enough : r.pieces.length < fuel) (need : Nat) :
    ∃ got err r', readLoop fuel r need = (got, err, r') ∧ Delivered r got r' ∧
      got.length ≤ need ∧ (got.length < need → err = some r.err ∧ r'.bytes = []) := by
  induction fuel generalizing r need with
  | zero => cases enough
  | succ fuel ih =>
    by_cases filled : need = 0
    · exact ⟨[], none, r, by simp [readLoop, filled], ⟨rfl, rfl⟩, Nat.zero_le _, by simp [filled]⟩
    · obtain ⟨got, err, r', call, delivered, fits, failed, progress⟩ := read_spec r need
      cases err with
      | some e =>
        obtain ⟨rfl, drained⟩ := failed e rfl
        exact ⟨got, some r.err, r', by simp [readLoop, filled, call], delivered, fits,
          fun _ => ⟨rfl, drained⟩⟩
      | none =>
        by_cases full : got.length = need
        · refine ⟨got, none, r', ?_, delivered, fits, by omega⟩
          cases fuel <;> simp [readLoop, filled, call, full]
        · have fewer : r'.pieces.length < fuel := by
            rcases progress rfl with less | ⟨-, filled⟩
            · omega
            · exact absurd filled full
          obtain ⟨more, err, r'', rest, delivered', fits', short⟩ :=
            ih fewer (need - got.length)
          refine ⟨got ++ more, err, r'', by simp [readLoop, filled, call, rest],
            delivered.trans delivered', ?_, ?_⟩
          · rw [List.length_append]
            omega
          · rw [List.length_append, ← delivered.err]
            exact fun less => short (by omega)

variable [DecidableEq ι]

/-- `io.ReadFull` with a buffer of `size` bytes: an error is dropped when the buffer is full
anyway, and `io.EOF` in the middle of the buffer is `io.ErrUnexpectedEOF`. -/
def readFull (r : Reader ι) (size : Nat) : Bytes × Option (Error ι) × Reader ι :=
  let (data, err, r') := readLoop (r.pieces.length + 1) r size
  if size ≤ data.length then (data, none, r')
  else if data ≠ [] ∧ err = some (.leaf .eof) then (data, some (.leaf .unexpectedEOF), r')
  else (data, err, r')

/-- A stream with enough bytes fills the buffer, however it delivers them. -/
theorem readFull_of_le {r : Reader ι} {size : Nat} (enough : size ≤ r.bytes.length) :
    ∃ r', r.readFull size = (r.bytes.take size, none, r') ∧ r'.bytes = r.bytes.drop size ∧
      r'.err = r.err := by
  obtain ⟨got, err, r', call, ⟨bytes, same⟩, fits, short⟩ :=
    readLoop_spec (Nat.lt_succ_self r.pieces.length) size
  have full : got.length = size := by
    by_contra less
    obtain ⟨-, drained⟩ := short (by omega)
    rw [bytes, drained, List.append_nil] at enough
    omega
  refine ⟨r', ?_, ?_, same⟩
  · rw [bytes, List.take_left' full]
    simp [readFull, call, full]
  · rw [bytes, List.drop_left' full]

/-- A stream that ends in the middle of the buffer delivers what it has. Its final error is
returned, except that a plain `io.EOF` behind some bytes is an unexpected one. -/
theorem readFull_of_lt {r : Reader ι} {size : Nat} (short : r.bytes.length < size) :
    ∃ r', r.readFull size = (r.bytes, some (if r.bytes ≠ [] ∧ r.err = .leaf .eof then
      .leaf .unexpectedEOF else r.err), r') ∧ r'.bytes = [] ∧ r'.err = r.err := by
  obtain ⟨got, err, r', call, ⟨bytes, same⟩, fits, drained⟩ :=
    readLoop_spec (Nat.lt_succ_self r.pieces.length) size
  have less : got.length < size := by
    rw [bytes, List.length_append] at short
    omega
  obtain ⟨rfl, ended⟩ := drained less
  rw [ended, List.append_nil] at bytes
  refine ⟨r', ?_, ended, same⟩
  rw [bytes]
  by_cases truncated : got ≠ [] ∧ r.err = .leaf .eof
  · simp [readFull, call, less, truncated]
  · simp [readFull, call, less, truncated]

end Reader

end Go
