import FlexStore.Storage.Stream

/-!
# Reading a stream in pieces of any size

The two adapters of chunk streams are read with buffers of any sizes, and the boundaries of
the messages and of the buffers have nothing to do with each other. A reader holds bytes if
what is left of its last message and the data messages in front of some tail carry them
(`Holds`). A read of a reader that holds bytes returns some of them and leaves it holding the
others; a read of one that holds none returns what the tail fails with. So a sequence of reads
delivers the bytes and then the error (`Delivers`).
-/

namespace FlexStore.Storage

open Go

/-- The results of reads with buffers of these sizes, one after the other. -/
def reads (read : StreamReader → Nat → Bytes × Option Error × StreamReader) :
    StreamReader → List Nat → List (Bytes × Option Error)
  | _, [] => []
  | r, size :: sizes =>
    ((read r size).1, (read r size).2.1) :: reads read (read r size).2.2 sizes

/-- An adapter of a stream that sends these messages and then ends with an error. -/
def StreamReader.start (messages : List Message) (err : Error) : StreamReader :=
  ⟨messages, err, [], false⟩

/-- What a read makes of the error of a stream. -/
def ending (e : Error) : Error := if e.is .eof then .leaf .eof else e

/-- The reads return the bytes in pieces that fit the buffers, none of them empty, and then
the error: as soon as a read does not return a piece, all the bytes have been returned. One
read more than there are bytes gets there. -/
structure Delivers (bytes : Bytes) (err : Error) (sizes : List Nat) (got : List Bytes)
    (rest outs : List (Bytes × Option Error)) : Prop where
  outs_eq : outs = got.map (·, none) ++ rest
  fits : List.Forall₂ (fun piece size => piece ≠ [] ∧ piece.length ≤ size) got
    (sizes.take got.length)
  part : got.flatten <+: bytes
  whole : rest ≠ [] → got.flatten = bytes ∧ rest.head? = some ([], some err)
  reached : bytes.length < sizes.length → rest ≠ []

/-- The reader still has these bytes in front of the tail. -/
structure Holds (r : StreamReader) (bytes : Bytes) (tail before : List Message) : Prop where
  open_ : r.done = false
  dataOnly : ∀ m ∈ before, m ≠ .header
  messages : r.messages = before ++ tail
  bytes_eq : bytes = r.buf ++ payload before

section Delivers

variable {bytes left piece : Bytes} {err : Error} {size : Nat} {sizes : List Nat}
variable {got : List Bytes} {rest outs : List (Bytes × Option Error)}

theorem Delivers.nil (bytes : Bytes) (err : Error) : Delivers bytes err [] [] [] [] where
  outs_eq := rfl
  fits := .nil
  part := List.nil_prefix
  whole absurd_ := absurd rfl absurd_
  reached absurd_ := absurd absurd_ (Nat.not_lt_zero _)

/-- The bytes are used up. -/
theorem Delivers.last (err : Error) (sizes : List Nat) (outs : List (Bytes × Option Error)) :
    Delivers [] err sizes [] (([], some err) :: outs) (([], some err) :: outs) where
  outs_eq := rfl
  fits := .nil
  part := List.nil_prefix
  whole _ := ⟨rfl, rfl⟩
  reached _ := List.cons_ne_nil _ _

/-- One more piece in front. -/
theorem Delivers.cons (delivers : Delivers left err sizes got rest outs) (some_ : piece ≠ [])
    (fits : piece.length ≤ size) :
    Delivers (piece ++ left) err (size :: sizes) (piece :: got) rest ((piece, none) :: outs) where
  outs_eq := by rw [delivers.outs_eq, List.map_cons, List.cons_append]
  fits := .cons ⟨some_, fits⟩ delivers.fits
  part := by
    rw [List.flatten_cons]
    exact (List.prefix_append_right_inj piece).mpr delivers.part
  whole stopped := by
    obtain ⟨all, first⟩ := delivers.whole stopped
    exact ⟨by rw [List.flatten_cons, all], first⟩
  reached more := by
    have positive := List.length_pos_iff.mpr some_
    rw [List.length_append, List.length_cons] at more
    exact delivers.reached (by omega)

end Delivers

section Reads

variable {accept : Message → Except Error Bytes} (data : ∀ b, accept (.data b) = .ok b)
variable {r : StreamReader} {bytes : Bytes} {tail before messages : List Message} {e : Error}

include data in
/-- Data messages in front of a tail: either they are empty, or the first bytes are found. -/
theorem fill_append (err : Error) (tail : List Message) (dataOnly : ∀ m ∈ before, m ≠ .header) :
    (payload before = [] ∧ fill accept err (before ++ tail) = fill accept err tail) ∨
      ∃ bytes later, fill accept err (before ++ tail) = (.ok bytes, later ++ tail) ∧ bytes ≠ [] ∧
        payload before = bytes ++ payload later ∧ ∀ m ∈ later, m ≠ .header := by
  induction before with
  | nil => exact Or.inl ⟨rfl, rfl⟩
  | cons message before ih =>
    obtain ⟨first, others⟩ := List.forall_mem_cons.mp dataOnly
    cases message with
    | header => exact absurd rfl first
    | data bytes =>
      cases bytes with
      | nil =>
        have skip : fill accept err (.data [] :: (before ++ tail)) =
            fill accept err (before ++ tail) := by
          rw [fill, data]
        rw [List.cons_append, skip]
        exact ih others
      | cons b more =>
        refine Or.inr ⟨b :: more, before, ?_, List.cons_ne_nil _ _, rfl, others⟩
        rw [List.cons_append, fill, data]

include data in
/-- A read of a reader that holds bytes returns some of them. -/
theorem readWith_holds (holds : Holds r bytes tail before) (some_ : bytes ≠ []) {limit : Nat}
    (room : 0 < limit) :
    ∃ piece left r' before', r.readWith accept limit = (piece, none, r') ∧ piece ≠ [] ∧
      piece.length ≤ limit ∧ bytes = piece ++ left ∧ Holds r' left tail before' ∧
      r'.err = r.err := by
  obtain ⟨messages, err, buf, done⟩ := r
  obtain ⟨rfl, dataOnly, rfl, rfl⟩ := holds
  have nonempty {bytes : Bytes} (some_ : bytes ≠ []) : bytes.take limit ≠ [] := by
    rw [ne_eq, List.take_eq_nil_iff]
    rintro (zero | empty)
    · omega
    · exact some_ empty
  by_cases held : buf = []
  · subst held
    obtain ⟨empty, _⟩ | ⟨bytes, later, out, present, split, more⟩ :=
      fill_append data err tail dataOnly
    · exact absurd empty some_
    · refine ⟨bytes.take limit, bytes.drop limit ++ payload later,
        ⟨later ++ tail, err, bytes.drop limit, false⟩, later, ?_, nonempty present,
        List.length_take_le _ _, ?_, ⟨rfl, more, rfl, rfl⟩, rfl⟩
      · simp [StreamReader.readWith, out]
      · rw [List.nil_append, split, ← List.append_assoc, List.take_append_drop]
  · refine ⟨buf.take limit, buf.drop limit ++ payload before,
      ⟨before ++ tail, err, buf.drop limit, false⟩, before, ?_, nonempty held,
      List.length_take_le _ _, ?_, ⟨rfl, dataOnly, rfl, rfl⟩, rfl⟩
    · rw [StreamReader.readWith, if_pos held]
    · rw [← List.append_assoc, List.take_append_drop]

include data in
/-- A read of a reader that holds none returns what the tail fails with. -/
theorem readWith_drained (holds : Holds r [] tail before)
    (fails : fill accept r.err tail = (.error e, messages)) (limit : Nat) :
    r.readWith accept limit =
      ([], some (ending e), ⟨messages, r.err, [], e.is .eof⟩) := by
  obtain ⟨_, err, buf, done⟩ := r
  obtain ⟨rfl, dataOnly, rfl, split⟩ := holds
  obtain ⟨rfl, empty⟩ := List.append_eq_nil_iff.mp split.symm
  have same : fill accept err (before ++ tail) = (.error e, messages) := by
    obtain ⟨_, same⟩ | ⟨bytes, later, _, present, split, _⟩ := fill_append data err tail dataOnly
    · exact same.trans fails
    · rw [empty] at split
      exact absurd (List.append_eq_nil_iff.mp split.symm).1 present
  rw [StreamReader.readWith, if_neg (by simp), ending]
  by_cases eof : e.is .eof = true
  · simp [same, eof]
  · simp [same, eof]

include data in
/-- The reads of a reader that holds bytes, by induction on the sizes. -/
theorem reads_holds {sizes : List Nat} (room : ∀ size ∈ sizes, 1 ≤ size)
    (holds : Holds r bytes tail before)
    (fails : fill accept r.err tail = (.error e, messages)) :
    ∃ got rest, Delivers bytes (ending e) sizes got rest
        (reads (StreamReader.readWith accept) r sizes) ∧
      (rest ≠ [] → ∃ later, rest = ([], some (ending e)) ::
        reads (StreamReader.readWith accept) ⟨messages, r.err, [], e.is .eof⟩ later) := by
  induction sizes generalizing r bytes before with
  | nil => exact ⟨[], [], .nil _ _, fun absurd_ => absurd rfl absurd_⟩
  | cons size sizes ih =>
    obtain ⟨positive, others⟩ := List.forall_mem_cons.mp room
    by_cases empty : bytes = []
    · subst empty
      have out := readWith_drained data holds fails size
      rw [reads, out]
      exact ⟨[], _, .last _ _ _, fun _ => ⟨sizes, rfl⟩⟩
    · obtain ⟨piece, left, r', before', out, some_, fits, rfl, holds', same⟩ :=
        readWith_holds data holds empty positive
      rw [← same] at fails
      obtain ⟨got, rest, delivers, ends⟩ := ih others holds' fails
      rw [reads, out]
      refine ⟨piece :: got, rest, delivers.cons some_ fits, ?_⟩
      rw [← same]
      exact ends

/-- A reader whose stream has ended returns the same error every time. -/
theorem reads_ended (err : Error) (sizes : List Nat) :
    ∀ out ∈ reads (StreamReader.readWith accept) ⟨[], err, [], err.is .eof⟩ sizes,
      out = ([], some (ending err)) := by
  induction sizes with
  | nil =>
    intro out listed
    cases listed
  | cons size sizes ih =>
    have again : StreamReader.readWith accept ⟨[], err, [], err.is .eof⟩ size =
        ([], some (ending err), ⟨[], err, [], err.is .eof⟩) := by
      rw [StreamReader.readWith, if_neg (by simp), ending]
      by_cases eof : err.is .eof = true
      · simp [eof]
      · simp [eof, fill]
    rw [reads, again]
    exact List.forall_mem_cons.mpr ⟨rfl, ih⟩

include data in
/-- The reads of a stream of data messages: the bytes, and then its error every time. -/
theorem reads_stream {sizes : List Nat} (room : ∀ size ∈ sizes, 1 ≤ size)
    (dataOnly : ∀ m ∈ messages, m ≠ .header) (err : Error) :
    ∃ got rest, Delivers (payload messages) (ending err) sizes got rest
        (reads (StreamReader.readWith accept) (.start messages err) sizes) ∧
      ∀ out ∈ rest, out = ([], some (ending err)) := by
  have holds : Holds (.start messages err) (payload messages) [] messages :=
    ⟨rfl, dataOnly, (List.append_nil _).symm, rfl⟩
  obtain ⟨got, rest, delivers, ends⟩ := reads_holds data room holds (e := err) rfl
  refine ⟨got, rest, delivers, ?_⟩
  by_cases stopped : rest = []
  · rw [stopped]
    exact fun out listed => absurd listed List.not_mem_nil
  · obtain ⟨later, rfl⟩ := ends stopped
    exact List.forall_mem_cons.mpr ⟨rfl, reads_ended err later⟩

end Reads

/-- Empty frames carry nothing. -/
theorem payload_filter (messages : List Message) :
    payload (messages.filter (· ≠ .data [])) = payload messages := by
  induction messages with
  | nil => rfl
  | cons message messages ih =>
    cases message with
    | header => simpa [payload] using ih
    | data bytes =>
      cases bytes with
      | nil | cons b more => simpa [payload] using ih

/-- The frames of a payload with empty frames in between, and nothing else, carry it. -/
structure Framed (size : Nat) (bytes : Bytes) (messages : List Message) : Prop where
  frames : messages.filter (· ≠ .data []) = frames size bytes.length bytes

theorem Framed.payload_eq {size : Nat} {bytes : Bytes} {messages : List Message}
    (framed : Framed size bytes messages) (positive : 1 ≤ size) : payload messages = bytes := by
  rw [← payload_filter, framed.frames, payload_frames positive (Nat.le_refl _)]

theorem Framed.dataOnly {size : Nat} {bytes : Bytes} {messages : List Message}
    (framed : Framed size bytes messages) : ∀ m ∈ messages, m ≠ .header := by
  rintro m listed rfl
  have kept : Message.header ∈ messages.filter (· ≠ .data []) :=
    List.mem_filter.mpr ⟨listed, by decide⟩
  rw [framed.frames] at kept
  exact frames_clean _ _ _ _ kept rfl

inductive Adapter : (StreamReader → Nat → Bytes × Option Error × StreamReader) → Prop where
  | storeChunk : Adapter streamRead
  | readChunk : Adapter readChunkRead

theorem Adapter.reads {read : StreamReader → Nat → Bytes × Option Error × StreamReader}
    (adapter : Adapter read) {sizes : List Nat} (room : ∀ size ∈ sizes, 1 ≤ size)
    {messages : List Message} (dataOnly : ∀ m ∈ messages, m ≠ .header) (err : Error) :
    ∃ got rest, Delivers (payload messages) (ending err) sizes got rest
        (reads read (.start messages err) sizes) ∧
      ∀ out ∈ rest, out = ([], some (ending err)) := by
  cases adapter with
  | storeChunk | readChunk => exact reads_stream (fun _ => rfl) room dataOnly err

/-- Whatever the sizes of the reads: both adapters deliver a payload from its frames, with
empty frames anywhere, and then `io.EOF` every time; a stream that fails behind any data
messages delivers their bytes and then its error every time; and a second header is reported
behind the bytes of the data messages before it, whatever follows. -/
theorem adapters_deliver (sizes : List Nat) (room : ∀ size ∈ sizes, 1 ≤ size) :
    (∀ read, Adapter read → ∀ size bytes messages, 1 ≤ size → Framed size bytes messages →
      ∃ got rest, Delivers bytes (.leaf .eof) sizes got rest
          (reads read (.start messages (.leaf .eof)) sizes) ∧
        ∀ out ∈ rest, out = ([], some (.leaf .eof))) ∧
    (∀ read, Adapter read → ∀ messages err, (∀ m ∈ messages, m ≠ .header) →
      ∃ got rest, Delivers (payload messages) (ending err) sizes got rest
          (reads read (.start messages err) sizes) ∧
        ∀ out ∈ rest, out = ([], some (ending err))) ∧
    ∀ before after err, (∀ m ∈ before, m ≠ .header) →
      ∃ got rest, Delivers (payload before) (.leaf (.own .secondHeader)) sizes got rest
        (reads streamRead (.start (before ++ .header :: after) err) sizes) := by
  refine ⟨?_, ?_, ?_⟩
  · intro read adapter size bytes messages positive framed
    have delivered := adapter.reads room framed.dataOnly (.leaf .eof)
    rw [framed.payload_eq positive] at delivered
    exact delivered
  · intro read adapter messages err dataOnly
    exact adapter.reads room dataOnly err
  · intro before after err dataOnly
    have holds : Holds (.start (before ++ .header :: after) err) (payload before)
        (.header :: after) before := ⟨rfl, dataOnly, rfl, rfl⟩
    have data (b : Bytes) : acceptData (.data b) = .ok b := rfl
    have fails : fill acceptData err (.header :: after) =
        (.error (.leaf (.own .secondHeader)), after) := rfl
    obtain ⟨got, rest, delivers, _⟩ := reads_holds data room holds fails
    exact ⟨got, rest, delivers⟩

/-- Three bytes in frames of two, with empty frames, read with buffers of one and four. -/
theorem adapters_deliver_three :
    Framed 2 [1, 2, 3] [.data [], .data [1, 2], .data [], .data [3], .data []] ∧
      ∃ got rest, Delivers [1, 2, 3] (.leaf .eof) [1, 4, 1, 1] got rest
        (reads streamRead
          (.start [.data [], .data [1, 2], .data [], .data [3], .data []] (.leaf .eof))
          [1, 4, 1, 1]) := by
  have framed : Framed 2 [1, 2, 3] [.data [], .data [1, 2], .data [], .data [3], .data []] :=
    ⟨by decide⟩
  obtain ⟨got, rest, delivers, _⟩ := (adapters_deliver [1, 4, 1, 1] (by decide)).1
    streamRead .storeChunk 2 [1, 2, 3] _ (by decide) framed
  exact ⟨framed, got, rest, delivers⟩

end FlexStore.Storage
