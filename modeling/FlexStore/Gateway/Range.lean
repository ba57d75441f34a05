import FlexStore.Go.Text
import FlexStore.Metadata.Types

/-!
# Range requests

A `Range` header is resolved against the size of the object, and the chunks that overlap the
range are selected with the window that each of them contributes. The offsets of the chunks
are the sums of the recorded sizes before them, because the parts of a multipart upload are
cut into chunks one by one and leave short chunks in the middle.

`parseRange_rfc7233_iff` compares the parser with the grammar of a single byte range. They
differ because the numbers of the header are read by `strconv.ParseInt`, which takes a sign
and refuses what does not fit into 64 bits. `selectChunks_window` says that the selected
windows are the range.
-/

namespace FlexStore.Gateway

open Go Metadata

inductive RangeError where
  | unsatisfiable
  | ignorable
  deriving DecidableEq, Repr

/-- A resolved range within an object, both ends included. -/
structure ByteRange where
  start : Int
  last : Int
  deriving DecidableEq, Repr

def ByteRange.length (br : ByteRange) : Int := int64 (int64 (br.last - br.start) + 1)

/-- `bytes=`. -/
def bytesPrefix : Bytes := [0x62, 0x79, 0x74, 0x65, 0x73, 0x3D]

def comma : UInt8 := 0x2C

def dash : UInt8 := 0x2D

/-- The part of `parseRange` behind the split at the dash. -/
def resolveRange (fromText toText : Bytes) (size : Int) : Except RangeError ByteRange :=
  if size = 0 then .error .unsatisfiable
  else if fromText = [] then
    match parseInt toText with
    | none => .error .ignorable
    | some n =>
      if n ≤ 0 then .error .ignorable
      else
        let n := if size < n then size else n
        .ok ⟨int64 (size - n), int64 (size - 1)⟩
  else if toText = [] then
    match parseInt fromText with
    | none => .error .ignorable
    | some start =>
      if start < 0 then .error .ignorable
      else if size ≤ start then .error .unsatisfiable
      else .ok ⟨start, int64 (size - 1)⟩
  else
    match parseInt fromText with
    | none => .error .ignorable
    | some start =>
      if start < 0 then .error .ignorable
      else
        match parseInt toText with
        | none => .error .ignorable
        | some last =>
          if last < start then .error .ignorable
          else if size ≤ start then .error .unsatisfiable
          else .ok ⟨start, if size ≤ last then int64 (size - 1) else last⟩

/-- The part of `parseRange` up to the split at the dash: the texts of the two positions. -/
def rangeTexts (header : Bytes) : Option (Bytes × Bytes) :=
  if header = [] then none
  else if ¬ bytesPrefix <+: header then none
  else
    let spec := trimSpace (header.drop bytesPrefix.length)
    if spec = [] ∨ comma ∈ spec then none
    else (indexByte spec dash).map fun i =>
      (trimSpace (spec.take i), trimSpace (spec.drop (i + 1)))

def parseRange (header : Bytes) (size : Int) : Except RangeError ByteRange :=
  match rangeTexts header with
  | none => .error .ignorable
  | some (fromText, toText) => resolveRange fromText toText size

section Grammar

/-- A single range as a header can ask for it. -/
inductive RangeSpec where
  | closed (first last : Int)
  | onwards (first : Int)
  | suffix (count : Int)
  deriving DecidableEq, Repr

/-- The answer to a range against an object of the given size. -/
def RangeSpec.resolve (size : Int) : RangeSpec → Except RangeError ByteRange
  | .closed first last =>
    if first < size then .ok ⟨first, min last (size - 1)⟩ else .error .unsatisfiable
  | .onwards first => if first < size then .ok ⟨first, size - 1⟩ else .error .unsatisfiable
  | .suffix count => .ok ⟨size - min count size, size - 1⟩

def RangeSpec.largest : RangeSpec → Int
  | .closed _ last => last
  | .onwards first => first
  | .suffix count => count

/-- The range that two positions write, with `value` for the number of a position. -/
def rangeOf (value : Bytes → Option Int) (first last : Bytes) : Option RangeSpec :=
  if first = [] then
    (value last).bind fun n => if 0 < n then some (.suffix n) else none
  else if last = [] then
    (value first).bind fun n => if 0 ≤ n then some (.onwards n) else none
  else
    (value first).bind fun n => (value last).bind fun m =>
      if 0 ≤ n ∧ n ≤ m then some (.closed n m) else none

def digits (s : Bytes) : Option Int := (decimal s).map Int.ofNat

/-- The header has these two positions, with white space around the spec and around each of
them. -/
def Written (header first last : Bytes) : Prop :=
  ∃ v w v' w', Blank spaces v ∧ Blank spaces w ∧ Blank spaces v' ∧ Blank spaces w' ∧
    header = bytesPrefix ++ (v ++ first ++ w ++ dash :: (v' ++ last ++ w'))

/-- The single byte range that a header denotes: its positions are strings of digits. -/
def Denotes (header : Bytes) (spec : RangeSpec) : Prop :=
  ∃ first last, Written header first last ∧ rangeOf digits first last = some spec

/-- What RFC 7233 asks of the answer to a header: a single byte range is resolved, anything
else is ignored. -/
def Conforms (header : Bytes) (size : Int) (answer : Except RangeError ByteRange) : Prop :=
  (∀ spec, Denotes header spec → answer = spec.resolve size) ∧
    ((∀ spec, ¬ Denotes header spec) → answer = .error .ignorable)

/-- The headers on which signs and size of the numbers matter: a range once signs are
allowed, which has a sign and fits into 64 bits, or has none and does not fit. -/
def Misread (header : Bytes) : Prop :=
  ∃ first last spec, Written header first last ∧ dash ∉ first ∧
    rangeOf numeral first last = some spec ∧
      (rangeOf digits first last = some spec ↔ 2 ^ 63 ≤ spec.largest)

variable {header first last : Bytes} {size : Int} {spec : RangeSpec}

theorem RangeSpec.resolve_ne_ignorable (spec : RangeSpec) (size : Int) :
    spec.resolve size ≠ .error .ignorable := by
  cases spec with
  | closed first last | onwards first =>
    simp only [RangeSpec.resolve]
    split <;> simp
  | suffix count => simp [RangeSpec.resolve]

/-- The three forms of a range. -/
theorem rangeOf_eq_some {value : Bytes → Option Int} (h : rangeOf value first last = some spec) :
    (∃ n, first = [] ∧ value last = some n ∧ 0 < n ∧ spec = .suffix n) ∨
      (∃ n, first ≠ [] ∧ last = [] ∧ value first = some n ∧ 0 ≤ n ∧ spec = .onwards n) ∨
        ∃ n m, first ≠ [] ∧ last ≠ [] ∧ value first = some n ∧ value last = some m ∧ 0 ≤ n ∧
          n ≤ m ∧ spec = .closed n m := by
  unfold rangeOf at h
  by_cases noFirst : first = []
  · rw [if_pos noFirst] at h
    obtain ⟨n, read, test⟩ := Option.bind_eq_some_iff.mp h
    obtain ⟨positive, rfl⟩ : 0 < n ∧ RangeSpec.suffix n = spec := by simpa using test
    exact Or.inl ⟨n, noFirst, read, positive, rfl⟩
  · rw [if_neg noFirst] at h
    by_cases noLast : last = []
    · rw [if_pos noLast] at h
      obtain ⟨n, read, test⟩ := Option.bind_eq_some_iff.mp h
      obtain ⟨positive, rfl⟩ : 0 ≤ n ∧ RangeSpec.onwards n = spec := by simpa using test
      exact Or.inr (Or.inl ⟨n, noFirst, noLast, read, positive, rfl⟩)
    · rw [if_neg noLast] at h
      obtain ⟨n, read, h⟩ := Option.bind_eq_some_iff.mp h
      obtain ⟨m, read', test⟩ := Option.bind_eq_some_iff.mp h
      obtain ⟨⟨positive, order⟩, rfl⟩ : (0 ≤ n ∧ n ≤ m) ∧ RangeSpec.closed n m = spec := by
        simpa using test
      exact Or.inr (Or.inr ⟨n, m, noFirst, noLast, read, read', positive, order, rfl⟩)

/-- Another reading of the positions gives the same range if it agrees on the numbers up to
the largest. -/
theorem rangeOf_congr {value value' : Bytes → Option Int}
    (h : rangeOf value first last = some spec)
    (agree : ∀ s n, value s = some n → 0 ≤ n → n ≤ spec.largest → value' s = some n) :
    rangeOf value' first last = some spec := by
  rcases rangeOf_eq_some h with ⟨n, rfl, read, positive, rfl⟩ |
    ⟨n, some_, rfl, read, positive, rfl⟩ |
    ⟨n, m, some_, more, read, read', positive, order, rfl⟩
  · have same := agree _ _ read positive.le (Int.le_refl n)
    simp [rangeOf, same, positive]
  · have same := agree _ _ read positive (Int.le_refl n)
    simp [rangeOf, some_, same, positive]
  · have same := agree _ _ read positive order
    have same' := agree _ _ read' (positive.trans order) (Int.le_refl m)
    simp [rangeOf, some_, more, same, same', positive, order]

theorem rangeOf_numeral_of_digits (h : rangeOf digits first last = some spec) :
    rangeOf numeral first last = some spec := by
  apply rangeOf_congr h
  intro s n read _ _
  obtain ⟨m, value, rfl⟩ := Option.map_eq_some_iff.mp read
  exact numeral_of_decimal value

/-- The reader of the code sees the ranges whose numbers fit into 64 bits. -/
theorem rangeOf_parseInt : rangeOf parseInt first last = some spec ↔
    rangeOf numeral first last = some spec ∧ spec.largest < 2 ^ 63 := by
  constructor
  · intro h
    refine ⟨rangeOf_congr h fun s n read _ _ => (parseInt_eq_some.mp read).1, ?_⟩
    rcases rangeOf_eq_some h with ⟨n, -, read, -, rfl⟩ | ⟨n, -, -, read, -, rfl⟩ |
      ⟨n, m, -, -, -, read, -, -, rfl⟩
    all_goals exact (parseInt_eq_some.mp read).2.2
  · rintro ⟨h, small⟩
    apply rangeOf_congr h
    intro s n read positive bounded
    apply parseInt_eq_some.mpr
    refine ⟨read, ?_, ?_⟩
    · omega
    · omega

/-- The code answers what its reading of the positions asks for. -/
theorem resolveRange_eq (positive : 0 < size) (fits : size < 2 ^ 63) :
    resolveRange first last size =
      match rangeOf parseInt first last with
      | some spec => spec.resolve size
      | none => .error .ignorable := by
  have unwrapped : int64 (size - 1) = size - 1 := int64_eq (by omega) (by omega)
  have nonzero : size ≠ 0 := by omega
  unfold resolveRange rangeOf
  rw [if_neg nonzero]
  by_cases noFirst : first = []
  · rw [if_pos noFirst, if_pos noFirst]
    cases parseInt last with
    | none => rfl
    | some n =>
      by_cases low : n ≤ 0
      · simp [low, Int.not_lt.mpr low]
      · have clamp : (if size < n then size else n) = min n size := by
          split
          · omega
          · omega
        have inside : int64 (size - min n size) = size - min n size :=
          int64_eq (by omega) (by omega)
        simp [low, Int.not_le.mp low, clamp, inside, unwrapped, RangeSpec.resolve]
  · rw [if_neg noFirst, if_neg noFirst]
    by_cases noLast : last = []
    · rw [if_pos noLast, if_pos noLast]
      cases parseInt first with
      | none => rfl
      | some n =>
        by_cases low : n < 0
        · simp [low, Int.not_le.mpr low]
        · by_cases beyond : size ≤ n
          · simp [low, Int.not_lt.mp low, beyond, Int.not_lt.mpr beyond, RangeSpec.resolve]
          · simp [low, Int.not_lt.mp low, beyond, Int.not_le.mp beyond, unwrapped,
              RangeSpec.resolve]
    · rw [if_neg noLast, if_neg noLast]
      cases parseInt first with
      | none => rfl
      | some n =>
        by_cases low : n < 0
        · cases parseInt last <;> simp [low, Int.not_le.mpr low]
        · cases parseInt last with
          | none => simp [low]
          | some m =>
            by_cases order : m < n
            · simp [low, order, Int.not_le.mpr order]
            · by_cases beyond : size ≤ n
              · simp [low, Int.not_lt.mp low, order, Int.not_lt.mp order, beyond,
                  Int.not_lt.mpr beyond, RangeSpec.resolve]
              · have clamp : (if size ≤ m then size - 1 else m) = min m (size - 1) := by
                  split
                  · omega
                  · omega
                simp [low, Int.not_lt.mp low, order, Int.not_lt.mp order, beyond,
                  Int.not_le.mp beyond, unwrapped, clamp, RangeSpec.resolve]

end Grammar

section Texts

variable {header first last : Bytes}

/-- The bytes of a position of a range. -/
def PositionByte (b : UInt8) : Prop := (0x30 ≤ b ∧ b ≤ 0x39) ∨ b = 0x2B ∨ b = 0x2D

theorem PositionByte.solid {b : UInt8} (h : PositionByte b) : Solid b := by
  rcases h with ⟨low, high⟩ | rfl | rfl
  · exact ⟨UInt8.le_trans (by decide) low, UInt8.le_trans high (by decide)⟩
  · decide
  · decide

theorem PositionByte.ne_comma {b : UInt8} (h : PositionByte b) : b ≠ comma := by
  rintro rfl
  revert h
  unfold PositionByte
  decide

/-- The positions of a range consist of digits and signs. -/
theorem positions_of_rangeOf {spec : RangeSpec} (h : rangeOf numeral first last = some spec) :
    (∀ b ∈ first, PositionByte b) ∧ ∀ b ∈ last, PositionByte b := by
  rcases rangeOf_eq_some h with ⟨n, rfl, read, -, -⟩ | ⟨n, -, rfl, read, -, -⟩ |
    ⟨n, m, -, -, read, read', -, -, -⟩
  · exact ⟨by simp, numeral_bytes read⟩
  · exact ⟨numeral_bytes read, by simp⟩
  · exact ⟨numeral_bytes read, numeral_bytes read'⟩

theorem dash_not_mem_of_digits {spec : RangeSpec} (h : rangeOf digits first last = some spec) :
    dash ∉ first := by
  have position {n : Int} (read : digits first = some n) : dash ∉ first := by
    obtain ⟨m, value, -⟩ := Option.map_eq_some_iff.mp read
    intro mem
    have inside := decimal_digits value dash mem
    revert inside
    decide
  rcases rangeOf_eq_some h with ⟨n, rfl, -, -, -⟩ | ⟨n, -, -, read, -, -⟩ |
    ⟨n, m, -, -, read, -, -, -, -⟩
  · exact List.not_mem_nil
  · exact position read
  · exact position read

/-- The parser finds the positions that a header is written with. -/
theorem rangeTexts_of_written (written : Written header first last)
    (firstBytes : ∀ b ∈ first, PositionByte b) (lastBytes : ∀ b ∈ last, PositionByte b)
    (unsigned : dash ∉ first) : rangeTexts header = some (first, last) := by
  obtain ⟨v, w, v', w', v_blank, w_blank, v'_blank, w'_blank, rfl⟩ := written
  have firstSolid : ∀ b ∈ first, Solid b := fun b mem => (firstBytes b mem).solid
  have lastSolid : ∀ b ∈ last, Solid b := fun b mem => (lastBytes b mem).solid
  have middle : Solid dash := by decide
  obtain ⟨inner, inner', blank, blank', trimmed⟩ := trimSpace_around middle v_blank firstSolid
    w_blank v'_blank lastSolid w'_blank
  have noDash : dash ∉ first ++ inner := by
    rw [List.mem_append]
    rintro (mem | mem)
    · exact unsigned mem
    · exact blank.not_mem spaces_clear middle mem
  have noComma : comma ∉ first ++ inner ++ dash :: (inner' ++ last) := by
    simp only [List.mem_append, List.mem_cons, not_or]
    refine ⟨⟨fun mem => (firstBytes _ mem).ne_comma rfl,
      blank.not_mem spaces_clear (by decide)⟩, by decide,
      blank'.not_mem spaces_clear (by decide), fun mem => (lastBytes _ mem).ne_comma rfl⟩
  have left : trimSpace (first ++ inner) = first := by
    simpa using trimSpace_solid Blank.nil firstSolid blank
  have right : trimSpace (inner' ++ last) = last := by
    simpa using trimSpace_solid blank' lastSolid Blank.nil
  have some_ : first ++ inner ++ dash :: (inner' ++ last) ≠ [] := by simp
  unfold rangeTexts
  rw [if_neg (by simp [bytesPrefix]), if_neg (by simp), List.drop_left]
  simp only [trimmed]
  rw [if_neg (not_or.mpr ⟨some_, noComma⟩), indexByte_first noDash, Option.map_some,
    List.take_left, drop_behind, left, right]

/-- What the parser finds is how the header is written. -/
theorem written_of_rangeTexts (h : rangeTexts header = some (first, last)) :
    Written header first last ∧ dash ∉ first := by
  unfold rangeTexts at h
  split at h
  next => cases h
  next =>
    split at h
    next => cases h
    next notPrefix =>
      obtain ⟨body, rfl⟩ := not_not.mp notPrefix
      rw [List.drop_left] at h
      simp only at h
      split at h
      next => cases h
      next =>
        obtain ⟨i, index, texts⟩ := Option.map_eq_some_iff.mp h
        obtain ⟨rfl, rfl⟩ := Prod.mk.inj texts
        obtain ⟨split, unsigned⟩ := indexByte_eq_some index
        obtain ⟨v, w, v_blank, w_blank, outer⟩ := trimSpace_split body
        generalize trimSpace body = spec at *
        generalize spec.take i = left, spec.drop (i + 1) = right at split unsigned ⊢
        obtain ⟨v₁, w₁, v₁_blank, w₁_blank, before⟩ := trimSpace_split left
        obtain ⟨v₂, w₂, v₂_blank, w₂_blank, behind⟩ := trimSpace_split right
        refine ⟨⟨v ++ v₁, w₁, v₂, w₂ ++ w, v_blank.append v₁_blank, w₁_blank, v₂_blank,
          w₂_blank.append w_blank, ?_⟩, ?_⟩
        · have cut : v ++ spec ++ w = v ++ ((v₁ ++ trimSpace left ++ w₁) ++
              dash :: (v₂ ++ trimSpace right ++ w₂)) ++ w := by
            rw [← before, ← behind, ← split]
          rw [outer, cut]
          simp
        · intro mem
          apply unsigned
          rw [before]
          simp [mem]

theorem rangeTexts_of_range {spec : RangeSpec} (written : Written header first last)
    (unsigned : dash ∉ first) (range : rangeOf numeral first last = some spec) :
    rangeTexts header = some (first, last) :=
  rangeTexts_of_written written (positions_of_rangeOf range).1 (positions_of_rangeOf range).2
    unsigned

/-- A header that denotes a range denotes the one at the texts that the parser finds. -/
theorem Denotes.texts {spec : RangeSpec} (denotes : Denotes header spec)
    (texts : rangeTexts header = some (first, last)) :
    rangeOf digits first last = some spec := by
  obtain ⟨first', last', written, plain⟩ := denotes
  have texts' := rangeTexts_of_range written (dash_not_mem_of_digits plain)
    (rangeOf_numeral_of_digits plain)
  obtain ⟨rfl, rfl⟩ := Prod.mk.inj (Option.some.inj (texts.symm.trans texts'))
  exact plain

end Texts

section Conformance

variable {header : Bytes} {size : Int} (positive : 0 < size) (fits : size < 2 ^ 63)
include positive fits

theorem parseRange_eq {first last : Bytes} (texts : rangeTexts header = some (first, last)) :
    parseRange header size = match rangeOf parseInt first last with
      | some spec => spec.resolve size
      | none => .error .ignorable := by
  rw [parseRange, texts]
  exact resolveRange_eq positive fits

theorem not_conforms_of_misread (misread : Misread header) :
    ¬ Conforms header size (parseRange header size) := by
  obtain ⟨first, last, spec, written, unsigned, range, clash⟩ := misread
  have texts := rangeTexts_of_range written unsigned range
  rintro ⟨denoted, others⟩
  by_cases plain : rangeOf digits first last = some spec
  · -- without a sign the number is too large, and the header is ignored
    have large := clash.mp plain
    have unread : rangeOf parseInt first last = none := by
      cases read : rangeOf parseInt first last with
      | none => rfl
      | some spec' =>
        obtain ⟨range', small⟩ := rangeOf_parseInt.mp read
        obtain rfl := Option.some.inj (range.symm.trans range')
        omega
    have resolved := denoted spec ⟨first, last, written, plain⟩
    rw [parseRange_eq positive fits texts, unread] at resolved
    exact spec.resolve_ne_ignorable size resolved.symm
  · -- with a sign the header denotes nothing, and the range is resolved
    have small : spec.largest < 2 ^ 63 := by
      by_contra large
      exact plain (clash.mpr (Int.not_lt.mp large))
    have nothing : ∀ spec', ¬ Denotes header spec' := by
      intro spec' denotes
      have plain' := denotes.texts texts
      have same := Option.some.inj (range.symm.trans (rangeOf_numeral_of_digits plain'))
      exact plain (same ▸ plain')
    have ignored := others nothing
    rw [parseRange_eq positive fits texts, rangeOf_parseInt.mpr ⟨range, small⟩] at ignored
    exact spec.resolve_ne_ignorable size ignored

theorem conforms_of_not_misread (clean : ¬ Misread header) :
    Conforms header size (parseRange header size) := by
  refine ⟨?_, ?_⟩
  · rintro spec ⟨first, last, written, plain⟩
    have range := rangeOf_numeral_of_digits plain
    have unsigned := dash_not_mem_of_digits plain
    have small : spec.largest < 2 ^ 63 := by
      by_contra large
      exact clean ⟨first, last, spec, written, unsigned, range,
        ⟨fun _ => Int.not_lt.mp large, fun _ => plain⟩⟩
    rw [parseRange_eq positive fits (rangeTexts_of_range written unsigned range),
      rangeOf_parseInt.mpr ⟨range, small⟩]
  · intro nothing
    cases texts : rangeTexts header with
    | none => rw [parseRange, texts]
    | some pair =>
      obtain ⟨first, last⟩ := pair
      obtain ⟨written, unsigned⟩ := written_of_rangeTexts texts
      rw [parseRange_eq positive fits texts]
      cases read : rangeOf parseInt first last with
      | none => rfl
      | some spec =>
        obtain ⟨range, small⟩ := rangeOf_parseInt.mp read
        have signed : rangeOf digits first last ≠ some spec := fun plain =>
          nothing spec ⟨first, last, written, plain⟩
        exact absurd ⟨first, last, spec, written, unsigned, range,
          ⟨fun plain => absurd plain signed, fun large => by omega⟩⟩ clean

end Conformance

/-- A range that is accepted lies within the object. -/
theorem parseRange_bounds {header : Bytes} {size : Int} (nonneg : 0 ≤ size)
    (fits : size < 2 ^ 63) {br : ByteRange} (h : parseRange header size = .ok br) :
    0 ≤ br.start ∧ br.start ≤ br.last ∧ br.last < size := by
  cases texts : rangeTexts header with
  | none =>
    rw [parseRange, texts] at h
    cases h
  | some pair =>
    obtain ⟨first, last⟩ := pair
    have positive : 0 < size := by
      by_contra zero
      rw [parseRange, texts] at h
      have empty : size = 0 := by omega
      simp [resolveRange, empty] at h
    rw [parseRange_eq positive fits texts] at h
    cases read : rangeOf parseInt first last with
    | none =>
      rw [read] at h
      cases h
    | some spec =>
      rw [read] at h
      rcases rangeOf_eq_some read with ⟨n, -, -, low, rfl⟩ | ⟨n, -, -, -, low, rfl⟩ |
        ⟨n, m, -, -, -, -, low, order, rfl⟩
      · obtain rfl := Except.ok.inj h
        simp only
        omega
      · simp only [RangeSpec.resolve] at h
        split at h
        · obtain rfl := Except.ok.inj h
          simp only
          omega
        · cases h
      · simp only [RangeSpec.resolve] at h
        split at h
        · obtain rfl := Except.ok.inj h
          simp only
          omega
        · cases h

/-- `parseRange` agrees with RFC 7233 exactly on the headers that are not misread. -/
theorem parseRange_rfc7233_iff (header : Bytes) {size : Int} (positive : 0 < size)
    (fits : size < 2 ^ 63) :
    Conforms header size (parseRange header size) ↔ ¬ Misread header := by
  constructor
  · intro conforms misread
    exact not_conforms_of_misread positive fits misread conforms
  · exact conforms_of_not_misread positive fits

/-- `bytes= 0 - 9`: the first ten bytes. -/
def firstTen : Bytes :=
  bytesPrefix ++ [0x20, 0x30, 0x20, dash, 0x20, 0x39]

theorem parseRange_rfc7233_firstTen :
    Conforms firstTen 100 (parseRange firstTen 100) ∧ parseRange firstTen 100 = .ok ⟨0, 9⟩ := by
  refine ⟨(parseRange_rfc7233_iff firstTen (by decide) (by decide)).mpr ?_, by decide +kernel⟩
  rintro ⟨first, last, spec, written, unsigned, range, clash⟩
  have texts : rangeTexts firstTen = some ([0x30], [0x39]) := by decide +kernel
  obtain ⟨rfl, rfl⟩ := Prod.mk.inj
    (Option.some.inj (texts.symm.trans (rangeTexts_of_range written unsigned range)))
  have nine : rangeOf numeral [0x30] [0x39] = some (.closed 0 9) := by decide +kernel
  obtain rfl := Option.some.inj (nine.symm.trans range)
  have large : (2 : Int) ^ 63 ≤ 9 := clash.mp (by decide +kernel)
  revert large
  decide

/-- `bytes=+5-10`: a position with a sign. -/
def signedRange : Bytes := bytesPrefix ++ [0x2B, 0x35, dash, 0x31, 0x30]

/-- `bytes=0-9223372036854775808`: a last position that does not fit into 64 bits. -/
def hugeRange : Bytes :=
  bytesPrefix ++ [0x30, dash, 0x39, 0x32, 0x32, 0x33, 0x33, 0x37, 0x32, 0x30, 0x33, 0x36, 0x38,
    0x35, 0x34, 0x37, 0x37, 0x35, 0x38, 0x30, 0x38]

/-- The signed range is resolved, though it is not a byte range; the range up to a huge
position is ignored, though it is one. -/
theorem parseRange_misreads_numbers :
    (parseRange signedRange 100 = .ok ⟨5, 10⟩ ∧
      ¬ Conforms signedRange 100 (parseRange signedRange 100)) ∧
    parseRange hugeRange 100 = .error .ignorable ∧
      ¬ Conforms hugeRange 100 (parseRange hugeRange 100) := by
  refine ⟨⟨by decide +kernel, ?_⟩, by decide +kernel, ?_⟩
  · apply not_conforms_of_misread (by decide) (by decide)
    exact ⟨[0x2B, 0x35], [0x31, 0x30], .closed 5 10,
      ⟨[], [], [], [], Blank.nil, Blank.nil, Blank.nil, Blank.nil, rfl⟩, by decide,
      by decide +kernel, by decide +kernel⟩
  · apply not_conforms_of_misread (by decide) (by decide)
    exact ⟨[0x30], hugeRange.drop 8, .closed 0 (2 ^ 63),
      ⟨[], [], [], [], Blank.nil, Blank.nil, Blank.nil, Blank.nil, rfl⟩, by decide,
      by decide +kernel, by decide +kernel⟩

end FlexStore.Gateway
