import FlexStore.Go.Reader
import Mathlib.Algebra.Order.Ring.Int

/-!
# Text and numbers

Strings are their bytes. `trimSpace` removes the UTF-8 encodings of white space from both
ends, and its specification is the split of the text that it finds: blanks, what is left, and
blanks again. The encodings are a prefix code in both directions, so a text between blanks is
found again if it starts and ends with a byte that belongs to no encoding.

`decimal` is the value of a string of digits of any length. `parseInt` is `strconv.ParseInt`
with base 10 and 64 bits: it reads a sign as well, and fails on a value that does not fit.
-/

namespace Go

/-- Signed 64-bit arithmetic wraps around. -/
def int64 (n : Int) : Int := n.bmod (2 ^ 64)

theorem int64_eq {n : Int} (low : -2 ^ 63 ≤ n) (high : n < 2 ^ 63) : int64 n = n := by
  apply Int.bmod_eq_of_le
  · omega
  · omega

section Trim

/-- A text made of the words of a code. -/
def Blank (code : List Bytes) (w : Bytes) : Prop :=
  ∃ words : List Bytes, (∀ e ∈ words, e ∈ code) ∧ w = words.flatten

/-- No word of the code is empty or the beginning of another. -/
def PrefixFree (code : List Bytes) : Prop :=
  (∀ e ∈ code, e ≠ []) ∧ ∀ e ∈ code, ∀ e' ∈ code, e <+: e' → e = e'

instance (code : List Bytes) : Decidable (PrefixFree code) := by
  unfold PrefixFree
  infer_instance

/-- Remove words of the code from the front, at most `fuel` many. -/
def dropWords (code : List Bytes) : Nat → Bytes → Bytes
  | 0, s => s
  | fuel + 1, s =>
    match code.find? (·.isPrefixOf s) with
    | none => s
    | some e => dropWords code fuel (s.drop e.length)

/-- Remove the words of the code from the front. Each is at least one byte long. -/
def trimFront (code : List Bytes) (s : Bytes) : Bytes := dropWords code s.length s

/-- Remove the words of the code from the back. -/
def trimBack (code : List Bytes) (s : Bytes) : Bytes :=
  (trimFront (code.map List.reverse) s.reverse).reverse

variable {code : List Bytes}

variable {t v w : Bytes} {b : UInt8}

theorem Blank.nil : Blank code [] := ⟨[], by simp, rfl⟩

theorem Blank.cons {e : Bytes} (word : e ∈ code) (blank : Blank code w) : Blank code (e ++ w) := by
  obtain ⟨words, all, rfl⟩ := blank
  exact ⟨e :: words, by simpa using ⟨word, all⟩, rfl⟩

theorem Blank.append (first : Blank code v) (second : Blank code w) : Blank code (v ++ w) := by
  obtain ⟨words, all, rfl⟩ := first
  obtain ⟨more, others, rfl⟩ := second
  refine ⟨words ++ more, ?_, by simp⟩
  intro e mem
  rcases List.mem_append.mp mem with mem | mem
  · exact all e mem
  · exact others e mem

theorem Blank.reverse (blank : Blank code w) : Blank (code.map List.reverse) w.reverse := by
  obtain ⟨words, all, rfl⟩ := blank
  refine ⟨(words.map List.reverse).reverse, ?_, List.reverse_flatten⟩
  intro e mem
  obtain ⟨e', word, rfl⟩ := List.mem_map.mp (List.mem_reverse.mp mem)
  exact List.mem_map_of_mem (all e' word)

/-- What a blank text is made of occurs in the code. -/
theorem Blank.mem (blank : Blank code w) (mem : b ∈ w) : ∃ e ∈ code, b ∈ e := by
  obtain ⟨words, all, rfl⟩ := blank
  obtain ⟨e, word, inside⟩ := List.mem_flatten.mp mem
  exact ⟨e, all e word, inside⟩

theorem dropWords_split (fuel : Nat) (s : Bytes) :
    ∃ w, Blank code w ∧ s = w ++ dropWords code fuel s := by
  induction fuel generalizing s with
  | zero => exact ⟨[], Blank.nil, rfl⟩
  | succ fuel ih =>
    cases found : code.find? (·.isPrefixOf s) with
    | none => exact ⟨[], Blank.nil, by simp [dropWords, found]⟩
    | some e =>
      obtain ⟨w, blank, split⟩ := ih (s.drop e.length)
      have front : e <+: s := by simpa using List.find?_some found
      refine ⟨e ++ w, Blank.cons (List.mem_of_find?_eq_some found) blank, ?_⟩
      obtain ⟨rest, rfl⟩ := front
      rw [List.drop_left] at split
      simp only [dropWords, found, List.drop_left, List.append_assoc]
      rw [← split]

theorem trimFront_split (s : Bytes) : ∃ w, Blank code w ∧ s = w ++ trimFront code s :=
  dropWords_split s.length s

/-- The first word of a text is the one that is found. -/
theorem find_word (free : PrefixFree code) {e : Bytes} (word : e ∈ code) :
    code.find? (·.isPrefixOf (e ++ t)) = some e := by
  cases found : code.find? (·.isPrefixOf (e ++ t)) with
  | none =>
    have none_ := List.find?_eq_none.mp found e word
    simp at none_
  | some e' =>
    have front : e' <+: e ++ t := by simpa using List.find?_some found
    have word' := List.mem_of_find?_eq_some found
    rcases List.prefix_or_prefix_of_prefix front (List.prefix_append e t) with shorter | shorter
    · rw [free.2 e' word' e word shorter]
    · rw [free.2 e word e' word' shorter]

/-- A text that starts with no word of the code. -/
def Bare (code : List Bytes) (t : Bytes) : Prop := ∀ e ∈ code, ¬ e <+: t

theorem dropWords_bare (bare : Bare code t) (fuel : Nat) : dropWords code fuel t = t := by
  cases fuel with
  | zero => rfl
  | succ fuel =>
    have none_ : code.find? (·.isPrefixOf t) = none := by
      apply List.find?_eq_none.mpr
      intro e word
      simpa using bare e word
    simp [dropWords, none_]

theorem dropWords_blank (free : PrefixFree code) {words : List Bytes} (all : ∀ e ∈ words, e ∈ code)
    (bare : Bare code t) {fuel : Nat} (enough : words.flatten.length ≤ fuel) :
    dropWords code fuel (words.flatten ++ t) = t := by
  induction words generalizing fuel with
  | nil => simpa using dropWords_bare bare fuel
  | cons e words ih =>
    obtain ⟨word, others⟩ := List.forall_mem_cons.mp all
    have positive := List.length_pos_iff.mpr (free.1 e word)
    rw [List.flatten_cons, List.length_append] at enough
    cases fuel with
    | zero => omega
    | succ fuel =>
      rw [List.flatten_cons, List.append_assoc]
      simp only [dropWords, find_word free word, List.drop_left]
      apply ih others
      omega

theorem trimFront_blank (free : PrefixFree code) (blank : Blank code w) (bare : Bare code t) :
    trimFront code (w ++ t) = t := by
  obtain ⟨words, all, rfl⟩ := blank
  apply dropWords_blank free all bare
  simp

theorem trimBack_split (s : Bytes) : ∃ w, Blank code w ∧ s = trimBack code s ++ w := by
  obtain ⟨w, blank, split⟩ : ∃ w, Blank (code.map List.reverse) w ∧
      s.reverse = w ++ trimFront (code.map List.reverse) s.reverse := trimFront_split _
  refine ⟨w.reverse, by simpa [Function.comp_def] using blank.reverse, ?_⟩
  rw [trimBack, ← List.reverse_append, ← split, List.reverse_reverse]

theorem trimBack_blank (free : PrefixFree (code.map List.reverse)) (blank : Blank code w)
    (bare : Bare (code.map List.reverse) t.reverse) : trimBack code (t ++ w) = t := by
  rw [trimBack, List.reverse_append, trimFront_blank free blank.reverse bare,
    List.reverse_reverse]

/-- A printable ASCII byte other than the blank. -/
def Solid (b : UInt8) : Prop := 0x21 ≤ b ∧ b ≤ 0x7E

instance (b : UInt8) : Decidable (Solid b) := inferInstanceAs (Decidable (_ ∧ _))

/-- No word of the code has a solid byte. -/
def Clear (code : List Bytes) : Prop := ∀ e ∈ code, ∀ b ∈ e, ¬ Solid b

instance (code : List Bytes) : Decidable (Clear code) :=
  inferInstanceAs (Decidable (∀ e ∈ code, ∀ b ∈ e, ¬ Solid b))

theorem Blank.not_mem (clear : Clear code) (blank : Blank code w) (solid : Solid b) : b ∉ w := by
  intro mem
  obtain ⟨e, word, inside⟩ := blank.mem mem
  exact clear e word b inside solid

theorem bare_nil (free : PrefixFree code) : Bare code [] := by
  intro e word front
  exact free.1 e word (List.prefix_nil.mp front)

theorem bare_cons (free : PrefixFree code) (clear : Clear code) (solid : Solid b) (t : Bytes) :
    Bare code (b :: t) := by
  intro e word front
  obtain ⟨b', rest, rfl⟩ := List.exists_cons_of_ne_nil (free.1 e word)
  obtain ⟨same, -⟩ := List.cons_prefix_cons.mp front
  exact clear _ word b' List.mem_cons_self (same ▸ solid)

theorem bare_solid (free : PrefixFree code) (clear : Clear code) (solid : ∀ b ∈ t, Solid b) :
    Bare code t := by
  cases t with
  | nil => exact bare_nil free
  | cons b t => exact bare_cons free clear (solid b List.mem_cons_self) t

/-- Blanks in front of a solid text are removed, and if the text is empty those behind it
are too, up to the next solid byte. -/
theorem trimFront_text (free : PrefixFree code) (clear : Clear code) (before : Blank code v)
    (solid : ∀ b ∈ t, Solid b) (after : Blank code w) {d : UInt8} (next : Solid d) (y : Bytes) :
    ∃ w', Blank code w' ∧ trimFront code (v ++ t ++ w ++ d :: y) = t ++ w' ++ d :: y := by
  cases t with
  | nil =>
    refine ⟨[], Blank.nil, ?_⟩
    simpa using trimFront_blank free (before.append after) (bare_cons free clear next y)
  | cons b t =>
    refine ⟨w, after, ?_⟩
    have bare := bare_cons free clear (solid b List.mem_cons_self) (t ++ w ++ d :: y)
    simpa using trimFront_blank free before bare

end Trim

/-- The UTF-8 encodings of the white space of `unicode.IsSpace`: U+0009 to U+000D, U+0020,
U+0085, U+00A0, U+1680, U+2000 to U+200A, U+2028, U+2029, U+202F, U+205F and U+3000. -/
def spaces : List Bytes :=
  [[0x09], [0x0A], [0x0B], [0x0C], [0x0D], [0x20], [0xC2, 0x85], [0xC2, 0xA0],
    [0xE1, 0x9A, 0x80], [0xE2, 0x80, 0x80], [0xE2, 0x80, 0x81], [0xE2, 0x80, 0x82],
    [0xE2, 0x80, 0x83], [0xE2, 0x80, 0x84], [0xE2, 0x80, 0x85], [0xE2, 0x80, 0x86],
    [0xE2, 0x80, 0x87], [0xE2, 0x80, 0x88], [0xE2, 0x80, 0x89], [0xE2, 0x80, 0x8A],
    [0xE2, 0x80, 0xA8], [0xE2, 0x80, 0xA9], [0xE2, 0x80, 0xAF], [0xE2, 0x81, 0x9F],
    [0xE3, 0x80, 0x80]]

/-- `strings.TrimSpace`. -/
def trimSpace (s : Bytes) : Bytes := trimBack spaces (trimFront spaces s)

theorem spaces_prefixFree : PrefixFree spaces := by decide +kernel

theorem spaces_suffixFree : PrefixFree (spaces.map List.reverse) := by decide +kernel

theorem spaces_clear : Clear spaces := by decide +kernel

theorem reversed_clear : Clear (spaces.map List.reverse) := by decide +kernel

/-- What is trimmed is blank. -/
theorem trimSpace_split (s : Bytes) :
    ∃ v w, Blank spaces v ∧ Blank spaces w ∧ s = v ++ trimSpace s ++ w := by
  obtain ⟨v, before, front⟩ : ∃ v, Blank spaces v ∧ s = v ++ trimFront spaces s :=
    trimFront_split s
  obtain ⟨w, after, back⟩ : ∃ w, Blank spaces w ∧ trimFront spaces s = trimSpace s ++ w :=
    trimBack_split _
  refine ⟨v, w, before, after, ?_⟩
  rw [List.append_assoc, ← back]
  exact front

/-- A solid text is found again behind which blanks it may stand. -/
theorem trimSpace_solid {v t w : Bytes} (before : Blank spaces v) (solid : ∀ b ∈ t, Solid b)
    (after : Blank spaces w) : trimSpace (v ++ t ++ w) = t := by
  have bareBack : Bare (spaces.map List.reverse) t.reverse := by
    apply bare_solid spaces_suffixFree reversed_clear
    intro b mem
    exact solid b (List.mem_reverse.mp mem)
  cases t with
  | nil =>
    have front : trimFront spaces (v ++ [] ++ w) = [] := by
      simpa using trimFront_blank spaces_prefixFree (before.append after)
        (bare_nil spaces_prefixFree)
    rw [trimSpace, front]
    rfl
  | cons b t =>
    have bare := bare_cons spaces_prefixFree spaces_clear (solid b List.mem_cons_self) (t ++ w)
    have front : trimFront spaces (v ++ (b :: t) ++ w) = (b :: t) ++ w := by
      simpa using trimFront_blank spaces_prefixFree before bare
    rw [trimSpace, front, trimBack_blank spaces_suffixFree after bareBack]

/-- Trimming around a solid byte: the texts on both sides keep their inner blanks. -/
theorem trimSpace_around {v s w v' t w' : Bytes} {d : UInt8} (middle : Solid d)
    (v_blank : Blank spaces v) (s_solid : ∀ b ∈ s, Solid b) (w_blank : Blank spaces w)
    (v'_blank : Blank spaces v') (t_solid : ∀ b ∈ t, Solid b) (w'_blank : Blank spaces w') :
    ∃ inner inner', Blank spaces inner ∧ Blank spaces inner' ∧
      trimSpace (v ++ s ++ w ++ d :: (v' ++ t ++ w')) = s ++ inner ++ d :: (inner' ++ t) := by
  obtain ⟨inner, blank, front⟩ := trimFront_text spaces_prefixFree spaces_clear v_blank s_solid
    w_blank middle (v' ++ t ++ w')
  have reversed : ∀ b ∈ t.reverse, Solid b := by
    intro b mem
    exact t_solid b (List.mem_reverse.mp mem)
  obtain ⟨inner', blank', back⟩ := trimFront_text spaces_suffixFree reversed_clear
    w'_blank.reverse reversed v'_blank.reverse middle (s ++ inner).reverse
  refine ⟨inner, inner'.reverse, blank, by simpa [spaces] using blank'.reverse, ?_⟩
  rw [trimSpace, front, trimBack]
  simp only [List.append_assoc, List.reverse_append, List.reverse_cons, List.cons_append,
    List.nil_append] at back ⊢
  rw [back]
  simp

/-- `strings.IndexByte`. -/
def indexByte (s : Bytes) (b : UInt8) : Option Nat := s.idxOf? b

theorem indexByte_eq_none {s : Bytes} {b : UInt8} : indexByte s b = none ↔ b ∉ s := by
  simp [indexByte]

theorem indexByte_first {s t : Bytes} {b : UInt8} (first : b ∉ s) :
    indexByte (s ++ b :: t) b = some s.length := by
  induction s with
  | nil => simp [indexByte, List.idxOf?_cons]
  | cons x s ih =>
    have other : x ≠ b := fun same => first (same ▸ List.mem_cons_self)
    have rest : indexByte (s ++ b :: t) b = some s.length :=
      ih fun mem => first (List.mem_cons_of_mem x mem)
    rw [indexByte] at rest ⊢
    simp [List.idxOf?_cons, rest, other]

theorem drop_behind (s : Bytes) (b : UInt8) (t : Bytes) :
    (s ++ b :: t).drop (s.length + 1) = t := by
  rw [← List.drop_drop, List.drop_left, List.drop_succ_cons, List.drop_zero]

/-- The index of a byte splits the text at its first occurrence. -/
theorem indexByte_eq_some {s : Bytes} {b : UInt8} {i : Nat} (h : indexByte s b = some i) :
    s = s.take i ++ b :: s.drop (i + 1) ∧ b ∉ s.take i := by
  have mem : b ∈ s := by
    by_contra absent
    rw [indexByte_eq_none.mpr absent] at h
    cases h
  obtain ⟨before, after, rfl, first⟩ := List.eq_append_cons_of_mem mem
  rw [indexByte_first first] at h
  obtain rfl := Option.some.inj h
  rw [List.take_left, drop_behind]
  exact ⟨rfl, first⟩

section Numerals

def digit (b : UInt8) : Option Nat :=
  if 0x30 ≤ b ∧ b ≤ 0x39 then some (b.toNat - 0x30) else none

/-- The value of a non-empty string of decimal digits, of any length. -/
def decimal (s : Bytes) : Option Nat :=
  if s = [] then none else s.foldlM (fun n b => (digit b).map (10 * n + ·)) 0

/-- The value of a decimal numeral that may have a sign. -/
def numeral : Bytes → Option Int
  | [] => none
  | b :: s =>
    if b = 0x2B then (decimal s).map Int.ofNat
    else if b = 0x2D then (decimal s).map fun n : Nat => -(n : Int)
    else (decimal (b :: s)).map Int.ofNat

/-- `strconv.ParseInt` with base 10 and 64 bits; `none` is any error. -/
def parseInt (s : Bytes) : Option Int :=
  (numeral s).filter fun n => -2 ^ 63 ≤ n ∧ n < 2 ^ 63

variable {s : Bytes}

theorem digit_eq_some {b : UInt8} {d : Nat} (h : digit b = some d) : 0x30 ≤ b ∧ b ≤ 0x39 := by
  unfold digit at h
  split at h
  next inside => exact inside
  next => cases h

theorem decimal_ne_nil {n : Nat} (h : decimal s = some n) : s ≠ [] := by
  rintro rfl
  cases h

theorem digits_of_fold {acc n : Nat}
    (h : s.foldlM (fun n b => (digit b).map (10 * n + ·)) acc = some n) :
    ∀ b ∈ s, 0x30 ≤ b ∧ b ≤ 0x39 := by
  induction s generalizing acc with
  | nil => simp
  | cons b s ih =>
    rw [List.foldlM_cons] at h
    obtain ⟨acc', first, rest⟩ := Option.bind_eq_some_iff.mp h
    obtain ⟨d, value, -⟩ := Option.map_eq_some_iff.mp first
    exact List.forall_mem_cons.mpr ⟨digit_eq_some value, ih rest⟩

theorem decimal_digits {n : Nat} (h : decimal s = some n) : ∀ b ∈ s, 0x30 ≤ b ∧ b ≤ 0x39 := by
  rw [decimal, if_neg (decimal_ne_nil h)] at h
  exact digits_of_fold h

/-- A numeral without a sign is a string of digits. -/
theorem numeral_of_decimal {n : Nat} (h : decimal s = some n) : numeral s = some n := by
  cases s with
  | nil => cases h
  | cons b s =>
    have inside := decimal_digits h b List.mem_cons_self
    have plus : b ≠ 0x2B := by
      rintro rfl
      revert inside
      decide
    have minus : b ≠ 0x2D := by
      rintro rfl
      revert inside
      decide
    simp [numeral, plus, minus, h]

theorem numeral_cases {n : Int} (h : numeral s = some n) :
    (∃ m : Nat, decimal s = some m ∧ n = m) ∨
      ∃ sign t, ∃ m : Nat, s = sign :: t ∧ decimal t = some m ∧
        (sign = 0x2B ∧ n = m ∨ sign = 0x2D ∧ n = -m) := by
  cases s with
  | nil => cases h
  | cons b s =>
    simp only [numeral] at h
    split at h
    next plus =>
      obtain ⟨m, value, rfl⟩ := Option.map_eq_some_iff.mp h
      exact Or.inr ⟨b, s, m, rfl, value, Or.inl ⟨plus, rfl⟩⟩
    next =>
      split at h
      next minus =>
        obtain ⟨m, value, rfl⟩ := Option.map_eq_some_iff.mp h
        exact Or.inr ⟨b, s, m, rfl, value, Or.inr ⟨minus, rfl⟩⟩
      next =>
        obtain ⟨m, value, rfl⟩ := Option.map_eq_some_iff.mp h
        exact Or.inl ⟨m, value, rfl⟩

/-- A numeral consists of digits and signs. -/
theorem numeral_bytes {n : Int} (h : numeral s = some n) :
    ∀ b ∈ s, (0x30 ≤ b ∧ b ≤ 0x39) ∨ b = 0x2B ∨ b = 0x2D := by
  intro b mem
  rcases numeral_cases h with ⟨m, value, -⟩ | ⟨sign, t, m, rfl, value, signed⟩
  · exact Or.inl (decimal_digits value b mem)
  · rcases List.mem_cons.mp mem with rfl | mem
    · exact Or.inr (signed.imp And.left And.left)
    · exact Or.inl (decimal_digits value b mem)

theorem parseInt_eq_some {n : Int} :
    parseInt s = some n ↔ numeral s = some n ∧ -2 ^ 63 ≤ n ∧ n < 2 ^ 63 := by
  simp [parseInt, Option.filter_eq_some_iff]

end Numerals

def utf8 (s : String) : Bytes := s.toList.flatMap String.utf8EncodeChar

end Go
