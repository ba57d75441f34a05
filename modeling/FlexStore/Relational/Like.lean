import Mathlib.Computability.Language

/-!
# Patterns of text

The patterns of SQL `LIKE`. In a pattern `%` stands for any text, `_` for any one character,
and a backslash takes the character behind it literally; it cannot be the last one. A
pattern denotes a language, the product of those of its tokens.

A prefix query appends `%` to the text it is given. If the text has none of the special
characters, the pattern matches what begins with it. Otherwise it always matches something
that does not: each special character that is read as one can be told from the character
itself.
-/

namespace Relational.Like

inductive Token where
  | anyText
  | anyChar
  | char (c : Char)
  deriving DecidableEq, Repr

/-- The characters that a pattern does not take literally. -/
def special (c : Char) : Bool := c = '%' || c = '_' || c = '\\'

/-- The tokens of a pattern, the rest of which is to be read behind an escape or not. A
pattern that ends in an escape is refused. -/
def parse : Bool → List Char → Option (List Token)
  | escaped, [] => if escaped then none else some []
  | true, c :: rest => (parse false rest).map (.char c :: ·)
  | false, c :: rest =>
    if c = '%' then (parse false rest).map (.anyText :: ·)
    else if c = '_' then (parse false rest).map (.anyChar :: ·)
    else if c = '\\' then parse true rest
    else (parse false rest).map (.char c :: ·)

/-- The texts that a token stands for. -/
def Token.language : Token → Language Char
  | .anyText => ⊤
  | .anyChar => { s | ∃ c, s = [c] }
  | .char c => { s | s = [c] }

/-- The texts that match a list of tokens. -/
def language (tokens : List Token) : Language Char := (tokens.map Token.language).prod

def accepts : List Token → List Char → Bool
  | [], s => s.isEmpty
  | .anyText :: rest, s => s.tails.any (accepts rest)
  | .anyChar :: rest, s => s.tail?.any (accepts rest)
  | .char c :: rest, s => s.head? = some c && s.tail?.any (accepts rest)

/-- `text LIKE pattern`. -/
def like (text pattern : String) : Bool :=
  (parse false pattern.toList).any (accepts · text.toList)

theorem mem_language_cons {t : Token} {rest : List Token} {s : List Char} :
    s ∈ language (t :: rest) ↔ ∃ a ∈ t.language, ∃ b ∈ language rest, a ++ b = s := by
  rw [language, List.map_cons, List.prod_cons, Language.mem_mul]
  rfl

/-- Matching decides the language. -/
theorem accepts_iff {tokens : List Token} {s : List Char} :
    accepts tokens s ↔ s ∈ language tokens := by
  induction tokens generalizing s with
  | nil => simp [accepts, language, Language.mem_one]
  | cons t rest ih =>
    rw [mem_language_cons]
    cases t with
    | anyText =>
      simp only [accepts, List.any_eq_true, List.mem_tails, ih]
      constructor
      · rintro ⟨b, ⟨a, split⟩, matched⟩
        exact ⟨a, trivial, b, matched, split⟩
      · rintro ⟨a, -, b, matched, split⟩
        exact ⟨b, ⟨a, split⟩, matched⟩
    | anyChar =>
      cases s with
      | nil =>
        refine iff_of_false (by simp [accepts]) ?_
        rintro ⟨-, ⟨c, rfl⟩, b, -, split⟩
        cases split
      | cons c s =>
        simp only [accepts, List.tail?_cons, Option.any_some, ih]
        constructor
        · intro matched
          exact ⟨[c], ⟨c, rfl⟩, s, matched, rfl⟩
        · rintro ⟨-, ⟨d, rfl⟩, b, matched, split⟩
          cases split
          exact matched
    | char c =>
      cases s with
      | nil =>
        refine iff_of_false (by simp [accepts]) ?_
        rintro ⟨-, rfl, b, -, split⟩
        cases split
      | cons d s =>
        simp only [accepts, List.head?_cons, List.tail?_cons, Option.any_some,
          Bool.and_eq_true, decide_eq_true_eq, ih, Option.some.injEq]
        constructor
        · rintro ⟨rfl, matched⟩
          exact ⟨[d], rfl, s, matched, rfl⟩
        · rintro ⟨-, rfl, b, matched, split⟩
          cases split
          exact ⟨rfl, matched⟩

section Prefixes

variable {stem : List Char}

/-- The pattern of a text without special characters takes it as it is. -/
theorem parse_plain (plain : ∀ c ∈ stem, special c = false) (pattern : List Char) :
    parse false (stem ++ pattern) =
      (parse false pattern).map (stem.map Token.char ++ ·) := by
  induction stem with
  | nil => simp
  | cons c rest ih =>
    obtain ⟨here, others⟩ := List.forall_mem_cons.mp plain
    simp only [special, Bool.or_eq_false_iff, decide_eq_false_iff_not] at here
    rw [List.cons_append, parse, if_neg here.1.1, if_neg here.1.2, if_neg here.2, ih others,
      Option.map_map]
    rfl

theorem mem_language_plain {s : List Char} :
    s ∈ language (stem.map Token.char ++ [.anyText]) ↔ stem <+: s := by
  induction stem generalizing s with
  | nil =>
    refine iff_of_true (mem_language_cons.mpr ⟨s, trivial, [], ?_, List.append_nil s⟩)
      List.nil_prefix
    simp [language, Language.mem_one]
  | cons c rest ih =>
    rw [List.map_cons, List.cons_append, mem_language_cons]
    constructor
    · rintro ⟨-, rfl, b, matched, rfl⟩
      exact List.cons_prefix_cons.mpr ⟨rfl, ih.mp matched⟩
    · rintro ⟨b, rfl⟩
      exact ⟨[c], rfl, rest ++ b, ih.mpr (List.prefix_append _ _), rfl⟩

/-- A text that the pattern of `stem` matches: a wildcard stands for the letter `x`, and an
escaped character for itself. -/
def sample : Bool → List Char → List Char
  | escaped, [] => if escaped then ['%'] else []
  | true, c :: rest => c :: sample false rest
  | false, c :: rest =>
    if c = '%' ∨ c = '_' then 'x' :: sample false rest
    else if c = '\\' then sample true rest
    else c :: sample false rest

theorem mem_language_sample (escaped : Bool) (stem : List Char) :
    ∃ tokens, parse escaped (stem ++ ['%']) = some tokens ∧
      sample escaped stem ∈ language tokens := by
  have empty : [] ∈ language [] := by simp [language, Language.mem_one]
  induction stem generalizing escaped with
  | nil =>
    cases escaped with
    | true =>
      exact ⟨[.char '%'], rfl, mem_language_cons.mpr ⟨['%'], rfl, [], empty, rfl⟩⟩
    | false =>
      exact ⟨[.anyText], rfl, mem_language_cons.mpr ⟨[], trivial, [], empty, rfl⟩⟩
  | cons c rest ih =>
    obtain ⟨tokens, parsed, matched⟩ := ih false
    cases escaped with
    | true =>
      refine ⟨.char c :: tokens, by rw [List.cons_append, parse, parsed]; rfl, ?_⟩
      exact mem_language_cons.mpr ⟨[c], rfl, _, matched, rfl⟩
    | false =>
      rw [List.cons_append]
      by_cases percent : c = '%'
      · refine ⟨.anyText :: tokens, by rw [parse, if_pos percent, parsed]; rfl, ?_⟩
        rw [sample, if_pos (Or.inl percent)]
        exact mem_language_cons.mpr ⟨['x'], trivial, _, matched, rfl⟩
      by_cases one : c = '_'
      · refine ⟨.anyChar :: tokens, by rw [parse, if_neg percent, if_pos one, parsed]; rfl, ?_⟩
        rw [sample, if_pos (Or.inr one)]
        exact mem_language_cons.mpr ⟨['x'], ⟨'x', rfl⟩, _, matched, rfl⟩
      rw [parse, if_neg percent, if_neg one, sample, if_neg (not_or.mpr ⟨percent, one⟩)]
      by_cases escape : c = '\\'
      · rw [if_pos escape, if_pos escape]
        exact ih true
      · rw [if_neg escape, if_neg escape, parsed]
        exact ⟨.char c :: tokens, rfl, mem_language_cons.mpr ⟨[c], rfl, _, matched, rfl⟩⟩

/-- The sample is no longer than the pattern, in which an escape counts as well. -/
theorem length_sample_le (escaped : Bool) (stem : List Char) :
    (sample escaped stem).length ≤ stem.length + if escaped then 1 else 0 := by
  induction stem generalizing escaped with
  | nil => cases escaped <;> simp [sample]
  | cons c rest ih =>
    have plain : (sample false rest).length ≤ rest.length := ih false
    have after : (sample true rest).length ≤ rest.length + 1 := ih true
    cases escaped with
    | true =>
      simp only [sample, List.length_cons, if_true]
      omega
    | false =>
      unfold sample
      split_ifs <;> simp only [List.length_cons] <;> omega

theorem sample_ne_nil (escaped : Bool) {stem : List Char} (filled : stem ≠ []) :
    sample escaped stem ≠ [] := by
  have after : ∀ rest, sample true rest ≠ [] := by
    intro rest
    cases rest <;> simp [sample]
  cases stem with
  | nil => exact absurd rfl filled
  | cons c rest =>
    cases escaped with
    | true => exact after (c :: rest)
    | false =>
      unfold sample
      split_ifs
      · exact List.cons_ne_nil _ _
      · exact after rest
      · exact List.cons_ne_nil _ _

/-- Read as a pattern, a text with a special character is not itself. -/
theorem sample_ne (marked : ∃ c ∈ stem, special c) : sample false stem ≠ stem := by
  induction stem with
  | nil =>
    obtain ⟨c, listed, -⟩ := marked
    cases listed
  | cons c rest ih =>
    intro same
    rw [sample] at same
    split_ifs at same with wild escape
    · obtain rfl | rfl := wild <;> cases (List.cons.inj same).1
    · subst escape
      cases rest with
      | nil => cases same
      | cons d rest =>
        have shorter := length_sample_le false rest
        have length := congrArg List.length same
        simp only [sample, List.length_cons] at length
        simp only [Bool.false_eq_true, if_false] at shorter
        omega
    · refine ih ?_ (List.cons.inj same).2
      obtain ⟨d, listed, mark⟩ := marked
      obtain rfl | behind := List.mem_cons.mp listed
      · simp [special, not_or.mp wild, escape] at mark
      · exact ⟨d, behind, mark⟩

theorem not_isPrefix_sample (marked : ∃ c ∈ stem, special c) : ¬ stem <+: sample false stem := by
  intro begins
  have short : (sample false stem).length ≤ stem.length := length_sample_le false stem
  exact sample_ne marked (begins.eq_of_length (Nat.le_antisymm begins.length_le short)).symm

end Prefixes

variable {text stem : String}

/-- A prefix query on a text without special characters finds what begins with it. -/
theorem like_plain (plain : ∀ c ∈ stem.toList, special c = false) :
    like text (stem ++ "%") ↔ stem.toList <+: text.toList := by
  have parsed : parse false (stem ++ "%").toList =
      some (stem.toList.map Token.char ++ [.anyText]) := by
    rw [String.toList_append, parse_plain plain]
    rfl
  rw [like, parsed, Option.any_some, accepts_iff, mem_language_plain]

/-- On any other text it also finds something that does not. -/
theorem like_sample (marked : ∃ c ∈ stem.toList, special c) :
    like (String.ofList (sample false stem.toList)) (stem ++ "%") ∧
      ¬ stem.toList <+: (String.ofList (sample false stem.toList)).toList := by
  obtain ⟨tokens, parsed, matched⟩ := mem_language_sample false stem.toList
  constructor
  · rw [like, String.toList_append, show "%".toList = ['%'] from rfl, parsed, Option.any_some,
      accepts_iff, String.toList_ofList]
    exact matched
  · rw [String.toList_ofList]
    exact not_isPrefix_sample marked

end Relational.Like
