import Mathlib.Data.List.Basic

/-!
# Values and their JSON texts

A `Codec` writes values as compact JSON, the way `json.Marshal` does it, and reads them back;
that what it has written is read back is a field, so a codec that loses something cannot be
built. Strings and integers are read and written whole, and slices and structs are put
together from the codecs of their elements and fields. The fields of a struct are read in
the order in which they are written.

A text is a list of characters: the strings are valid UTF-8.
-/

namespace Go.Json

abbrev Text := List Char

/-- What follows a value does not go on with digits. -/
def Ends (rest : Text) : Prop := ∀ c ∈ rest.head?, c.isDigit = false

theorem ends_cons {c : Char} (other : c.isDigit = false) (rest : Text) : Ends (c :: rest) := by
  intro c' first
  cases first
  exact other

/-- Writes values and reads them back. A value is not written like the end of a slice. -/
structure Codec (α : Type) where
  encode : α → Text
  decode : Text → Option (α × Text)
  starts : ∀ a, ∃ c text, encode a = c :: text ∧ c ≠ ']'
  decode_encode : ∀ a rest, Ends rest → decode (encode a ++ rest) = some (a, rest)

variable {α β : Type}

/-- Goes on behind a character that has to be there. -/
def expect (c : Char) : Text → Option Text
  | [] => none
  | c' :: rest => if c' = c then some rest else none

theorem expect_cons (c : Char) (rest : Text) : expect c (c :: rest) = some rest := if_pos rfl

/-- `json.Marshal`. -/
def marshal (codec : Codec α) (a : α) : Text := codec.encode a

/-- `json.Unmarshal`: the whole text is one value. -/
def unmarshal (codec : Codec α) (text : Text) : Option α :=
  match codec.decode text with
  | some (a, []) => some a
  | _ => none

theorem unmarshal_marshal (codec : Codec α) (a : α) :
    unmarshal codec (marshal codec a) = some a := by
  have ends : Ends [] := by
    intro c first
    cases first
  have read := codec.decode_encode a [] ends
  rw [List.append_nil] at read
  rw [unmarshal, marshal, read]

section Strings

def shortLetter : Char → Option Char
  | '"' => some '"'
  | '\\' => some '\\'
  | '\x08' => some 'b'
  | '\x0c' => some 'f'
  | '\n' => some 'n'
  | '\r' => some 'r'
  | '\t' => some 't'
  | _ => none

def shortEscape : Char → Option Char
  | '"' => some '"'
  | '\\' => some '\\'
  | '/' => some '/'
  | 'b' => some '\x08'
  | 'f' => some '\x0c'
  | 'n' => some '\n'
  | 'r' => some '\r'
  | 't' => some '\t'
  | _ => none

/-- Control characters, the characters that mean something in HTML, and the two line
separators that JavaScript does not allow in a string. -/
def needsCode (c : Char) : Bool :=
  c.toNat < 0x20 || c = '<' || c = '>' || c = '&' || c.toNat = 0x2028 || c.toNat = 0x2029

def hexCode (n : Nat) : Text :=
  [Nat.digitChar (n / 4096 % 16), Nat.digitChar (n / 256 % 16), Nat.digitChar (n / 16 % 16),
    Nat.digitChar (n % 16)]

def hexValue (c : Char) : Option Nat :=
  if '0' ≤ c ∧ c ≤ '9' then some (c.toNat - 48)
  else if 'a' ≤ c ∧ c ≤ 'f' then some (c.toNat - 87)
  else if 'A' ≤ c ∧ c ≤ 'F' then some (c.toNat - 55)
  else none

/-- The character of four digits. Half of a surrogate pair is none: no such escape is
written. -/
def readCode (a b c d : Char) : Option Char := do
  let a ← hexValue a
  let b ← hexValue b
  let c ← hexValue c
  let d ← hexValue d
  let n := 4096 * a + 256 * b + 16 * c + d
  if 0xD800 ≤ n ∧ n ≤ 0xDFFF then none else some (Char.ofNat n)

def escape (c : Char) : Text :=
  match shortLetter c with
  | some letter => ['\\', letter]
  | none => if needsCode c then '\\' :: 'u' :: hexCode c.toNat else [c]

def readChar : Text → Option (Char × Text)
  | '\\' :: 'u' :: a :: b :: c :: d :: rest => (readCode a b c d).map (·, rest)
  | '\\' :: letter :: rest => (shortEscape letter).map (·, rest)
  | c :: rest => if c.toNat < 0x20 ∨ c = '\\' then none else some (c, rest)
  | [] => none

/-- Reads up to the quote that ends a string, at most so many characters. -/
def readString : Nat → Text → Option (Text × Text)
  | 0, _ => none
  | fuel + 1, text =>
    match expect '"' text with
    | some rest => some ([], rest)
    | none => do
      let (c, text) ← readChar text
      let (s, text) ← readString fuel text
      some (c :: s, text)

theorem hexValue_digitChar : ∀ n < 16, hexValue (Nat.digitChar n) = some n := by decide

theorem readCode_hexCode {c : Char} (small : c.toNat < 0xD800) :
    readCode (Nat.digitChar (c.toNat / 4096 % 16)) (Nat.digitChar (c.toNat / 256 % 16))
      (Nat.digitChar (c.toNat / 16 % 16)) (Nat.digitChar (c.toNat % 16)) = some c := by
  have digits (n : Nat) : hexValue (Nat.digitChar (n % 16)) = some (n % 16) :=
    hexValue_digitChar _ (Nat.mod_lt _ (by decide))
  have value : 4096 * (c.toNat / 4096 % 16) + 256 * (c.toNat / 256 % 16) +
      16 * (c.toNat / 16 % 16) + c.toNat % 16 = c.toNat := by omega
  rw [readCode, digits, digits, digits, digits]
  show (if _ ∧ _ then _ else _) = _
  rw [value, if_neg (by omega), Char.ofNat_toNat]

theorem needsCode_small {c : Char} (coded : needsCode c = true) : c.toNat < 0xD800 := by
  simp only [needsCode, Bool.or_eq_true, decide_eq_true_eq] at coded
  obtain (((((low | rfl) | rfl) | rfl) | sep) | sep) := coded
  · omega
  · decide
  · decide
  · decide
  · omega
  · omega

/-- A character with a short escape is read back from its letter. -/
theorem shortLetter_eq_some {c letter : Char} (short : shortLetter c = some letter) :
    letter ≠ 'u' ∧ shortEscape letter = some c := by
  unfold shortLetter at short
  split at short <;> cases short
  all_goals decide

/-- A character that is written as it is stands for itself. -/
theorem plain_of_escape {c : Char} (long : shortLetter c = none) (plain : needsCode c = false) :
    c ≠ '"' ∧ c ≠ '\\' ∧ ¬ c.toNat < 0x20 := by
  refine ⟨?_, ?_, ?_⟩
  · rintro rfl
    cases long
  · rintro rfl
    cases long
  · intro low
    simp [needsCode, low] at plain

/-- Every character is read back as it was written, and none is written like the end of the
string. -/
theorem readChar_escape (c : Char) (rest : Text) :
    expect '"' (escape c ++ rest) = none ∧ readChar (escape c ++ rest) = some (c, rest) := by
  rw [escape]
  cases short : shortLetter c with
  | some letter =>
    obtain ⟨other, back⟩ := shortLetter_eq_some short
    refine ⟨rfl, ?_⟩
    show readChar ('\\' :: letter :: rest) = _
    rw [readChar.eq_def]
    split
    next same =>
      cases same
      exact absurd rfl other
    next same =>
      cases same
      rw [back, Option.map_some]
    next skip same =>
      cases same
      exact (skip _ _ rfl rfl).elim
    next same => cases same
  | none =>
    cases coded : needsCode c with
    | true =>
      refine ⟨rfl, ?_⟩
      show (readCode _ _ _ _).map (·, rest) = _
      rw [readCode_hexCode (needsCode_small coded), Option.map_some]
    | false =>
      obtain ⟨quote, slash, high⟩ := plain_of_escape short coded
      refine ⟨if_neg quote, ?_⟩
      show readChar (c :: rest) = _
      rw [readChar.eq_def]
      split
      next same =>
        cases same
        exact absurd rfl slash
      next same =>
        cases same
        exact absurd rfl slash
      next same =>
        cases same
        rw [if_neg (by simp [high, slash])]
      next same => cases same

theorem readString_escape (s rest : Text) {fuel : Nat} (enough : s.length < fuel) :
    readString fuel (s.flatMap escape ++ '"' :: rest) = some (s, rest) := by
  induction s generalizing fuel with
  | nil =>
    cases fuel with
    | zero => cases enough
    | succ fuel =>
      rw [readString, List.flatMap_nil, List.nil_append, expect_cons]
  | cons c s ih =>
    cases fuel with
    | zero => cases enough
    | succ fuel =>
      rw [List.length_cons] at enough
      have inside := ih (show s.length < fuel by omega)
      rw [readString, List.flatMap_cons, List.append_assoc, (readChar_escape c _).1]
      simp only [(readChar_escape c _).2, inside, Option.bind_eq_bind, Option.bind_some]

theorem length_le_escape (s : Text) : s.length ≤ (s.flatMap escape).length := by
  induction s with
  | nil => exact Nat.zero_le _
  | cons c s ih =>
    have some_ : 1 ≤ (escape c).length := by
      rw [escape]
      split
      · exact Nat.succ_le_succ (Nat.zero_le _)
      · split_ifs <;> exact Nat.succ_le_succ (Nat.zero_le _)
    rw [List.flatMap_cons, List.length_append, List.length_cons]
    omega

def string : Codec String where
  encode s := '"' :: (s.toList.flatMap escape ++ ['"'])
  decode text := do
    let text ← expect '"' text
    let (s, text) ← readString text.length text
    some (String.ofList s, text)
  starts s := ⟨_, _, rfl, by decide⟩
  decode_encode s rest _ := by
    have long := length_le_escape s.toList
    have enough : s.toList.length < (s.toList.flatMap escape ++ '"' :: rest).length := by
      rw [List.length_append, List.length_cons]
      omega
    have read := readString_escape s.toList rest enough
    rw [List.cons_append, List.append_assoc, List.singleton_append, expect_cons]
    simp only [read, Option.bind_eq_bind, Option.bind_some, String.ofList_toList]

end Strings

section Numbers

/-- Reads as many digits as there are. -/
def readNat (text : Text) : Option (Nat × Text) :=
  let digits := text.takeWhile Char.isDigit
  if digits = [] then none else some (Nat.ofDigitChars 10 digits 0, text.dropWhile Char.isDigit)

theorem readNat_toDigits (n : Nat) {rest : Text} (ends : Ends rest) :
    readNat (Nat.toDigits 10 n ++ rest) = some (n, rest) := by
  have digits : ∀ c ∈ Nat.toDigits 10 n, c.isDigit = true := by
    intro c listed
    exact Nat.isDigit_of_mem_toDigits (by decide) (by decide) listed
  have none_ : rest.takeWhile Char.isDigit = [] ∧ rest.dropWhile Char.isDigit = rest := by
    cases rest with
    | nil => exact ⟨rfl, rfl⟩
    | cons c rest => simp [ends c rfl]
  rw [readNat, List.takeWhile_append_of_pos digits, List.dropWhile_append_of_pos digits,
    none_.1, none_.2, List.append_nil, if_neg Nat.toDigits_ne_nil,
    Nat.ofDigitChars_ten_toDigits]

def integer : Codec Int where
  encode n := if n < 0 then '-' :: Nat.toDigits 10 n.natAbs else Nat.toDigits 10 n.natAbs
  decode text :=
    match expect '-' text with
    | some text => (readNat text).map fun read => (-(read.1 : Int), read.2)
    | none => (readNat text).map fun read => ((read.1 : Int), read.2)
  starts n := by
    split_ifs
    · exact ⟨_, _, rfl, by decide⟩
    · obtain ⟨c, text, split⟩ := List.exists_cons_of_ne_nil
        (Nat.toDigits_ne_nil (b := 10) (n := n.natAbs))
      refine ⟨c, text, split, ?_⟩
      rintro rfl
      have digit := Nat.isDigit_of_mem_toDigits (by decide) (by decide)
        (split ▸ List.mem_cons_self)
      cases digit
  decode_encode n rest ends := by
    split_ifs with negative
    · rw [List.cons_append, expect_cons]
      simp only [readNat_toDigits _ ends, Option.map_some]
      rw [show -(n.natAbs : Int) = n by omega]
    · have first : expect '-' (Nat.toDigits 10 n.natAbs ++ rest) = none := by
        obtain ⟨c, text, split⟩ := List.exists_cons_of_ne_nil
          (Nat.toDigits_ne_nil (b := 10) (n := n.natAbs))
        have digit : c.isDigit = true := Nat.isDigit_of_mem_toDigits (by decide) (by decide)
          (split ▸ List.mem_cons_self)
        rw [split, List.cons_append, expect, if_neg]
        rintro rfl
        cases digit
      rw [first]
      simp only [readNat_toDigits _ ends, Option.map_some]
      rw [show (n.natAbs : Int) = n by omega]

end Numbers

section Slices

/-- The elements behind the first one, and the end of the slice. -/
def writeItems (codec : Codec α) : List α → Text
  | [] => [']']
  | a :: items => ',' :: (codec.encode a ++ writeItems codec items)

def readItems (codec : Codec α) : Nat → Text → Option (List α × Text)
  | 0, _ => none
  | fuel + 1, text =>
    match expect ']' text with
    | some text => some ([], text)
    | none => do
      let text ← expect ',' text
      let (a, text) ← codec.decode text
      let (items, text) ← readItems codec fuel text
      some (a :: items, text)

theorem ends_writeItems (codec : Codec α) (items : List α) (rest : Text) :
    Ends (writeItems codec items ++ rest) := by
  cases items with
  | nil | cons a items => exact ends_cons (by decide) _

theorem readItems_writeItems (codec : Codec α) (items : List α) (rest : Text) {fuel : Nat}
    (enough : items.length < fuel) :
    readItems codec fuel (writeItems codec items ++ rest) = some (items, rest) := by
  induction items generalizing fuel with
  | nil =>
    cases fuel with
    | zero => cases enough
    | succ fuel => rfl
  | cons a items ih =>
    cases fuel with
    | zero => cases enough
    | succ fuel =>
      rw [List.length_cons] at enough
      have inside := ih (show items.length < fuel by omega)
      have read := codec.decode_encode a _ (ends_writeItems codec items rest)
      rw [readItems, writeItems, List.cons_append, List.append_assoc]
      show (Option.bind (expect ',' _) _) = _
      rw [expect_cons]
      simp only [read, inside, Option.bind_eq_bind, Option.bind_some]

theorem length_lt_writeItems (codec : Codec α) (items : List α) :
    items.length < (writeItems codec items).length := by
  induction items with
  | nil => exact Nat.zero_lt_one
  | cons a items ih =>
    rw [writeItems, List.length_cons, List.length_cons, List.length_append]
    omega

def slice (codec : Codec α) : Codec (List α) where
  encode
    | [] => ['[', ']']
    | a :: items => '[' :: (codec.encode a ++ writeItems codec items)
  decode text := do
    let text ← expect '[' text
    match expect ']' text with
    | some text => some ([], text)
    | none => do
      let (a, text) ← codec.decode text
      let (items, text) ← readItems codec text.length text
      some (a :: items, text)
  starts items := by
    cases items with
    | nil | cons a items => exact ⟨_, _, rfl, by decide⟩
  decode_encode items rest ends := by
    cases items with
    | nil => rfl
    | cons a items =>
      obtain ⟨c, text, split, other⟩ := codec.starts a
      have open_ : expect ']' (codec.encode a ++ (writeItems codec items ++ rest)) = none := by
        rw [split, List.cons_append, expect, if_neg other]
      have first := codec.decode_encode a _ (ends_writeItems codec items rest)
      have long := length_lt_writeItems codec items
      have enough : items.length < (writeItems codec items ++ rest).length := by
        rw [List.length_append]
        omega
      have others := readItems_writeItems codec items rest enough
      dsimp only
      rw [List.cons_append, List.append_assoc, expect_cons, Option.bind_eq_bind,
        Option.bind_some, open_]
      simp only [first, others, Option.bind_eq_bind, Option.bind_some]

end Slices

section Structs

def field (tag : String) (codec : Codec α) : Codec α where
  encode a := string.encode tag ++ ':' :: codec.encode a
  decode text := do
    let (name, text) ← string.decode text
    let text ← expect ':' text
    if name = tag then codec.decode text else none
  starts a := by
    obtain ⟨c, text, split, other⟩ := string.starts tag
    exact ⟨c, _, by rw [split, List.cons_append], other⟩
  decode_encode a rest ends := by
    have name := string.decode_encode tag (':' :: (codec.encode a ++ rest))
      (ends_cons (by decide) _)
    rw [List.append_assoc, List.cons_append, name]
    simp only [Option.bind_eq_bind, Option.bind_some, expect_cons, if_true]
    exact codec.decode_encode a rest ends

def both (first : Codec α) (second : Codec β) : Codec (α × β) where
  encode pair := first.encode pair.1 ++ ',' :: second.encode pair.2
  decode text := do
    let (a, text) ← first.decode text
    let text ← expect ',' text
    let (b, text) ← second.decode text
    some ((a, b), text)
  starts pair := by
    obtain ⟨c, text, split, other⟩ := first.starts pair.1
    exact ⟨c, _, by rw [split, List.cons_append], other⟩
  decode_encode pair rest ends := by
    have left := first.decode_encode pair.1 (',' :: (second.encode pair.2 ++ rest))
      (ends_cons (by decide) _)
    rw [List.append_assoc, List.cons_append, left]
    simp only [Option.bind_eq_bind, Option.bind_some, expect_cons,
      second.decode_encode pair.2 rest ends]

/-- The fields of a struct in braces, and the struct that they are. -/
def struct (fields : Codec β) (unpack : α → β) (pack : β → α)
    (pack_unpack : ∀ a, pack (unpack a) = a) : Codec α where
  encode a := '\x7b' :: (fields.encode (unpack a) ++ ['\x7d'])
  decode text := do
    let text ← expect '\x7b' text
    let (b, text) ← fields.decode text
    let text ← expect '\x7d' text
    some (pack b, text)
  starts a := ⟨_, _, rfl, by decide⟩
  decode_encode a rest _ := by
    have inside := fields.decode_encode (unpack a) ('\x7d' :: rest) (ends_cons (by decide) _)
    rw [List.cons_append, List.append_assoc, List.singleton_append, expect_cons]
    simp only [Option.bind_eq_bind, Option.bind_some, inside, expect_cons, pack_unpack]

end Structs

end Go.Json
