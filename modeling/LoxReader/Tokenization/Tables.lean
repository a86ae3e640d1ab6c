/-
  `Tokenization.Tables`: the payloads of the tokens of one source.

  Identifiers are entered once per spelling, in order of first appearance; strings
  and numbers are entered once per occurrence.  What has been entered is found under
  the index that it was given (`name_intern`, `string_addString`,
  `number_addNumber`).
-/
import LoxReader.Lexeme
import LoxReader.LexError
import LoxReader.Table
import LoxReader.Token.Basic

set_option autoImplicit false

namespace LoxReader

/-- The spellings, string bodies and number values that tokens refer to. -/
structure Tables where
  names : Array String
  strings : Array String
  numbers : Array UInt64
deriving DecidableEq

namespace Tables

/-- The tables before anything is entered. -/
def empty : Tables :=
  ⟨#[], #[], #[]⟩

/-! ## Looking up -/

/-- The spelling of an identifier. -/
def name (tables : Tables) (id : NameId) : Except OutOfRange String :=
  tableGet tables.names id.index

/-- The body of a string, without its quotes. -/
def string (tables : Tables) (id : LiteralId) : Except OutOfRange String :=
  tableGet tables.strings id.index

/-- The value of a number. -/
def number (tables : Tables) (id : LiteralId) : Except OutOfRange UInt64 :=
  tableGet tables.numbers id.index

/-! ## Entering -/

/-- The index of a spelling, which is entered if it is new. -/
def intern (tables : Tables) (word : String) : NameId × Tables :=
  match tables with
  | ⟨names, strings, numbers⟩ =>
    match names.idxOf? word with
    | some index => (⟨index⟩, ⟨names, strings, numbers⟩)
    | none => (⟨names.size⟩, ⟨names.push word, strings, numbers⟩)

/-- Enter the body of a string. -/
def addString (tables : Tables) (body : String) : LiteralId × Tables :=
  match tables with
  | ⟨names, strings, numbers⟩ => (⟨strings.size⟩, ⟨names, strings.push body, numbers⟩)

/-- Enter the value of a number. -/
def addNumber (tables : Tables) (value : UInt64) : LiteralId × Tables :=
  match tables with
  | ⟨names, strings, numbers⟩ => (⟨numbers.size⟩, ⟨names, strings, numbers.push value⟩)

/-- A spelling is found under its index. -/
theorem name_intern (tables : Tables) (word : String) :
    (tables.intern word).2.name (tables.intern word).1 = .ok word := by
  obtain ⟨names, strings, numbers⟩ := tables
  rw [name, tableGet_eq_ok_iff]
  cases h : names.idxOf? word with
  | none => simp [intern, h]
  | some index =>
    simp only [intern, h]
    rw [Array.idxOf?_eq_map_finIdxOf?_val, Option.map_eq_some_iff] at h
    obtain ⟨i, hi, rfl⟩ := h
    simpa using (Array.finIdxOf?_eq_some_iff.mp hi).1

/-- The body of a string is found under its index. -/
theorem string_addString (tables : Tables) (body : String) :
    (tables.addString body).2.string (tables.addString body).1 = .ok body := by
  rw [string, tableGet_eq_ok_iff]
  simp [addString]

/-- The value of a number is found under its index. -/
theorem number_addNumber (tables : Tables) (value : UInt64) :
    (tables.addNumber value).2.number (tables.addNumber value).1 = .ok value := by
  rw [number, tableGet_eq_ok_iff]
  simp [addNumber]

end Tables

/-! ## From lexemes to tokens -/

/-- What a lexeme means. -/
inductive Reading where
  /-- Nothing: the lexeme only separates others. -/
  | trivia
  | token (kind : TokenKind)
  | error (kind : LexErrorKind)
deriving DecidableEq

/-- The value of a run of decimal digits. -/
def digitsValue (digits : List Char) : Nat :=
  Nat.ofDigitChars 10 digits 0

/-- What a lexeme means, with its payload entered in the tables. -/
def Tables.read (tables : Tables) : Lexeme → Reading × Tables
  | .blanks _ => (.trivia, tables)
  | .comment _ => (.trivia, tables)
  | .symbol s => (.token (.symbol s), tables)
  | .digits digits =>
    if digitsValue digits < UInt64.size then
      match tables.addNumber (UInt64.ofNat (digitsValue digits)) with
      | (id, tables) => (.token (.number id), tables)
    else
      (.error .integerTooLarge, tables)
  | .word word =>
    match Keyword.ofSpelling? (String.ofList word) with
    | some k => (.token (.keyword k), tables)
    | none =>
      match tables.intern (String.ofList word) with
      | (id, tables) => (.token (.identifier id), tables)
  | .quoted body =>
    match tables.addString (String.ofList body) with
    | (id, tables) => (.token (.string id), tables)
  | .unclosed _ => (.error .unterminatedString, tables)
  | .stray c => (.error (.unexpectedCharacter c), tables)

end LoxReader
