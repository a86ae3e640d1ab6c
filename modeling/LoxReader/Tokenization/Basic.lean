/-
  `Tokenization.Basic`: the tokens of a source.

  Reading never stops early: a lexeme that is no token becomes an error token with
  an entry in the list of errors, and reading goes on behind it.  The last token
  marks the end of the source.  The main statements are `tokenize_eq` and
  `readFrom_append`: a source is read lexeme by lexeme, and what has been read does
  not change what comes after it except through places and tables.
-/
import LoxReader.Tokenization.Tables

set_option autoImplicit false

namespace LoxReader

/-- The tokens of a source, with the tables that they refer to and the errors
among them, in source order. -/
structure Tokenization where
  source : String
  tokens : Array Token
  tables : Tables
  errors : Array LexError
deriving DecidableEq

namespace Tokenization

/-- A source of which nothing has been read. -/
def unread (source : String) : Tokenization :=
  ⟨source, #[], .empty, #[]⟩

/-- Add a token to those that have been read. -/
def push (t : Tokenization) (kind : TokenKind) (loc : Location) : Tokenization :=
  match t with
  | ⟨source, tokens, tables, errors⟩ => ⟨source, tokens.push ⟨kind, loc⟩, tables, errors⟩

/-- Add what a lexeme means that starts at `loc`. -/
def add (t : Tokenization) (loc : Location) (lexeme : Lexeme) : Tokenization :=
  match t with
  | ⟨source, tokens, tables, errors⟩ =>
    match tables.read lexeme with
    | (.trivia, tables) => ⟨source, tokens, tables, errors⟩
    | (.token kind, tables) => ⟨source, tokens.push ⟨kind, loc⟩, tables, errors⟩
    | (.error kind, tables) =>
        ⟨source, tokens.push ⟨.error, loc⟩, tables, errors.push ⟨kind, loc⟩⟩

/-- Read lexemes one after the other, the first of which starts at `loc`, and mark
the end of the source behind the last. -/
def readFrom (t : Tokenization) (loc : Location) : List Lexeme → Tokenization
  | [] => t.push .eof loc
  | lexeme :: rest => (t.add loc lexeme).readFrom (loc.advance lexeme.text) rest

/-- Read lexemes one after the other without marking an end. -/
def addAll (t : Tokenization) (loc : Location) : List Lexeme → Tokenization
  | [] => t
  | lexeme :: rest => (t.add loc lexeme).addAll (loc.advance lexeme.text) rest

/-- Reading a list of lexemes is reading its parts in turn. -/
theorem readFrom_append (t : Tokenization) (loc : Location) (first second : List Lexeme) :
    t.readFrom loc (first ++ second) =
      (t.addAll loc first).readFrom (loc.advance (first.flatMap Lexeme.text)) second := by
  induction first generalizing t loc with
  | nil => rfl
  | cons lexeme rest ih =>
    simp only [List.cons_append, readFrom, addAll, List.flatMap_cons, ih, Location.advance_append]

/-- Whether a lexeme of the source is no token. -/
def hasError (t : Tokenization) : Bool :=
  !t.errors.isEmpty

end Tokenization

/-- The tokens of a source. -/
def tokenize (source : String) : Tokenization :=
  (Tokenization.unread source).readFrom .start (lexemes source.toList)

/-- The end of the source is marked behind its last character. -/
theorem tokenize_eq (source : String) :
    tokenize source =
      ((Tokenization.unread source).addAll .start (lexemes source.toList)).push .eof
        (Location.start.advance source.toList) := by
  have h := Tokenization.readFrom_append (.unread source) .start (lexemes source.toList) []
  rw [List.append_nil, text_lexemes] at h
  exact h

/-! ## The size of a source -/

/-- Why a source cannot be read. -/
inductive SourceFault where
  /-- The source has more bytes than an offset can count. -/
  | tooLong
  /-- The source has more lines, or a longer last line, than a place can count. -/
  | uncountable
deriving DecidableEq

namespace SourceFault

/-- The largest number of bytes that a source may have. -/
def maxBytes : Nat := Location.fieldLimit - 1

/-- The fault in words. -/
def message : SourceFault → String
  | .tooLong => s!"source file exceeds {maxBytes} bytes"
  | .uncountable => "attempt to add with overflow"

end SourceFault

/-- The tokens of a source whose places can all be counted. -/
def lex (source : String) : Except SourceFault Tokenization :=
  if SourceFault.maxBytes < source.utf8ByteSize then
    .error .tooLong
  else if (Location.start.advance source.toList).Fits then
    .ok (tokenize source)
  else
    .error .uncountable

end LoxReader
