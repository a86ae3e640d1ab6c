/-
  `LexError`: why a lexeme is no token.
-/
import LoxReader.Diagnostic.Basic

set_option autoImplicit false

namespace LoxReader

/-- What is wrong with a lexeme. -/
inductive LexErrorKind where
  /-- A character that starts no token. -/
  | unexpectedCharacter (char : Char)
  /-- A string that the source ends before it closes. -/
  | unterminatedString
  /-- A number whose value needs more than 64 bits. -/
  | integerTooLarge
deriving DecidableEq

/-- A lexeme that is no token, and where it starts. -/
structure LexError where
  kind : LexErrorKind
  loc : Location
deriving DecidableEq

/-- The error in words, without its place. -/
def LexErrorKind.message : LexErrorKind → String
  | .unexpectedCharacter c => "unexpected character '" ++ Escaped.char c ++ "'"
  | .unterminatedString => "unterminated string literal"
  | .integerTooLarge => "integer literal too large"

/-- The code under which the error is reported. -/
def LexErrorKind.code : LexErrorKind → ErrorCode
  | .unexpectedCharacter _ => .unexpectedCharacter
  | .unterminatedString => .unterminatedString
  | .integerTooLarge => .integerTooLarge

namespace LexError

/-- The error in words, after its place. -/
def message (e : LexError) : String :=
  s!"{e.loc.text}: {e.kind.message}"

/-- The report of the error. -/
def diagnostic (e : LexError) : Diagnostic :=
  match e.kind with
  | .unexpectedCharacter c => .unexpectedCharacter e.loc c
  | .unterminatedString => .unterminatedString e.loc
  | .integerTooLarge => .integerTooLarge e.loc

end LexError

end LoxReader
