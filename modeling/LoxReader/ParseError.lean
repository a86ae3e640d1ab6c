/-
  `ParseError`: why tokens are not an expression.
-/
import LoxReader.Cursor
import LoxReader.Diagnostic.Basic

set_option autoImplicit false

namespace LoxReader

/-- What was needed where a token cannot stand. -/
inductive ParseErrorKind where
  /-- An expression. -/
  | expectedExpression
  /-- The parenthesis that closes the one at `opening`. -/
  | unclosedParen (opening : Location)
  /-- Nothing more. -/
  | expectedEndOfInput
deriving DecidableEq

/-- The first token that cannot stand where it does: what was needed instead, the
number of tokens before it, its tag and its place. -/
structure ParseError where
  kind : ParseErrorKind
  position : Nat
  found : TokenTag
  loc : Location
deriving DecidableEq

namespace ParseErrorKind

/-- What was needed, in words. -/
def message : ParseErrorKind → String
  | .expectedExpression => "expected expression"
  | .unclosedParen opening => s!"expected `)` to close `(` at {opening.text}"
  | .expectedEndOfInput => "expected end of input"

/-- The code under which the error is reported. -/
def code : ParseErrorKind → ErrorCode
  | .expectedExpression => .expectedExpression
  | .unclosedParen _ => .unclosedDelimiter
  | .expectedEndOfInput => .unexpectedToken

/-- The place of the parenthesis that was not closed. -/
def opening? : ParseErrorKind → Option Location
  | .unclosedParen opening => some opening
  | _ => none

end ParseErrorKind

namespace ParseError

/-- The error in words, after its place. -/
def message (e : ParseError) : String :=
  s!"{e.loc.text}: {e.kind.message}, found {e.found.describe}"

/-- The report of the error. -/
def diagnostic (e : ParseError) : Diagnostic :=
  match e.kind with
  | .expectedExpression => .expectedExpression e.loc e.found.describe
  | .unclosedParen opening => .unclosedDelimiter opening e.loc
  | .expectedEndOfInput => .unexpectedToken e.loc "end of input" e.found.describe

end ParseError

/-- The error that the current token cannot stand where it does. -/
def Cursor.error (c : Cursor) (kind : ParseErrorKind) : ParseError :=
  ⟨kind, c.position, c.tag, c.loc⟩

end LoxReader
