/-
  `Diagnostic.Basic`: a problem in a source, as it is reported.

  A diagnostic has a code and a message, labels that point into the source, and
  notes.  A primary label marks the problem itself, a secondary one marks a place
  that helps to understand it.
-/
import LoxReader.Diagnostic.Code
import LoxReader.Source.Location
import LoxReader.Text.Escaped

set_option autoImplicit false

namespace LoxReader

/-- A message about one place in the source. -/
structure Label where
  loc : Location
  message : String
  isPrimary : Bool
deriving DecidableEq

/-- A problem to report. -/
structure Diagnostic where
  code : ErrorCode
  message : String
  labels : List Label
  notes : List String
deriving DecidableEq

namespace Diagnostic

/-! ## Building -/

/-- A diagnostic that says no more than its code. -/
def ofCode (code : ErrorCode) : Diagnostic :=
  ⟨code, "", [], []⟩

/-- The diagnostic with this message instead of its own. -/
def withMessage (d : Diagnostic) (message : String) : Diagnostic :=
  { d with message := message }

/-- The diagnostic with one more primary label. -/
def withPrimary (d : Diagnostic) (loc : Location) (message : String) : Diagnostic :=
  { d with labels := d.labels ++ [⟨loc, message, true⟩] }

/-- The diagnostic with one more secondary label. -/
def withSecondary (d : Diagnostic) (loc : Location) (message : String) : Diagnostic :=
  { d with labels := d.labels ++ [⟨loc, message, false⟩] }

/-- The diagnostic with one more note. -/
def withNote (d : Diagnostic) (note : String) : Diagnostic :=
  { d with notes := d.notes ++ [note] }

/-! ## Reading -/

/-- The place of the first primary label. -/
def primaryLoc? (d : Diagnostic) : Option Location :=
  (d.labels.find? Label.isPrimary).map Label.loc

/-- The diagnostic on one line. -/
def headline (d : Diagnostic) : String :=
  s!"error[{d.code.text}]: {d.message}"

/-! ## The problems of this language -/

/-- A string opens at `opening` and does not close. -/
def unterminatedString (opening : Location) : Diagnostic :=
  ((ofCode .unterminatedString).withMessage "unterminated string literal"
    |>.withPrimary opening "string starts here"
    |>.withNote "strings end at the next `\"`; none was found before end of input")

/-- The character starts no token. -/
def unexpectedCharacter (loc : Location) (c : Char) : Diagnostic :=
  ((ofCode .unexpectedCharacter).withMessage ("unexpected character `" ++ Escaped.char c ++ "`")
    |>.withPrimary loc "no token starts with this character")

/-- The value of a number needs more than 64 bits. -/
def integerTooLarge (loc : Location) : Diagnostic :=
  ((ofCode .integerTooLarge).withMessage "integer literal is too large"
    |>.withPrimary loc "does not fit in 64 bits"
    |>.withNote "the largest number literal is 18446744073709551615")

/-- A token stands where another was needed. -/
def unexpectedToken (loc : Location) (expected found : String) : Diagnostic :=
  ((ofCode .unexpectedToken).withMessage s!"expected {expected}, found {found}"
    |>.withPrimary loc s!"expected {expected}")

/-- A token stands where an expression was needed. -/
def expectedExpression (loc : Location) (found : String) : Diagnostic :=
  ((ofCode .expectedExpression).withMessage s!"expected expression, found {found}"
    |>.withPrimary loc "expected expression here")

/-- The parenthesis at `opening` should have been closed at `closing` at the
latest. -/
def unclosedDelimiter (opening closing : Location) : Diagnostic :=
  ((ofCode .unclosedDelimiter).withMessage "unclosed delimiter `(`"
    |>.withPrimary closing "expected `)`"
    |>.withSecondary opening "unclosed delimiter opened here")

end Diagnostic

end LoxReader
