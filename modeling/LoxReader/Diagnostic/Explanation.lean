/-
  `Diagnostic.Explanation`: what the codes mean.
-/
import LoxReader.Diagnostic.Code

set_option autoImplicit false

namespace LoxReader.ErrorCode

/-- The problem at length. -/
def details : ErrorCode → String
  | .unterminatedString =>
    "A string literal was opened with `\"` but the file ended before the closing `\"`. " ++
      "Strings may span lines, so the missing quote can be far from where the string starts."
  | .unexpectedCharacter =>
    "The character does not begin any token. Identifiers use ASCII letters, digits and `_`; " ++
      "everything else must be an operator or punctuation."
  | .integerTooLarge =>
    "Number literals are unsigned 64-bit integers. The literal has more digits than fit."
  | .unexpectedToken =>
    "A complete expression was parsed but more tokens follow it. " ++
      "The input holds exactly one expression."
  | .expectedExpression =>
    "An operand was required here: a number, a string, `true`, `false`, `nil`, " ++
      "a parenthesized expression, or a unary operator applied to one."
  | .unclosedDelimiter =>
    "A `(` was opened and the expression inside it ended without a matching `)`."

/-- A heading with the code, the problem and the phase, and then the problem at
length. -/
def explanation (code : ErrorCode) : String :=
  code.text ++ ": " ++ code.description ++ " (" ++ code.phase.name ++ " error)\n\n" ++ code.details

/-- The explanation of a code, which may be written with small letters. -/
def explain? (text : String) : Option String :=
  (ofText? text.toUpper).map explanation

end LoxReader.ErrorCode
