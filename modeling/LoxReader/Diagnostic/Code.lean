/-
  `Diagnostic.Code`: the codes under which problems are reported.

  A code is `E` and four digits; the first digit tells the phase, 0 for the lexer
  and 1 for the parser.
-/

set_option autoImplicit false

namespace LoxReader

/-- What is wrong, in numeric order of the codes. -/
inductive ErrorCode where
  | unterminatedString
  | unexpectedCharacter
  | integerTooLarge
  | unexpectedToken
  | expectedExpression
  | unclosedDelimiter
deriving DecidableEq

/-- The part of the program that finds a problem. -/
inductive Phase where
  | lexer
  | parser
deriving DecidableEq

/-- The phase as a word. -/
def Phase.name : Phase → String
  | .lexer => "lexer"
  | .parser => "parser"

namespace ErrorCode

/-- Every code, in numeric order. -/
def all : List ErrorCode :=
  [.unterminatedString, .unexpectedCharacter, .integerTooLarge, .unexpectedToken,
    .expectedExpression, .unclosedDelimiter]

/-- The code as it is written. -/
def text : ErrorCode → String
  | .unterminatedString => "E0001"
  | .unexpectedCharacter => "E0002"
  | .integerTooLarge => "E0003"
  | .unexpectedToken => "E1001"
  | .expectedExpression => "E1002"
  | .unclosedDelimiter => "E1003"

/-- The problem in a few words. -/
def description : ErrorCode → String
  | .unterminatedString => "unterminated string literal"
  | .unexpectedCharacter => "unexpected character"
  | .integerTooLarge => "integer literal too large"
  | .unexpectedToken => "unexpected token"
  | .expectedExpression => "expected expression"
  | .unclosedDelimiter => "unclosed delimiter"

/-- The phase that reports the problem. -/
def phase : ErrorCode → Phase
  | .unterminatedString => .lexer
  | .unexpectedCharacter => .lexer
  | .integerTooLarge => .lexer
  | .unexpectedToken => .parser
  | .expectedExpression => .parser
  | .unclosedDelimiter => .parser

/-- Whether the lexer reports the problem. -/
def isLexical (code : ErrorCode) : Bool :=
  code.phase == .lexer

/-- The code written in exactly this way. -/
def ofText? (text : String) : Option ErrorCode :=
  all.find? fun code => code.text == text

end ErrorCode

end LoxReader
