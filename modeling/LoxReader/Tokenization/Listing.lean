/-
  `Tokenization.Listing`: the tokens of a source as text.
-/
import LoxReader.Tokenization.Basic

set_option autoImplicit false

namespace LoxReader.Tokenization

/-- The payload of a token in its listing: an identifier as it is spelled, a
string between quotes, a number in decimal digits. -/
def payloadText (t : Tokenization) : TokenKind → Except OutOfRange String
  | .identifier id =>
    match t.tables.name id with
    | .error e => .error e
    | .ok name => .ok (", identifier: " ++ name)
  | .string id =>
    match t.tables.string id with
    | .error e => .error e
    | .ok body => .ok (", literal: \"" ++ body ++ "\"")
  | .number id =>
    match t.tables.number id with
    | .error e => .error e
    | .ok value => .ok (", literal: " ++ value.toNat.repr)
  | _ => .ok ""

/-- One token as text: its kind, its line and column, and its payload, between
braces. -/
def render (t : Tokenization) (token : Token) : Except OutOfRange String :=
  match t.payloadText token.kind with
  | .error e => .error e
  | .ok payload =>
    .ok ("\x7bkind: " ++ token.kind.name ++ ", line: " ++ token.loc.line.repr ++ ", column: " ++
      token.loc.column.repr ++ payload ++ "\x7d")

/-- The text `out` followed by one line per token. -/
def renderLines (t : Tokenization) (out : String) : List Token → Except OutOfRange String
  | [] => .ok out
  | token :: rest =>
    match t.render token with
    | .error e => .error e
    | .ok line => t.renderLines (out ++ line ++ "\n") rest

/-- Every token of the source, each followed by a line feed, and then a line with
`1` if the source has a lexical error and `0` if not. -/
def listing (t : Tokenization) : Except OutOfRange String :=
  match t.renderLines "" t.tokens.toList with
  | .error e => .error e
  | .ok lines => .ok (lines ++ (if t.hasError then "1\n" else "0\n"))

end LoxReader.Tokenization
