/-
  `Token.Basic`: what a lexeme stands for, and where it stands.

  A token carries the index of its payload in a table of its source: the spelling
  of an identifier, the body of a string or the value of a number.  A tag is a
  token kind without its payload.
-/
import LoxReader.Source.Location
import LoxReader.Token.Keyword
import LoxReader.Token.Symbol

set_option autoImplicit false

namespace LoxReader

/-- The index of a spelling in the table of identifiers.  Equal spellings have
one index. -/
structure NameId where
  index : Nat
deriving DecidableEq

/-- The index of a literal in the table of strings or of numbers.  Every literal
of a source has an index of its own. -/
structure LiteralId where
  index : Nat
deriving DecidableEq

/-- What kind of lexeme a token stands for. -/
inductive TokenTag where
  | symbol (symbol : Symbol)
  | identifier
  | string
  | number
  | keyword (keyword : Keyword)
  /-- A lexeme that is no token; the errors of the source say why. -/
  | error
  /-- The end of the source. -/
  | eof
deriving DecidableEq

namespace TokenTag

/-- Every tag, in catalogue order. -/
def all : List TokenTag :=
  Symbol.all.map .symbol ++ [.identifier, .string, .number] ++ Keyword.all.map .keyword ++
    [.error, .eof]

/-- The place of the tag in the catalogue, counted from 0. -/
def code (tag : TokenTag) : Nat :=
  all.idxOf tag

/-- The name of the tag in token listings. -/
def name : TokenTag → String
  | .symbol s => s.name
  | .identifier => "Identifier"
  | .string => "String"
  | .number => "Number"
  | .keyword k => k.name
  | .error => "Error"
  | .eof => "Eof"

/-- The tag with the given name. -/
def ofName? (name : String) : Option TokenTag :=
  all.find? fun tag => tag.name == name

/-- A name for the tag that also tells reserved words from the other tags. -/
def label : TokenTag → String
  | .keyword k => "Kw" ++ k.name
  | tag => tag.name

/-- The tag in the words of a message to the reader. -/
def describe : TokenTag → String
  | .symbol s => "`" ++ s.spelling ++ "`"
  | .identifier => "identifier"
  | .string => "string literal"
  | .number => "number literal"
  | .keyword k => "`" ++ k.spelling ++ "`"
  | .error => "invalid token"
  | .eof => "end of input"

/-- Whether the tag is that of a reserved word. -/
def isKeyword : TokenTag → Bool
  | .keyword _ => true
  | _ => false

end TokenTag

/-- What a token stands for, with the index of its payload. -/
inductive TokenKind where
  | symbol (symbol : Symbol)
  | identifier (id : NameId)
  | string (id : LiteralId)
  | number (id : LiteralId)
  | keyword (keyword : Keyword)
  | error
  | eof
deriving DecidableEq

namespace TokenKind

/-- The kind without its payload. -/
def tag : TokenKind → TokenTag
  | .symbol s => .symbol s
  | .identifier _ => .identifier
  | .string _ => .string
  | .number _ => .number
  | .keyword k => .keyword k
  | .error => .error
  | .eof => .eof

/-- The name of the kind in token listings. -/
def name (kind : TokenKind) : String :=
  kind.tag.name

/-- The index of the spelling, for an identifier. -/
def nameId? : TokenKind → Option NameId
  | .identifier id => some id
  | _ => none

/-- The index of the literal, for a string or a number. -/
def literalId? : TokenKind → Option LiteralId
  | .string id => some id
  | .number id => some id
  | _ => none

/-- The name of the kind followed by its payload, if it has one. -/
def label : TokenKind → String
  | .identifier id => s!"Identifier(IdentId({id.index}))"
  | .string id => s!"String(LiteralId({id.index}))"
  | .number id => s!"Number(LiteralId({id.index}))"
  | kind => kind.name

end TokenKind

/-- A lexeme of a source: what it stands for and where it starts. -/
structure Token where
  kind : TokenKind
  loc : Location
deriving DecidableEq

namespace Token

/-- The kind of the token without its payload. -/
def tag (token : Token) : TokenTag :=
  token.kind.tag

/-- Whether the token marks the end of the source. -/
def isEof (token : Token) : Bool :=
  token.kind == .eof

end Token

end LoxReader
