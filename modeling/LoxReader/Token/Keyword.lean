/-
  `Token.Keyword`: the reserved words.

  A word is reserved only in exactly this spelling; `While` is an identifier.
-/

set_option autoImplicit false

namespace LoxReader

/-- The reserved words, in catalogue order. -/
inductive Keyword where
  | and
  | «class»
  | else
  | false
  | fun
  | for
  | if
  | nil
  | or
  | print
  | return
  | super
  | this
  | true
  | var
  | while
deriving DecidableEq

namespace Keyword

/-- Every reserved word, in catalogue order. -/
def all : List Keyword :=
  [.and, .class, .else, .false, .fun, .for, .if, .nil, .or, .print, .return, .super, .this, .true,
    .var, .while]

/-- The reserved word as it is written. -/
def spelling : Keyword → String
  | .and => "and"
  | .class => "class"
  | .else => "else"
  | .false => "false"
  | .fun => "fun"
  | .for => "for"
  | .if => "if"
  | .nil => "nil"
  | .or => "or"
  | .print => "print"
  | .return => "return"
  | .super => "super"
  | .this => "this"
  | .true => "true"
  | .var => "var"
  | .while => "while"

/-- The name of the reserved word in token listings. -/
def name : Keyword → String
  | .and => "And"
  | .class => "Class"
  | .else => "Else"
  | .false => "False"
  | .fun => "Fun"
  | .for => "For"
  | .if => "If"
  | .nil => "Nil"
  | .or => "Or"
  | .print => "Print"
  | .return => "Return"
  | .super => "Super"
  | .this => "This"
  | .true => "True"
  | .var => "Var"
  | .while => "While"

/-- The reserved words with their spellings, in catalogue order. -/
def table : List (String × Keyword) :=
  all.map fun k => (k.spelling, k)

/-- The reserved word with this spelling.  The number of its bytes tells which words it can
be at all. -/
def ofSpelling? (word : String) : Option Keyword :=
  match word.utf8ByteSize with
  | 2 =>
    match word with
    | "if" => some .if
    | "or" => some .or
    | _ => none
  | 3 =>
    match word with
    | "and" => some .and
    | "for" => some .for
    | "fun" => some .fun
    | "nil" => some .nil
    | "var" => some .var
    | _ => none
  | 4 =>
    match word with
    | "else" => some .else
    | "this" => some .this
    | "true" => some .true
    | _ => none
  | 5 =>
    match word with
    | "class" => some .class
    | "false" => some .false
    | "print" => some .print
    | "super" => some .super
    | "while" => some .while
    | _ => none
  | 6 =>
    match word with
    | "return" => some .return
    | _ => none
  | _ => none

end Keyword

end LoxReader
