/-
  `Ast.Printer`: expressions as text.

  An expression is written in two forms: as source, with the parentheses that it
  was written with and no others, and as a list with the operator in front, which
  shows how operands were grouped.  Literals are written with their payloads, which
  come from the tables of a source.
-/
import LoxReader.Ast.Basic
import LoxReader.Tokenization.Tables

set_option autoImplicit false

namespace LoxReader

/-- A literal as it is written: a number in decimal digits, a string between
quotes, and the words for the others. -/
def Literal.text (tables : Tables) : Literal → Except OutOfRange String
  | .number id => (tables.number id).map fun value => value.toNat.repr
  | .string id => (tables.string id).map fun body => "\"" ++ body ++ "\""
  | .bool true => .ok "true"
  | .bool false => .ok "false"
  | .nil => .ok "nil"

/-- The source text of a node from those of its parts. -/
def Shape.source (tables : Tables) : Shape String → Except OutOfRange String
  | .root expr => .ok expr
  | .binary op left right => .ok (left ++ " " ++ op.spelling ++ " " ++ right)
  | .paren inner => .ok ("(" ++ inner ++ ")")
  | .unary op operand => .ok (op.spelling ++ operand)
  | .literal value => value.text tables

/-- The list of a node from those of its parts. -/
def Shape.sexp (tables : Tables) : Shape String → Except OutOfRange String
  | .root expr => .ok expr
  | .binary op left right => .ok ("(" ++ op.spelling ++ " " ++ left ++ " " ++ right ++ ")")
  | .paren inner => .ok ("(group " ++ inner ++ ")")
  | .unary op operand => .ok ("(" ++ op.spelling ++ " " ++ operand ++ ")")
  | .literal value => value.text tables

namespace Ast

/-- A fault in a table as a fault of the expression. -/
def ofTable {α : Type} : Except OutOfRange α → Except AstFault α
  | .error e => .error (.literal e)
  | .ok entry => .ok entry

/-- The source text at and below a node. -/
def sourceAt (a : Ast) (tables : Tables) (id : NodeId) : Except AstFault String :=
  a.foldAt (fun _ shape => ofTable (shape.source tables)) id

/-- The whole expression as source text. -/
def sourceText (a : Ast) (tables : Tables) : Except AstFault String :=
  a.sourceAt tables a.root

/-- The list at and below a node. -/
def sexpAt (a : Ast) (tables : Tables) (id : NodeId) : Except AstFault String :=
  a.foldAt (fun _ shape => ofTable (shape.sexp tables)) id

/-- The whole expression as a list. -/
def sexp (a : Ast) (tables : Tables) : Except AstFault String :=
  a.sexpAt tables a.root

/-- The values of the numbers at and below a node, in source order. -/
def numbersAt (a : Ast) (tables : Tables) (id : NodeId) : Except AstFault (Array UInt64) :=
  a.foldAt (fun _ shape =>
    match shape with
    | .root expr => .ok expr
    | .binary _ left right => .ok (left ++ right)
    | .paren inner => .ok inner
    | .unary _ operand => .ok operand
    | .literal (.number id) => (ofTable (tables.number id)).map fun value => #[value]
    | .literal _ => .ok #[]) id

/-- The bodies of the strings at and below a node, in source order. -/
def stringsAt (a : Ast) (tables : Tables) (id : NodeId) : Except AstFault (Array String) :=
  a.foldAt (fun _ shape =>
    match shape with
    | .root expr => .ok expr
    | .binary _ left right => .ok (left ++ right)
    | .paren inner => .ok inner
    | .unary _ operand => .ok operand
    | .literal (.string id) => (ofTable (tables.string id)).map fun body => #[body]
    | .literal _ => .ok #[]) id

end Ast

end LoxReader
