/-
  `Expr.Basic`: expressions as trees.

  An expression keeps the parentheses that it was written with, and every part of
  it keeps the place of the token that it comes from: an operator, an opening
  parenthesis or a literal.
-/
import LoxReader.Expr.Operator
import LoxReader.Token.Basic

set_option autoImplicit false

namespace LoxReader

/-- An operand that stands for itself. -/
inductive Literal where
  | number (id : LiteralId)
  | string (id : LiteralId)
  | bool (value : Bool)
  | nil
deriving DecidableEq

/-- The literal that a token stands for. -/
def Literal.ofToken? : TokenKind → Option Literal
  | .number id => some (.number id)
  | .string id => some (.string id)
  | .keyword .true => some (.bool true)
  | .keyword .false => some (.bool false)
  | .keyword .nil => some .nil
  | _ => none

/-- An expression. -/
inductive Expr where
  | literal (loc : Location) (value : Literal)
  | group (loc : Location) (inner : Expr)
  | unary (loc : Location) (op : UnaryOp) (operand : Expr)
  | binary (loc : Location) (op : BinaryOp) (left right : Expr)
deriving DecidableEq

namespace Expr

/-- The number of parts of an expression. -/
def size : Expr → Nat
  | .literal _ _ => 1
  | .group _ inner => inner.size + 1
  | .unary _ _ operand => operand.size + 1
  | .binary _ _ left right => left.size + right.size + 1

end Expr

end LoxReader
