/-
  `Ast.Layout`: laying out an expression in an arena.

  Nodes are added in the order in which their tokens stand in the source: a prefix
  operator or parenthesis before its operand, and an infix operator between its
  operands.  The left operand is therefore laid out first and moved below its
  operator afterwards.
-/
import LoxReader.Ast.Basic

set_option autoImplicit false

namespace LoxReader

/-- Lay out an expression behind the last child of `parent`; the answer names its
node. -/
def Expr.layOut (t : Arena Entry) (parent : NodeId) :
    Expr → Except ArenaFault (NodeId × Arena Entry)
  | .literal loc value => t.addChild parent ⟨.literal value, loc⟩
  | .group loc inner =>
    match t.addChild parent ⟨.paren, loc⟩ with
    | .error f => .error f
    | .ok (id, t) =>
      match inner.layOut t id with
      | .error f => .error f
      | .ok (_, t) => .ok (id, t)
  | .unary loc op operand =>
    match t.addChild parent ⟨.unary op, loc⟩ with
    | .error f => .error f
    | .ok (id, t) =>
      match operand.layOut t id with
      | .error f => .error f
      | .ok (_, t) => .ok (id, t)
  | .binary loc op left right =>
    match left.layOut t parent with
    | .error f => .error f
    | .ok (leftId, t) =>
      match t.addChild parent ⟨.binary op, loc⟩ with
      | .error f => .error f
      | .ok (id, t) =>
        match t.adopt id leftId with
        | .error f => .error f
        | .ok t =>
          match right.layOut t id with
          | .error f => .error f
          | .ok (_, t) => .ok (id, t)

/-- Why an expression could not be laid out. -/
inductive LayoutFault where
  | arena (f : ArenaFault)
  | entry (f : EntryFault)
deriving DecidableEq

/-- An expression below a top node that stands at `loc`. -/
def Ast.ofExpr (loc : Location) (e : Expr) : Except LayoutFault Ast :=
  match Arena.empty.addRoot ⟨.root, loc⟩ with
  | (root, t) =>
    match e.layOut t root with
    | .error f => .error (.arena f)
    | .ok (expr, t) =>
      match Ast.ofArena t root expr with
      | .error f => .error (.entry f)
      | .ok a => .ok a

end LoxReader
