/-
  `Ast.Basic`: expressions stored in an arena.

  The operands of a node are its children.  An arena that holds an expression has
  one node above all others, whose only child is the expression; what stands below
  is read with care, since an arena can be built by hand.
-/
import LoxReader.Arena.Basic
import LoxReader.Expr.Basic

set_option autoImplicit false

namespace LoxReader

/-! ## Nodes -/

/-- What a node of an expression is. -/
inductive Form where
  /-- The node above the expression. -/
  | root
  | binary (op : BinaryOp)
  | paren
  | literal (value : Literal)
  | unary (op : UnaryOp)
deriving DecidableEq

/-- The form in descriptions of nodes. -/
def Form.text : Form → String
  | .root => "Root"
  | .binary op => s!"Binary({op.name})"
  | .paren => "Paren"
  | .literal (.number id) => s!"Number(LiteralId({id.index}))"
  | .literal (.string id) => s!"String(LiteralId({id.index}))"
  | .literal (.bool value) => s!"Bool({value})"
  | .literal .nil => "Nil"
  | .unary op => s!"Unary({op.name})"

/-- What a node is, and the place of the token that it comes from. -/
structure Entry where
  form : Form
  loc : Location
deriving DecidableEq

/-! ## Faults -/

/-- Why an arena cannot be read as an expression. -/
inductive AstFault where
  | arena (f : ArenaFault)
  /-- A node does not have as many children as its form needs. -/
  | operands (form : Form) (id : NodeId) (found expected : Nat)
  /-- A literal is missing from its table. -/
  | literal (e : OutOfRange)
deriving DecidableEq

/-- The fault in words. -/
def AstFault.message : AstFault → String
  | .arena f => f.message
  | .operands form id found expected =>
    s!"{form.text} node NodeId({id}) has {found} children, expected {expected}"
  | .literal e => e.message

/-- Why an arena does not hold an expression at the named nodes. -/
inductive EntryFault where
  /-- The named top is not the top of the arena. -/
  | notTop
  /-- The top is not of the form `root`. -/
  | notRoot
  /-- The expression is not the only child of the top. -/
  | notOnlyChild
deriving DecidableEq

/-! ## Expressions in an arena -/

/-- An arena, the node at its top and the expression below that. -/
structure Ast where
  arena : Arena Entry
  root : NodeId
  expr : NodeId
  root_eq : arena.root = some root
  entry : ∃ n, arena.nodes[root]? = some n ∧ n.value.form = .root ∧ n.children = [expr]

/-- The parts of a node that have its place in `α` instead of in the arena. -/
inductive Shape (α : Type) where
  | root (expr : α)
  | binary (op : BinaryOp) (left right : α)
  | paren (inner : α)
  | unary (op : UnaryOp) (operand : α)
  | literal (value : Literal)
deriving DecidableEq

namespace Shape

variable {α β ε : Type}

/-- The parts in source order. -/
def parts : Shape α → List α
  | .root expr => [expr]
  | .binary _ left right => [left, right]
  | .paren inner => [inner]
  | .unary _ operand => [operand]
  | .literal _ => []

/-- The shape with its parts replaced in source order, up to the first fault. -/
@[inline] def traverse (f : α → Except ε β) : Shape α → Except ε (Shape β)
  | .root expr =>
    match f expr with
    | .error e => .error e
    | .ok expr => .ok (.root expr)
  | .binary op left right =>
    match f left with
    | .error e => .error e
    | .ok left =>
      match f right with
      | .error e => .error e
      | .ok right => .ok (.binary op left right)
  | .paren inner =>
    match f inner with
    | .error e => .error e
    | .ok inner => .ok (.paren inner)
  | .unary op operand =>
    match f operand with
    | .error e => .error e
    | .ok operand => .ok (.unary op operand)
  | .literal value => .ok (.literal value)

end Shape

namespace Ast

/-- Read an arena as an expression below a top node. -/
def ofArena (arena : Arena Entry) (root expr : NodeId) : Except EntryFault Ast :=
  if root_eq : arena.root = some root then
    match found : arena.nodes[root]? with
    | none => .error .notRoot
    | some n =>
      if form : n.value.form = .root then
        if only : n.children = [expr] then
          .ok ⟨arena, root, expr, root_eq, n, found, form, only⟩
        else
          .error .notOnlyChild
      else
        .error .notRoot
  else
    .error .notTop

/-- The number of nodes, the top included. -/
def size (a : Ast) : Nat :=
  a.arena.size

/-- Whether there are no nodes, which is never so. -/
def isEmpty (a : Ast) : Bool :=
  a.arena.isEmpty

/-- The node with the given index. -/
def node (a : Ast) (id : NodeId) : Except AstFault (Node Entry) :=
  match a.arena.node id with
  | .error f => .error (.arena f)
  | .ok n => .ok n

/-- What the node with the given index is. -/
def entryAt (a : Ast) (id : NodeId) : Except AstFault Entry :=
  (a.node id).map Node.value

/-- The only child of the node `n`, whose index is `id`. -/
def onlyChild (id : NodeId) (n : Node Entry) : Except AstFault NodeId :=
  match n.children with
  | [child] => .ok child
  | children => .error (.operands n.value.form id children.length 1)

/-- The two children of the node `n`, whose index is `id`. -/
def twoChildren (id : NodeId) (n : Node Entry) : Except AstFault (NodeId × NodeId) :=
  match n.children with
  | [left, right] => .ok (left, right)
  | children => .error (.operands n.value.form id children.length 2)

/-- The operand of a node that has one. -/
def operand (a : Ast) (id : NodeId) : Except AstFault NodeId :=
  match a.node id with
  | .error f => .error f
  | .ok n => onlyChild id n

/-- The operands of a node that has two. -/
def binaryOperands (a : Ast) (id : NodeId) : Except AstFault (NodeId × NodeId) :=
  match a.node id with
  | .error f => .error f
  | .ok n => twoChildren id n

/-- The shape of the node `n`, whose index is `id`.  A literal has no parts,
whatever its children. -/
def shapeOf (id : NodeId) (n : Node Entry) : Except AstFault (Shape NodeId) :=
  match n.value.form with
  | .root => (onlyChild id n).map .root
  | .binary op => (twoChildren id n).map fun sides => .binary op sides.1 sides.2
  | .paren => (onlyChild id n).map .paren
  | .unary op => (onlyChild id n).map (.unary op)
  | .literal value => .ok (.literal value)

/-- The place and the shape of a node. -/
def view (a : Ast) (id : NodeId) : Except AstFault (Location × Shape NodeId) :=
  match a.node id with
  | .error f => .error f
  | .ok n => (shapeOf id n).map fun shape => (n.value.loc, shape)

/-! ## Folding -/

variable {β : Type}

/-- Combine what stands at and below a node, from the literals up, going down
through fewer than `fuel` nodes.  Faults arise in the order in which nodes stand in
the source, operators before their operands. -/
def foldFrom (a : Ast) (combine : Location → Shape β → Except AstFault β) :
    Nat → NodeId → Except AstFault β
  | 0, _ => .error (.arena .endless)
  | fuel + 1, id =>
    match a.view id with
    | .error f => .error f
    | .ok (loc, shape) =>
      match shape.traverse (a.foldFrom combine fuel) with
      | .error f => .error f
      | .ok shape => combine loc shape

/-- Combine what stands at and below a node, from the literals up. -/
def foldAt (a : Ast) (combine : Location → Shape β → Except AstFault β) (id : NodeId) :
    Except AstFault β :=
  a.foldFrom combine (a.size + 1) id

/-- The expression with the parts of a shape; the node above an expression adds
nothing to it. -/
def exprOfShape (loc : Location) : Shape Expr → Expr
  | .root expr => expr
  | .binary op left right => .binary loc op left right
  | .paren inner => .group loc inner
  | .unary op operand => .unary loc op operand
  | .literal value => .literal loc value

/-- The expression at and below a node, as a tree. -/
def exprAt (a : Ast) (id : NodeId) : Except AstFault Expr :=
  a.foldAt (fun loc shape => .ok (exprOfShape loc shape)) id

/-- The whole expression as a tree. -/
def toExpr (a : Ast) : Except AstFault Expr :=
  a.exprAt a.root

end Ast

end LoxReader
