/-
  `Ast.Visit`: visiting the nodes of an expression.

  A node is visited before its operands, and its operands in source order.  The
  number of operands is checked before a node is visited, so that a walk over an
  arena built by hand ends in front of the first node that lacks some or has too
  many.
-/
import LoxReader.Ast.Basic

set_option autoImplicit false

namespace LoxReader

/-- A node that was visited: its depth below the start, from 1, its index and its
shape. -/
structure Visit where
  depth : Nat
  id : NodeId
  shape : Shape NodeId
deriving DecidableEq

/-- The visits of a walk, and the fault at which it ended, if any. -/
structure Walk where
  visits : Array Visit
  fault : Option AstFault
deriving DecidableEq

namespace Ast

/-- Go on from each node in turn until a fault. -/
def walkEach (go : NodeId → Array Visit → Walk) : List NodeId → Array Visit → Walk
  | [], visits => ⟨visits, none⟩
  | id :: rest, visits =>
    match go id visits with
    | ⟨visits, some f⟩ => ⟨visits, some f⟩
    | ⟨visits, none⟩ => walkEach go rest visits

/-- Visit a node at the given depth, and what stands below it if its shape is to be
entered, after the visits made so far. -/
def walkFrom (a : Ast) (enters : Shape NodeId → Bool) :
    Nat → Nat → NodeId → Array Visit → Walk
  | 0, _, _, visits => ⟨visits, some (.arena .endless)⟩
  | fuel + 1, depth, id, visits =>
    match a.view id with
    | .error f => ⟨visits, some f⟩
    | .ok (_, shape) =>
      if enters shape then
        walkEach (a.walkFrom enters fuel (depth + 1)) shape.parts
          (visits.push ⟨depth, id, shape⟩)
      else
        ⟨visits.push ⟨depth, id, shape⟩, none⟩

/-- Visit a node and what stands below it, without going below shapes that are not
to be entered. -/
def walk (a : Ast) (enters : Shape NodeId → Bool) (id : NodeId) : Walk :=
  a.walkFrom enters (a.size + 1) 1 id #[]

end Ast

end LoxReader
