/-
  `Arena.Walk`: ways through a tree along the links of its nodes.

  Every walk counts its steps and gives up with the fault `endless` after more
  steps than there are nodes, so that it ends on any arena; on a tree it never gives
  up.
-/
import LoxReader.Arena.Basic

set_option autoImplicit false

namespace LoxReader.Arena

variable {α : Type}

/-! ## Among siblings -/

/-- The node that is `count` neighbours after the one a link leads to. -/
def follow (t : Arena α) : Nat → Option NodeId → Except ArenaFault (Option NodeId)
  | 0, link => .ok link
  | _ + 1, none => .ok none
  | count + 1, some id =>
    match t.node id with
    | .error f => .error f
    | .ok n => t.follow count n.next

/-- The child with the given index, found from neighbour to neighbour. -/
def child (t : Arena α) (id : NodeId) (index : Nat) : Except ArenaFault (Option NodeId) :=
  match t.firstChild id with
  | .error f => .error f
  | .ok first => t.follow index first

/-- The nodes `seen`, last first, and then those from a link on, from neighbour to
neighbour. -/
def chainFrom (t : Arena α) (seen : List NodeId) :
    Nat → Option NodeId → Except ArenaFault (List NodeId)
  | _, none => .ok seen.reverse
  | 0, some _ => .error .endless
  | fuel + 1, some id =>
    match t.node id with
    | .error f => .error f
    | .ok n => t.chainFrom (id :: seen) fuel n.next

/-- The children of a node, found from neighbour to neighbour. -/
def siblingChain (t : Arena α) (id : NodeId) : Except ArenaFault (List NodeId) :=
  match t.firstChild id with
  | .error f => .error f
  | .ok first => t.chainFrom [] t.size first

/-! ## Upwards -/

/-- The number of nodes above a node, added to `count`. -/
def depthFrom (t : Arena α) (count : Nat) : Nat → NodeId → Except ArenaFault Nat
  | 0, _ => .error .endless
  | fuel + 1, id =>
    match t.node id with
    | .error f => .error f
    | .ok n =>
      match n.parent with
      | none => .ok count
      | some parent => t.depthFrom (count + 1) fuel parent

/-- The number of nodes above a node. -/
def depth (t : Arena α) (id : NodeId) : Except ArenaFault Nat :=
  t.depthFrom 0 (t.size + 1) id

/-! ## Depth first -/

/-- The next neighbour of the node, or of the nearest node above it that has one. -/
def nextAbove (t : Arena α) : Nat → NodeId → Except ArenaFault (Option NodeId)
  | 0, _ => .error .endless
  | fuel + 1, id =>
    match t.node id with
    | .error f => .error f
    | .ok n =>
      match n.next, n.parent with
      | some next, _ => .ok (some next)
      | none, some parent => t.nextAbove fuel parent
      | none, none => .ok none

/-- The node that is visited after this one when every node comes before its
children and its children come in order. -/
def nextPreorder (t : Arena α) (id : NodeId) : Except ArenaFault (Option NodeId) :=
  match t.firstChild id with
  | .error f => .error f
  | .ok (some first) => .ok (some first)
  | .ok none => t.nextAbove (t.size + 1) id

/-- The nodes `seen`, last first, and then those from a link on in depth-first
order. -/
def preorderFrom (t : Arena α) (seen : List NodeId) :
    Nat → Option NodeId → Except ArenaFault (List NodeId)
  | _, none => .ok seen.reverse
  | 0, some _ => .error .endless
  | fuel + 1, some id =>
    match t.nextPreorder id with
    | .error f => .error f
    | .ok next => t.preorderFrom (id :: seen) fuel next

/-- All nodes of the tree in depth-first order, from the top. -/
def preorder (t : Arena α) : Except ArenaFault (List NodeId) :=
  t.preorderFrom [] t.size t.root

end LoxReader.Arena
