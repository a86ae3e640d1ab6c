/-
  `Arena.Links`: checking that the links of an arena agree.

  A node is checked against the nodes that it lists and against the one that lists
  it.  The first disagreement is reported, in the order of the nodes.
-/
import LoxReader.Arena.Basic

set_option autoImplicit false

namespace LoxReader

/-- Which of its two neighbours a node names. -/
inductive SiblingLink where
  | prev
  | next
deriving DecidableEq

/-- The link as a word. -/
def SiblingLink.name : SiblingLink → String
  | .prev => "prev"
  | .next => "next"

/-- How the links of an arena disagree. -/
inductive LinkFault where
  /-- A node lists a child that names another parent. -/
  | parentMismatch (parent child : NodeId) (actual : Option NodeId)
  /-- A node names a neighbour other than the list it stands in. -/
  | siblingMismatch (node : NodeId) (link : SiblingLink) (actual expected : Option NodeId)
  /-- A node names a parent that does not list it. -/
  | missingFromParent (node parent : NodeId)
  /-- A node without a parent is not the top. -/
  | orphan (node : NodeId) (root : Option NodeId)
  /-- A link leads to no node. -/
  | dangling (e : OutOfRange)
deriving DecidableEq

/-- A link as it is named in messages. -/
def linkText : Option NodeId → String
  | some id => s!"Some({id})"
  | none => "None"

/-- The disagreement in words. -/
def LinkFault.message : LinkFault → String
  | .parentMismatch parent child actual =>
    s!"node {child} is listed under {parent} but its parent link is {linkText actual}"
  | .siblingMismatch node link actual expected =>
    s!"node {node} has {link.name} link {linkText actual}, expected {linkText expected}"
  | .missingFromParent node parent =>
    s!"node {node} names {parent} as parent but is missing from its child list"
  | .orphan node root => s!"node {node} has no parent but the root is {linkText root}"
  | .dangling e => e.message

namespace Arena

variable {α : Type}

/-- Check one link of a node to a neighbour. -/
def checkSibling (id : NodeId) (link : SiblingLink) (actual expected : Option NodeId) :
    Except LinkFault Unit :=
  if actual = expected then .ok () else .error (.siblingMismatch id link actual expected)

/-- Check the children that a node lists, the first of which stands behind
`before`. -/
def checkChildren (t : Arena α) (parent : NodeId) :
    Option NodeId → List NodeId → Except LinkFault Unit
  | _, [] => .ok ()
  | before, child :: rest =>
    match tableGet t.nodes child with
    | .error e => .error (.dangling e)
    | .ok n =>
      if n.parent ≠ some parent then
        .error (.parentMismatch parent child n.parent)
      else
        match checkSibling child .prev n.prev before with
        | .error f => .error f
        | .ok () =>
          match checkSibling child .next n.next rest.head? with
          | .error f => .error f
          | .ok () => t.checkChildren parent (some child) rest

/-- Check that a node stands where it says: in the list of its parent, or alone at
the top. -/
def checkPlace (t : Arena α) (id : NodeId) (n : Node α) : Except LinkFault Unit :=
  match n.parent with
  | some parent =>
    match tableGet t.nodes parent with
    | .error e => .error (.dangling e)
    | .ok p => if id ∈ p.children then .ok () else .error (.missingFromParent id parent)
  | none =>
    if t.root ≠ some id then
      .error (.orphan id t.root)
    else
      match checkSibling id .prev n.prev none with
      | .error f => .error f
      | .ok () => checkSibling id .next n.next none

/-- Check nodes that stand one behind the other in the arena, the first of which
has the index `id`. -/
def checkFrom (t : Arena α) : NodeId → List (Node α) → Except LinkFault Unit
  | _, [] => .ok ()
  | id, n :: rest =>
    match t.checkChildren id none n.children with
    | .error f => .error f
    | .ok () =>
      match t.checkPlace id n with
      | .error f => .error f
      | .ok () => t.checkFrom (id + 1) rest

/-- Check that all links agree. -/
def checkLinks (t : Arena α) : Except LinkFault Unit :=
  t.checkFrom 0 t.nodes.toList

end Arena

end LoxReader
