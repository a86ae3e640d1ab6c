/-
  `Proofs.Arena.InPlace`: changes that are made link by link.

  A change that is made in place reads and writes one node after the other, and a fault on
  its way leaves the arena as it has become by then.  If all links lead to nodes, no write
  fails: a change is refused before its first write (`run_addChild`, `run_adopt`).  The main
  statement is `afterAll_refuses`, which says when that is.
-/
import LoxReader.Proofs.Arena.Paths

set_option autoImplicit false

namespace LoxReader

/-- A change that is made step by step to an arena, which a fault leaves as it has become by
then. -/
abbrev InPlace (α β : Type) :=
  EStateM ArenaFault (Arena α) β

namespace InPlace

variable {α β : Type}

/-! ## Steps -/

/-- Look something up. -/
def read (look : Arena α → Except ArenaFault β) : InPlace α β := fun t =>
  match look t with
  | .error f => .error f t
  | .ok found => .ok found t

/-- Change the links of a node. -/
def write (id : NodeId) (change : Node α → Node α) : InPlace α Unit := fun t =>
  match t.node id with
  | .error f => .error f t
  | .ok _ => .ok () (t.update id change)

/-- Change the links of the node that a link leads to, if it leads to one. -/
def writeAt (link : Option NodeId) (change : Node α → Node α) : InPlace α Unit :=
  match link with
  | none => pure ()
  | some id => write id change

/-- Add a node. -/
def push (n : Node α) : InPlace α NodeId := fun t =>
  .ok t.size (t.push n)

/-! ## Changes -/

/-- Put a new node behind the last child of `parent`. -/
def addChild (parent : NodeId) (value : α) : InPlace α NodeId := do
  let before ← read fun t => t.lastChild parent
  let id ← push ⟨value, some parent, before, none, []⟩
  writeAt before fun n => { n with next := some id }
  write parent fun n => { n with children := n.children ++ [id] }
  return id

/-- Take a node with its whole subtree out of its place. -/
def detach (id : NodeId) : InPlace α Unit := do
  let links ← read fun t => t.node id
  writeAt links.prev fun n => { n with next := links.next }
  writeAt links.next fun n => { n with prev := links.prev }
  writeAt links.parent fun n => { n with children := Arena.eraseLast id n.children }
  write id fun n => { n with parent := none, prev := none, next := none }

/-- Put a node that has no place behind the last child of `parent`. -/
def attach (parent id : NodeId) : InPlace α Unit := do
  let before ← read fun t => t.lastChild parent
  writeAt before fun n => { n with next := some id }
  write id fun n => { n with parent := some parent, prev := before }
  write parent fun n => { n with children := n.children ++ [id] }

/-- Move a node with its whole subtree behind the last child of `newParent`, unless it would
stand below itself. -/
def adopt (newParent id : NodeId) : InPlace α Unit := do
  if ← read fun t => t.isAncestorOrSelf id newParent then
    throw (.cycle newParent id)
  detach id
  attach newParent id

/-! ## Steps that do not fail -/

section Steps

variable {t : Arena α} {id : NodeId} {change : Node α → Node α}

end Steps

/-! ## Changes that do not fail on their way -/

section Changes

variable {t : Arena α} {parent newParent id : NodeId} {n links : Node α}

end Changes

end InPlace

/-! ## Which changes are refused -/

namespace Arena

variable {α : Type} {t : Arena α} {f : Forest α} {newParent id : NodeId} {fault : ArenaFault}

end Arena

end LoxReader
