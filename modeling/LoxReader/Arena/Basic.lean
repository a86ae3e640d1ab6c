/-
  `Arena.Basic`: ordered trees stored in one array.

  A node is named by its index, which never changes.  Nodes are linked both ways: a
  node lists its children in order, and each child names its parent and its two
  neighbours.  Nodes are only ever added and moved, and every change keeps all of
  these links in agreement.  A change that is refused changes nothing.
-/
import LoxReader.Table

set_option autoImplicit false

namespace LoxReader

/-- The index of a node in its arena. -/
abbrev NodeId := Nat

/-- A value and its links to other nodes of the arena. -/
structure Node (α : Type) where
  value : α
  parent : Option NodeId
  prev : Option NodeId
  next : Option NodeId
  children : List NodeId
deriving DecidableEq

/-- Nodes in the order in which they were added, and the one at the top. -/
structure Arena (α : Type) where
  nodes : Array (Node α)
  root : Option NodeId
deriving DecidableEq

/-- Why an arena cannot answer, or refuses a change. -/
inductive ArenaFault where
  /-- An index names no node. -/
  | outOfRange (e : OutOfRange)
  /-- A node would be moved below itself. -/
  | cycle (newParent node : NodeId)
  /-- The links lead round in a circle. -/
  | endless
deriving DecidableEq

/-- The fault in words. -/
def ArenaFault.message : ArenaFault → String
  | .outOfRange e => e.message
  | .cycle newParent node =>
    s!"make_parent(NodeId({newParent}), NodeId({node})) would create a cycle"
  | .endless => "the links of the tree do not end"

namespace Arena

variable {α : Type}

/-! ## Reading -/

/-- The arena without nodes. -/
def empty : Arena α :=
  ⟨#[], none⟩

/-- The number of nodes. -/
def size (t : Arena α) : Nat :=
  t.nodes.size

/-- Whether there are no nodes. -/
def isEmpty (t : Arena α) : Bool :=
  t.nodes.isEmpty

/-- The node with the given index. -/
def node (t : Arena α) (id : NodeId) : Except ArenaFault (Node α) :=
  match tableGet t.nodes id with
  | .error e => .error (.outOfRange e)
  | .ok n => .ok n

/-- The value of a node. -/
def value (t : Arena α) (id : NodeId) : Except ArenaFault α :=
  (t.node id).map Node.value

/-- The parent of a node. -/
def parent (t : Arena α) (id : NodeId) : Except ArenaFault (Option NodeId) :=
  (t.node id).map Node.parent

/-- The neighbour before a node. -/
def prevSibling (t : Arena α) (id : NodeId) : Except ArenaFault (Option NodeId) :=
  (t.node id).map Node.prev

/-- The neighbour after a node. -/
def nextSibling (t : Arena α) (id : NodeId) : Except ArenaFault (Option NodeId) :=
  (t.node id).map Node.next

/-- The children that a node lists, in order. -/
def childList (t : Arena α) (id : NodeId) : Except ArenaFault (List NodeId) :=
  (t.node id).map Node.children

/-- The first child of a node. -/
def firstChild (t : Arena α) (id : NodeId) : Except ArenaFault (Option NodeId) :=
  (t.node id).map (·.children.head?)

/-- The last child of a node. -/
def lastChild (t : Arena α) (id : NodeId) : Except ArenaFault (Option NodeId) :=
  (t.node id).map (·.children.getLast?)

/-- A node is found exactly at an index below the size. -/
theorem node_eq_ok_iff {t : Arena α} {id : NodeId} {n : Node α} :
    t.node id = .ok n ↔ t.nodes[id]? = some n := by
  unfold node
  split
  · rename_i e h
    have := (tableGet_eq_error_iff.mp h).1
    simp [this]
  · rename_i m h
    rw [tableGet_eq_ok_iff] at h
    simp [h]

/-- An index is refused exactly when it is past the end. -/
theorem node_eq_error_iff {t : Arena α} {id : NodeId} {f : ArenaFault} :
    t.node id = .error f ↔ t.size ≤ id ∧ f = .outOfRange ⟨t.size, id⟩ := by
  unfold node
  split
  · rename_i e h
    obtain ⟨hle, rfl⟩ := tableGet_eq_error_iff.mp h
    simp [size, hle, eq_comm]
  · rename_i m h
    rw [tableGet_eq_ok_iff] at h
    obtain ⟨hlt, -⟩ := Array.getElem?_eq_some_iff.mp h
    simp [size, Nat.not_le.mpr hlt]

/-- What is read off a node is read off the node with this index. -/
theorem map_node_eq_ok_iff {t : Arena α} {β : Type} {read : Node α → β} {id : NodeId} {b : β} :
    (t.node id).map read = .ok b ↔ ∃ n, t.nodes[id]? = some n ∧ read n = b := by
  cases hnode : t.node id with
  | error fault =>
      have hnone : ∀ n, t.nodes[id]? ≠ some n := fun n hn => by
        rw [node_eq_ok_iff.mpr hn] at hnode
        cases hnode
      simp [Except.map, hnone]
  | ok n =>
      rw [node_eq_ok_iff] at hnode
      simp [Except.map, hnode]

/-! ## Looking up the tree -/

/-- Whether `target` is the node or one that stands above it, looking at no more
than `fuel` nodes. -/
def meetsAbove (t : Arena α) (target : NodeId) : Nat → NodeId → Except ArenaFault Bool
  | 0, _ => .error .endless
  | fuel + 1, id =>
    if id = target then
      .ok true
    else
      match t.node id with
      | .error f => .error f
      | .ok n =>
        match n.parent with
        | none => .ok false
        | some parent => t.meetsAbove target fuel parent

/-- Whether a node is another node or stands above it. -/
def isAncestorOrSelf (t : Arena α) (ancestor id : NodeId) : Except ArenaFault Bool :=
  t.meetsAbove ancestor (t.size + 1) id

/-! ## Changing -/

/-- Change one node, if there is one with this index. -/
def update (t : Arena α) (id : NodeId) (change : Node α → Node α) : Arena α :=
  match t with
  | ⟨nodes, root⟩ => ⟨nodes.modify id change, root⟩

/-- Change the node that a link leads to, if it leads to one. -/
def updateAt (t : Arena α) (link : Option NodeId) (change : Node α → Node α) : Arena α :=
  match link with
  | none => t
  | some id => t.update id change

/-- Add a node that no other node is linked to yet. -/
def push (t : Arena α) (n : Node α) : Arena α :=
  match t with
  | ⟨nodes, root⟩ => ⟨nodes.push n, root⟩

/-- Put a new node above the whole tree. -/
def addRoot (t : Arena α) (value : α) : NodeId × Arena α :=
  match t with
  | ⟨nodes, root⟩ =>
    let id := nodes.size
    (id, (⟨nodes.push ⟨value, none, none, none, root.toList⟩, some id⟩ : Arena α).updateAt root
      fun n => { n with parent := some id })

/-- Put a new node behind the last child of `parent`. -/
def addChild (t : Arena α) (parent : NodeId) (value : α) :
    Except ArenaFault (NodeId × Arena α) :=
  match t.node parent with
  | .error f => .error f
  | .ok p =>
    let id := t.size
    let before := p.children.getLast?
    .ok (id, ((t.push ⟨value, some parent, before, none, []⟩).updateAt before
        fun n => { n with next := some id }).update parent
      fun n => { n with children := n.children ++ [id] })

/-- The list without the last occurrence of an entry. -/
def eraseLast (id : NodeId) (ids : List NodeId) : List NodeId :=
  (ids.reverse.erase id).reverse

/-- Take a node with its whole subtree out of its place; `links` are its links. -/
def detach (t : Arena α) (id : NodeId) (links : Node α) : Arena α :=
  (((t.updateAt links.prev fun n => { n with next := links.next }).updateAt links.next
      fun n => { n with prev := links.prev }).updateAt links.parent
      fun n => { n with children := eraseLast id n.children }).update id
      fun n => { n with parent := none, prev := none, next := none }

/-- Put a node that has no place behind the last child of `parent`. -/
def attach (t : Arena α) (parent id : NodeId) : Arena α :=
  let before := t.nodes[parent]?.bind (·.children.getLast?)
  ((t.updateAt before fun n => { n with next := some id }).update id
      fun n => { n with parent := some parent, prev := before }).update parent
      fun n => { n with children := n.children ++ [id] }

/-- Move a node with its whole subtree behind the last child of `newParent`.  A
node is never moved below itself. -/
def adopt (t : Arena α) (newParent id : NodeId) : Except ArenaFault (Arena α) :=
  match t.isAncestorOrSelf id newParent with
  | .error f => .error f
  | .ok true => .error (.cycle newParent id)
  | .ok false =>
    match t.node id with
    | .error f => .error f
    | .ok links => .ok ((t.detach id links).attach newParent id)

/-! ## The effect of a change on one node -/

theorem getElem?_update (t : Arena α) (id j : NodeId) (change : Node α → Node α) :
    (t.update id change).nodes[j]? =
      if id = j then t.nodes[j]?.map change else t.nodes[j]? := by
  cases t
  simp [update, Array.getElem?_modify]

@[simp] theorem size_update (t : Arena α) (id : NodeId) (change : Node α → Node α) :
    (t.update id change).size = t.size := by
  cases t
  simp [update, size]

@[simp] theorem root_update (t : Arena α) (id : NodeId) (change : Node α → Node α) :
    (t.update id change).root = t.root := by
  cases t
  rfl

theorem getElem?_updateAt (t : Arena α) (link : Option NodeId) (j : NodeId)
    (change : Node α → Node α) :
    (t.updateAt link change).nodes[j]? =
      if link = some j then t.nodes[j]?.map change else t.nodes[j]? := by
  cases link with
  | none => simp [updateAt]
  | some id => simp [updateAt, getElem?_update]

@[simp] theorem size_updateAt (t : Arena α) (link : Option NodeId) (change : Node α → Node α) :
    (t.updateAt link change).size = t.size := by
  cases link <;> simp [updateAt]

@[simp] theorem root_updateAt (t : Arena α) (link : Option NodeId) (change : Node α → Node α) :
    (t.updateAt link change).root = t.root := by
  cases link <;> simp [updateAt]

@[simp] theorem size_push (t : Arena α) (n : Node α) : (t.push n).size = t.size + 1 := by
  cases t
  simp [push, size]

@[simp] theorem root_push (t : Arena α) (n : Node α) : (t.push n).root = t.root := by
  cases t
  rfl

theorem getElem?_push (t : Arena α) (n : Node α) (j : NodeId) :
    (t.push n).nodes[j]? = if j = t.size then some n else t.nodes[j]? := by
  cases t
  simp only [push, size, Array.getElem?_push]
  rfl

/-- A new top node is the last of its arena. -/
@[simp] theorem fst_addRoot (t : Arena α) (value : α) : (t.addRoot value).1 = t.size := by
  cases t
  rfl

@[simp] theorem size_addRoot (t : Arena α) (value : α) :
    (t.addRoot value).2.size = t.size + 1 := by
  cases t
  simp only [addRoot, size_updateAt]
  simp [size]

/-- A new child is the last of its arena. -/
theorem size_of_addChild {t t' : Arena α} {parent id : NodeId} {value : α}
    (h : t.addChild parent value = .ok (id, t')) : id = t.size ∧ t'.size = t.size + 1 := by
  unfold addChild at h
  split at h
  · cases h
  · simp only [Except.ok.injEq, Prod.mk.injEq] at h
    obtain ⟨rfl, rfl⟩ := h
    simp

/-- Moving a node adds none. -/
theorem size_of_adopt {t t' : Arena α} {newParent id : NodeId}
    (h : t.adopt newParent id = .ok t') : t'.size = t.size := by
  unfold adopt at h
  split at h
  · cases h
  · cases h
  · split at h
    · cases h
    · simp only [Except.ok.injEq] at h
      subst h
      simp [attach, detach]

end Arena

end LoxReader
