/-
  `Proofs.Ast.Reading`: reading an expression from an arena.

  An arena holds an expression at a node if the node and those below it, found along the
  lists of children, are its parts.  Folding over such a node is folding over the
  expression.
-/
import LoxReader.Proofs.Ast.Layout

set_option autoImplicit false

namespace LoxReader

/-! ## Nodes in an arena -/

namespace Arena

variable {α : Type} {t : Arena α} {first : Nat}

/-- The nodes stand in the arena, one behind the other. -/
def Stores (t : Arena α) (first : Nat) (ns : List (Node α)) : Prop :=
  ∀ k < ns.length, t.nodes[first + k]? = ns[k]?

theorem Stores.head {n : Node α} {ns : List (Node α)} (h : t.Stores first (n :: ns)) :
    t.nodes[first]? = some n :=
  h 0 (Nat.succ_pos _)

theorem Stores.tail {n : Node α} {ns : List (Node α)} (h : t.Stores first (n :: ns)) :
    t.Stores (first + 1) ns := by
  intro k hk
  rw [Nat.add_assoc, Nat.add_comm 1 k]
  exact h (k + 1) (Nat.succ_lt_succ hk)

theorem Stores.left {ns ns' : List (Node α)} (h : t.Stores first (ns ++ ns')) :
    t.Stores first ns := by
  intro k hk
  rw [h k (by rw [List.length_append]; omega), List.getElem?_append_left hk]

theorem Stores.right {ns ns' : List (Node α)} (h : t.Stores first (ns ++ ns')) :
    t.Stores (first + ns.length) ns' := by
  intro k hk
  rw [Nat.add_assoc, h (ns.length + k) (by rw [List.length_append]; omega),
    List.getElem?_append_right (Nat.le_add_right _ _), Nat.add_sub_cancel_left]

end Arena

/-! ## Expressions in an arena -/

/-- The node with this index has this value and lists these children. -/
def Arena.Lists {α : Type} (t : Arena α) (id : NodeId) (value : α) (children : List NodeId) :
    Prop :=
  ∃ n, t.nodes[id]? = some n ∧ n.value = value ∧ n.children = children

/-- The node and those below it, along the lists of children, are the expression. -/
inductive Arena.Holds (t : Arena Entry) : NodeId → Expr → Prop
  | literal {id : NodeId} {loc : Location} {value : Literal} :
      t.Lists id ⟨.literal value, loc⟩ [] → t.Holds id (.literal loc value)
  | group {id child : NodeId} {loc : Location} {inner : Expr} :
      t.Lists id ⟨.paren, loc⟩ [child] → t.Holds child inner → t.Holds id (.group loc inner)
  | unary {id child : NodeId} {loc : Location} {op : UnaryOp} {operand : Expr} :
      t.Lists id ⟨.unary op, loc⟩ [child] → t.Holds child operand →
        t.Holds id (.unary loc op operand)
  | binary {id leftId rightId : NodeId} {loc : Location} {op : BinaryOp} {left right : Expr} :
      t.Lists id ⟨.binary op, loc⟩ [leftId, rightId] → t.Holds leftId left →
        t.Holds rightId right → t.Holds id (.binary loc op left right)

/-- The nodes of an expression hold it. -/
theorem Expr.holds_of_stores (e : Expr) {t : Arena Entry} {first : Nat} {parent : NodeId}
    {prev next : Option NodeId} (h : t.Stores first (e.cells first parent prev next)) :
    t.Holds (first + e.lead) e := by
  induction e generalizing first parent prev next with
  | literal loc value => exact .literal ⟨_, h.head, rfl, rfl⟩
  | group loc inner ih => exact .group ⟨_, h.head, rfl, rfl⟩ (ih h.tail)
  | unary loc op operand ih => exact .unary ⟨_, h.head, rfl, rfl⟩ (ih h.tail)
  | binary loc op left right ihl ihr =>
      have hright := Arena.Stores.right h
      rw [length_cells] at hright
      exact .binary ⟨_, hright.head, rfl, rfl⟩ (ihl (Arena.Stores.left h)) (ihr hright.tail)

/-- The arena of an expression is its top node and the nodes of the expression. -/
theorem Expr.stores_arena (loc : Location) (e : Expr) :
    (e.arena loc).Stores 0 (⟨⟨.root, loc⟩, none, none, none, [0 + 1 + e.lead]⟩ ::
      e.cells (0 + 1) 0 none none) := by
  intro k _
  rw [Nat.zero_add, arena, List.getElem?_toArray]

/-- The arena of an expression holds it. -/
theorem Expr.holds_arena (loc : Location) (e : Expr) : (e.arena loc).Holds (1 + e.lead) e :=
  e.holds_of_stores (e.stores_arena loc).tail

/-! ## Folding -/

namespace Expr

variable {β : Type}

/-- Combine the parts of an expression, from the literals up. -/
def fold (combine : Location → Shape β → Except AstFault β) : Expr → Except AstFault β
  | .literal loc value => combine loc (.literal value)
  | .group loc inner =>
    match inner.fold combine with
    | .error f => .error f
    | .ok inner => combine loc (.paren inner)
  | .unary loc op operand =>
    match operand.fold combine with
    | .error f => .error f
    | .ok operand => combine loc (.unary op operand)
  | .binary loc op left right =>
    match left.fold combine with
    | .error f => .error f
    | .ok left =>
      match right.fold combine with
      | .error f => .error f
      | .ok right => combine loc (.binary op left right)

end Expr

/-- What a node is viewed as that has this value and lists these children. -/
theorem Ast.view_of_lists {a : Ast} {id : NodeId} {value : Entry} {children : List NodeId}
    (h : a.arena.Lists id value children) :
    a.view id = (Ast.shapeOf id ⟨value, none, none, none, children⟩).map
      fun shape => (value.loc, shape) := by
  obtain ⟨n, hn, rfl, rfl⟩ := h
  rw [view, node, Arena.node_eq_ok_iff.mpr hn]
  rfl

/-- Folding over a node that holds an expression is folding over the expression. -/
theorem Ast.foldFrom_eq {β : Type} {a : Ast} (combine : Location → Shape β → Except AstFault β)
    {id : NodeId} {e : Expr} (h : a.arena.Holds id e) {fuel : Nat} (hfuel : e.size ≤ fuel) :
    a.foldFrom combine fuel id = e.fold combine := by
  induction h generalizing fuel with
  | @literal id loc value hlists =>
      have hview : a.view id = .ok (loc, .literal value) := view_of_lists hlists
      obtain ⟨fuel, rfl⟩ := Nat.exists_eq_add_of_le' (show 1 ≤ fuel from hfuel)
      simp only [foldFrom, hview, Shape.traverse, Expr.fold]
  | @group id child loc inner hlists _ ih =>
      have hview : a.view id = .ok (loc, .paren child) := view_of_lists hlists
      obtain ⟨fuel, rfl⟩ := Nat.exists_eq_add_of_le' (Nat.le_trans (Nat.le_add_left 1 _) hfuel)
      simp only [foldFrom, hview, Shape.traverse, Expr.fold,
        ih (Nat.le_of_succ_le_succ hfuel)]
      cases inner.fold combine <;> rfl
  | @unary id child loc op operand hlists _ ih =>
      have hview : a.view id = .ok (loc, .unary op child) := view_of_lists hlists
      obtain ⟨fuel, rfl⟩ := Nat.exists_eq_add_of_le' (Nat.le_trans (Nat.le_add_left 1 _) hfuel)
      simp only [foldFrom, hview, Shape.traverse, Expr.fold,
        ih (Nat.le_of_succ_le_succ hfuel)]
      cases operand.fold combine <;> rfl
  | @binary id leftId rightId loc op left right hlists _ _ ihl ihr =>
      have hview : a.view id = .ok (loc, .binary op leftId rightId) := view_of_lists hlists
      obtain ⟨fuel, rfl⟩ := Nat.exists_eq_add_of_le' (Nat.le_trans (Nat.le_add_left 1 _) hfuel)
      have hsize : left.size + right.size ≤ fuel := Nat.le_of_succ_le_succ hfuel
      have hleft : a.foldFrom combine fuel leftId = left.fold combine := ihl (by omega)
      have hright : a.foldFrom combine fuel rightId = right.fold combine := ihr (by omega)
      simp only [foldFrom, hview, Shape.traverse, Expr.fold, hleft, hright]
      cases left.fold combine with
      | error f => rfl
      | ok left => cases right.fold combine <;> rfl

/-- Folding over the top node is folding over the expression below it. -/
theorem Ast.foldAt_root {β : Type} {a : Ast}
    (combine : Location → Shape β → Except AstFault β) {loc : Location} {e : Expr}
    (hroot : a.arena.Lists a.root ⟨.root, loc⟩ [a.expr]) (h : a.arena.Holds a.expr e)
    (hsize : e.size ≤ a.size) :
    a.foldAt combine a.root =
      match e.fold combine with
      | .error f => .error f
      | .ok expr => combine loc (.root expr) := by
  have hview : a.view a.root = .ok (loc, .root a.expr) := view_of_lists hroot
  simp only [foldAt, foldFrom, hview, Shape.traverse, foldFrom_eq combine h hsize]
  cases e.fold combine <;> rfl

end LoxReader
