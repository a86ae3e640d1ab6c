/-
  `Proofs.Ast.Shapes`: every node of an expression has the operands that its form needs.

  So each node of its arena can be viewed, and folding over it fails only where combining
  does.
-/
import LoxReader.Proofs.Ast.Leaves

set_option autoImplicit false

namespace LoxReader

namespace Expr

/-- A node of an expression has as many children as its form needs, and its literal is one
of the expression. -/
theorem shapeOf_cells (e : Expr) {first : Nat} {parent : NodeId} {prev next : Option NodeId}
    {n : Node Entry} (hn : n ∈ e.cells first parent prev next) (id : NodeId) :
    ∃ shape, Ast.shapeOf id n = .ok shape ∧
      ∀ value, shape = .literal value → value ∈ e.literals := by
  induction e generalizing first parent prev next with
  | literal loc value =>
      obtain rfl := List.mem_singleton.mp hn
      refine ⟨.literal value, rfl, ?_⟩
      rintro _ ⟨rfl⟩
      exact List.mem_singleton_self value
  | group loc inner ih =>
      rcases List.mem_cons.mp hn with rfl | hinner
      · exact ⟨.paren _, rfl, fun value h => by cases h⟩
      · exact ih hinner
  | unary loc op operand ih =>
      rcases List.mem_cons.mp hn with rfl | hoperand
      · exact ⟨.unary op _, rfl, fun value h => by cases h⟩
      · exact ih hoperand
  | binary loc op left right ihl ihr =>
      rw [cells, List.mem_append, List.mem_cons] at hn
      rw [literals]
      rcases hn with hleft | rfl | hright
      · obtain ⟨shape, hshape, hliteral⟩ := ihl hleft
        exact ⟨shape, hshape, fun value h => List.mem_append_left _ (hliteral value h)⟩
      · exact ⟨.binary op _ _, rfl, fun value h => by cases h⟩
      · obtain ⟨shape, hshape, hliteral⟩ := ihr hright
        exact ⟨shape, hshape, fun value h => List.mem_append_right _ (hliteral value h)⟩

/-- Folding gives something if combining does, for the literals of the expression and for
all parts. -/
theorem exists_fold {β : Type} {combine : Location → Shape β → Except AstFault β} (e : Expr)
    (hliteral : ∀ loc, ∀ value ∈ e.literals, ∃ b, combine loc (.literal value) = .ok b)
    (hparts : ∀ loc shape, (∀ value, shape ≠ .literal value) → ∃ b, combine loc shape = .ok b) :
    ∃ b, e.fold combine = .ok b := by
  induction e with
  | literal loc value => exact hliteral loc value (List.mem_singleton_self value)
  | group loc inner ih =>
      obtain ⟨b, hb⟩ := ih hliteral
      simp only [fold, hb]
      exact hparts _ _ fun value h => by cases h
  | unary loc op operand ih =>
      obtain ⟨b, hb⟩ := ih hliteral
      simp only [fold, hb]
      exact hparts _ _ fun value h => by cases h
  | binary loc op left right ihl ihr =>
      obtain ⟨b, hb⟩ := ihl fun loc value h => hliteral loc value (List.mem_append_left _ h)
      obtain ⟨b', hb'⟩ := ihr fun loc value h => hliteral loc value (List.mem_append_right _ h)
      simp only [fold, hb, hb']
      exact hparts _ _ fun value h => by cases h

end Expr

/-- Every node of the arena of an expression can be viewed. -/
theorem Ast.exists_view {a : Ast} {e : Expr} {loc : Location} (harena : a.arena = e.arena loc)
    {id : Nat} (hid : id < a.size) :
    ∃ loc shape, a.view id = .ok (loc, shape) ∧
      ∀ value, shape = .literal value → value ∈ e.literals := by
  obtain ⟨n, hn⟩ : ∃ n, a.arena.nodes[id]? = some n := by
    rw [size, Arena.size] at hid
    exact ⟨_, Array.getElem?_eq_getElem hid⟩
  have hnode : a.node id = .ok n := by
    rw [node, Arena.node_eq_ok_iff.mpr hn]
  obtain ⟨shape, hshape, hliteral⟩ : ∃ shape, shapeOf id n = .ok shape ∧
      ∀ value, shape = .literal value → value ∈ e.literals := by
    have hmem := Array.mem_of_getElem? hn
    rw [harena, Expr.arena, List.mem_toArray] at hmem
    rcases List.mem_cons.mp hmem with rfl | hcell
    · exact ⟨.root _, rfl, fun value h => by cases h⟩
    · exact e.shapeOf_cells hcell id
  refine ⟨n.value.loc, shape, ?_, hliteral⟩
  simp only [view, hnode, hshape]
  rfl

end LoxReader
