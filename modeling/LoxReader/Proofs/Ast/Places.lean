/-
  `Proofs.Ast.Places`: arenas of expressions that differ in places only.

  Such arenas agree slot by slot in everything but the places, and folding that does not
  look at places gives the same.
-/
import LoxReader.Proofs.Ast.Reading
import LoxReader.Proofs.Expr.Kinds

set_option autoImplicit false

namespace LoxReader

/-! ## Nodes without places -/

/-- A node without the place of its value. -/
def Node.placeless (n : Node Entry) : Node Form :=
  ⟨n.value.form, n.parent, n.prev, n.next, n.children⟩

/-- An arena without the places of its values, slot by slot. -/
def Arena.placeless (t : Arena Entry) : Arena Form :=
  ⟨t.nodes.map Node.placeless, t.root⟩

namespace Expr

@[simp] theorem size_bare (e : Expr) : e.bare.size = e.size := by
  induction e with
  | literal loc value => rfl
  | group loc inner ih => simp [bare, size, ih]
  | unary loc op operand ih => simp [bare, size, ih]
  | binary loc op left right ihl ihr => simp [bare, size, ihl, ihr]

@[simp] theorem lead_bare (e : Expr) : e.bare.lead = e.lead := by
  cases e <;> simp [bare, lead]

theorem placeless_cells_bare (e : Expr) (first : Nat) (parent : NodeId)
    (prev next : Option NodeId) :
    (e.bare.cells first parent prev next).map Node.placeless =
      (e.cells first parent prev next).map Node.placeless := by
  induction e generalizing first parent prev next with
  | literal loc value => rfl
  | group loc inner ih =>
      simp only [bare, cells, List.map_cons, ih, lead_bare]
      rfl
  | unary loc op operand ih =>
      simp only [bare, cells, List.map_cons, ih, lead_bare]
      rfl
  | binary loc op left right ihl ihr =>
      simp only [bare, cells, List.map_append, List.map_cons, ihl, ihr, lead_bare, size_bare]
      rfl

/-- The arenas of expressions that differ in places only are the same but for places. -/
theorem placeless_arena {e e' : Expr} (h : e'.bare = e.bare) (loc loc' : Location) :
    (e'.arena loc').placeless = (e.arena loc).placeless := by
  have hlead : e'.lead = e.lead := by
    rw [← lead_bare, h, lead_bare]
  have hcells := e'.placeless_cells_bare 1 0 none none
  rw [h, placeless_cells_bare] at hcells
  simp only [Arena.placeless, arena, List.map_toArray, List.map_cons, ← hcells, hlead]
  rfl

/-! ## Folding -/

/-- Folding that does not look at places does not change when they do. -/
theorem fold_bare {β : Type} {combine : Shape β → Except AstFault β} (e : Expr) :
    e.bare.fold (fun _ => combine) = e.fold fun _ => combine := by
  induction e with
  | literal loc value => rfl
  | group loc inner ih => simp only [bare, fold, ih]
  | unary loc op operand ih => simp only [bare, fold, ih]
  | binary loc op left right ihl ihr => simp only [bare, fold, ihl, ihr]

theorem fold_eq_of_bare {β : Type} {combine : Shape β → Except AstFault β} {e e' : Expr}
    (h : e'.bare = e.bare) : e'.fold (fun _ => combine) = e.fold fun _ => combine := by
  rw [← fold_bare e', h, fold_bare]

end Expr

end LoxReader
