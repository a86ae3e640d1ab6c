/-
  `Proofs.Ast.Order`: the order in which the nodes of an expression stand in their arena.

  The slots are in the order of the source.  So what stands below the left operand of a
  node has smaller indices than the node, and everything else below it greater ones.
-/
import LoxReader.Proofs.Arena.Paths
import LoxReader.Proofs.Ast.Reading
import LoxReader.Proofs.Expr.Order

set_option autoImplicit false

namespace LoxReader

/-! ## Below a node -/

/-- The indices below a node lie around its own as the source has it: a node with two
operands stands between them, and any other node before all that is below it. -/
structure Arena.Ordered (t : Arena Entry) (id : NodeId) (n : Node Entry) : Prop where
  between : ∀ op, n.value.form = .binary op → ∃ left right, n.children = [left, right] ∧
    (∀ other, t.Below left other → other < id) ∧ ∀ other, t.Below right other → id < other
  before : (∀ op, n.value.form ≠ .binary op) →
    ∀ child ∈ n.children, ∀ other, t.Below child other → id < other

namespace Expr

variable {t : Arena Entry} {first : Nat} {parent : NodeId} {prev next : Option NodeId}

/-- The entries of the nodes in their slots are those of the expression from the left to the
right. -/
theorem map_value_cells (e : Expr) (first : Nat) (parent : NodeId) (prev next : Option NodeId) :
    (e.cells first parent prev next).map Node.value = e.entries := by
  induction e generalizing first parent prev next with
  | literal loc value => rfl
  | group loc inner ih => rw [cells, List.map_cons, ih, entries]
  | unary loc op operand ih => rw [cells, List.map_cons, ih, entries]
  | binary loc op left right ihl ihr =>
      rw [cells, List.map_append, List.map_cons, ihl, ihr, entries]

/-- The slots of an expression with two operands are those of the left operand, its own and
those of the right operand. -/
theorem stores_binary {loc : Location} {op : BinaryOp} {left right : Expr}
    (h : t.Stores first ((binary loc op left right).cells first parent prev next)) :
    t.Stores first (left.cells first (first + left.size) none
        (some (first + left.size + 1 + right.lead))) ∧
      t.nodes[first + left.size]? = some ⟨⟨.binary op, loc⟩, some parent, prev, next,
        [first + left.lead, first + left.size + 1 + right.lead]⟩ ∧
        t.Stores (first + left.size + 1) (right.cells (first + left.size + 1)
          (first + left.size) (some (first + left.lead)) none) := by
  have hright := Arena.Stores.right h
  rw [length_cells] at hright
  exact ⟨Arena.Stores.left h, hright.head, hright.tail⟩

/-- Below a node with one part stand the node and the slots of the part. -/
theorem below_bounds_only (inner : Expr) {n : Node Entry} (hn : t.nodes[first]? = some n)
    (hchildren : n.children = [first + 1 + inner.lead])
    (ih : ∀ {other : Nat}, t.Below (first + 1 + inner.lead) other →
      first + 1 ≤ other ∧ other < first + 1 + inner.size)
    {other : Nat} (hbelow : t.Below first other) :
    first ≤ other ∧ other < first + (inner.size + 1) := by
  rcases hbelow.eq_or_exists hn with rfl | ⟨child, hchild, hother⟩
  · exact ⟨Nat.le_refl _, Nat.lt_add_of_pos_right (Nat.succ_pos _)⟩
  · rw [hchildren, List.mem_singleton] at hchild
    subst hchild
    have hinner := ih hother
    omega

/-- Below an expression stand its own slots only. -/
theorem below_bounds (e : Expr) (h : t.Stores first (e.cells first parent prev next))
    {other : Nat} (hbelow : t.Below (first + e.lead) other) :
    first ≤ other ∧ other < first + e.size := by
  induction e generalizing first parent prev next other with
  | literal loc value =>
      rcases hbelow.eq_or_exists h.head with rfl | ⟨child, hchild, -⟩
      · exact ⟨Nat.le_refl _, Nat.lt_succ_self _⟩
      · cases hchild
  | group loc inner ih => exact inner.below_bounds_only h.head rfl (ih h.tail) hbelow
  | unary loc op operand ih => exact operand.below_bounds_only h.head rfl (ih h.tail) hbelow
  | binary loc op left right ihl ihr =>
      obtain ⟨hleft, hnode, hright⟩ := stores_binary h
      rw [size]
      rcases hbelow.eq_or_exists hnode with rfl | ⟨child, hchild, hother⟩
      · rw [lead]
        omega
      · simp only [List.mem_cons, List.not_mem_nil, or_false] at hchild
        rcases hchild with rfl | rfl
        · have hbounds := ihl hleft hother
          omega
        · have hbounds := ihr hright hother
          omega

/-- A node with one part lies before the slots of the part. -/
theorem ordered_only (inner : Expr) {value : Entry} {parent : Option NodeId}
    (hform : ∀ op, value.form ≠ .binary op)
    (h : t.Stores first (⟨value, parent, prev, next, [first + 1 + inner.lead]⟩ ::
      inner.cells (first + 1) first none none))
    (ih : ∀ {id : Nat} {n : Node Entry}, first + 1 ≤ id ∧ id < first + 1 + inner.size →
      t.nodes[id]? = some n → t.Ordered id n)
    {id : Nat} {n : Node Entry} (hid : first ≤ id ∧ id < first + (inner.size + 1))
    (hn : t.nodes[id]? = some n) : t.Ordered id n := by
  rcases Nat.eq_or_lt_of_le hid.1 with rfl | hlt
  · obtain rfl := Option.some.inj (h.head.symm.trans hn)
    refine ⟨fun op hop => absurd hop (hform op), fun _ child hchild other hother => ?_⟩
    obtain rfl := List.mem_singleton.mp hchild
    exact (inner.below_bounds h.tail hother).1
  · exact ih ⟨hlt, by omega⟩ hn

/-- Each slot of an expression lies between or before what stands below it. -/
theorem ordered_of_stores (e : Expr) (h : t.Stores first (e.cells first parent prev next))
    {id : Nat} {n : Node Entry} (hid : first ≤ id ∧ id < first + e.size)
    (hn : t.nodes[id]? = some n) : t.Ordered id n := by
  induction e generalizing first parent prev next id n with
  | literal loc value =>
      obtain rfl : id = first := Nat.le_antisymm (Nat.le_of_lt_succ hid.2) hid.1
      obtain rfl := Option.some.inj (h.head.symm.trans hn)
      exact ⟨fun op hop => (by cases hop), fun _ child hchild => (by cases hchild)⟩
  | group loc inner ih => exact inner.ordered_only (by simp) h (ih h.tail) hid hn
  | unary loc op operand ih => exact operand.ordered_only (by simp) h (ih h.tail) hid hn
  | binary loc op left right ihl ihr =>
      obtain ⟨hleft, hnode, hright⟩ := stores_binary h
      rw [size] at hid
      rcases Nat.lt_trichotomy id (first + left.size) with hlt | rfl | hgt
      · exact ihl hleft ⟨hid.1, hlt⟩ hn
      · obtain rfl := Option.some.inj (hnode.symm.trans hn)
        refine ⟨fun _ _ => ⟨_, _, rfl, fun other hother => ?_, fun other hother => ?_⟩,
          fun hnot => absurd rfl (hnot op)⟩
        · exact (left.below_bounds hleft hother).2
        · exact (right.below_bounds hright hother).1
      · exact ihr hright ⟨hgt, by omega⟩ hn

end Expr

/-! ## The whole arena -/

/-- The arena of an expression has the top node in its first slot, and then the nodes of the
expression from the left to the right. -/
theorem Expr.values_arena (loc : Location) (e : Expr) :
    (e.arena loc).nodes.toList.map Node.value = ⟨.root, loc⟩ :: e.entries := by
  rw [arena, List.map_cons, map_value_cells]

theorem Expr.ordered_arena (loc : Location) (e : Expr) {id : Nat} {n : Node Entry}
    (hn : (e.arena loc).nodes[id]? = some n) : (e.arena loc).Ordered id n := by
  have hstores := e.stores_arena loc
  have hlt : id < e.size + 1 := e.size_arena loc ▸ (Array.getElem?_eq_some_iff.mp hn).1
  exact e.ordered_only (by simp) hstores (e.ordered_of_stores hstores.tail)
    ⟨Nat.zero_le _, by omega⟩ hn

end LoxReader
