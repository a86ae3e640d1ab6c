/-
  `Proofs.Ast.Layout`: the arena in which an expression is laid out.

  The nodes of an expression stand together, those of a left operand before that of its
  operator and all others behind it.  So all their links can be told in advance, without
  a change to any node (`Expr.cells`), and laying out arrives at just these nodes,
  whatever moves it makes on its way (`Expr.layOut_eq`).
-/
import LoxReader.Ast.Layout
import LoxReader.Proofs.Arena.Extend

set_option autoImplicit false

namespace LoxReader

namespace Expr

/-! ## The nodes of an expression -/

/-- The number of nodes of an expression that stand before its own. -/
def lead : Expr → Nat
  | .binary _ _ left _ => left.size
  | _ => 0

/-- The nodes of an expression that starts at the index `first`, below the node `parent`
and between these neighbours. -/
def cells : Expr → Nat → NodeId → Option NodeId → Option NodeId → List (Node Entry)
  | .literal loc value, _, parent, prev, next =>
    [⟨⟨.literal value, loc⟩, some parent, prev, next, []⟩]
  | .group loc inner, first, parent, prev, next =>
    ⟨⟨.paren, loc⟩, some parent, prev, next, [first + 1 + inner.lead]⟩ ::
      inner.cells (first + 1) first none none
  | .unary loc op operand, first, parent, prev, next =>
    ⟨⟨.unary op, loc⟩, some parent, prev, next, [first + 1 + operand.lead]⟩ ::
      operand.cells (first + 1) first none none
  | .binary loc op left right, first, parent, prev, next =>
    let id := first + left.size
    left.cells first id none (some (id + 1 + right.lead)) ++
      ⟨⟨.binary op, loc⟩, some parent, prev, next, [first + left.lead, id + 1 + right.lead]⟩ ::
        right.cells (id + 1) id (some (first + left.lead)) none

@[simp] theorem length_cells (e : Expr) (first : Nat) (parent : NodeId)
    (prev next : Option NodeId) : (e.cells first parent prev next).length = e.size := by
  induction e generalizing first parent prev next with
  | literal loc value => rfl
  | group loc inner ih => simp [cells, size, ih]
  | unary loc op operand ih => simp [cells, size, ih]
  | binary loc op left right ihl ihr =>
      simp only [cells, size, List.length_append, List.length_cons, ihl, ihr]
      omega

theorem lead_lt_size (e : Expr) : e.lead < e.size := by
  cases e <;> simp only [lead, size] <;> omega

/-- The entry of an expression's own node. -/
def entry : Expr → Entry
  | .literal loc value => ⟨.literal value, loc⟩
  | .group loc _ => ⟨.paren, loc⟩
  | .unary loc op _ => ⟨.unary op, loc⟩
  | .binary loc op _ _ => ⟨.binary op, loc⟩

/-- The children of the own node of an expression that starts at the index `first`. -/
def kids (first : Nat) : Expr → List NodeId
  | .literal _ _ => []
  | .group _ inner => [first + 1 + inner.lead]
  | .unary _ _ operand => [first + 1 + operand.lead]
  | .binary _ _ left right => [first + left.lead, first + left.size + 1 + right.lead]

/-- The own node of an expression. -/
theorem getElem?_cells (e : Expr) (first : Nat) (parent : NodeId) (prev next : Option NodeId) :
    (e.cells first parent prev next)[e.lead]? =
      some ⟨e.entry, some parent, prev, next, e.kids first⟩ := by
  cases e with
  | binary loc op left right =>
      rw [cells, show (binary loc op left right).lead = left.size from rfl,
        List.getElem?_append_right (by simp)]
      simp [entry, kids]
  | _ => rfl

/-- The place of an expression concerns its own node only. -/
theorem modify_cells (e : Expr) {first : Nat} {parent parent' : NodeId}
    {prev next prev' next' : Option NodeId} {change : Node Entry → Node Entry}
    (h : ∀ value children, change ⟨value, some parent, prev, next, children⟩ =
      ⟨value, some parent', prev', next', children⟩) :
    (e.cells first parent prev next).modify e.lead change = e.cells first parent' prev' next' := by
  cases e with
  | binary loc op left right =>
      simp only [cells, lead]
      rw [modify_append_right _ _ _ (show left.size = _ + 0 by simp), List.modify_zero_cons, h]
  | literal loc value => simp [cells, lead, h]
  | group loc inner => simp [cells, lead, h]
  | unary loc op operand => simp [cells, lead, h]

end Expr

/-! ## Laying out -/

namespace Arena.Ready

variable {α : Type} {t : Arena α} {parent : NodeId}

/-- Nodes can be put below a new node. -/
theorem below (h : t.Ready parent) {ns : List (Node α)} {i : Nat} {n : Node α}
    (hn : ns[i]? = some n) (hparent : n.parent = some parent)
    (hlast : ∀ child, n.children.getLast? = some child →
      child < t.size + ns.length ∧ child ≠ t.size + i) :
    ((t.link parent (t.size + i)).extend ns).Ready (t.size + i) := by
  have hi : i < ns.length := (List.getElem?_eq_some_iff.mp hn).1
  have hnode : ((t.link parent (t.size + i)).extend ns).nodes[t.size + i]? = some n := by
    have hget := getElem?_extend (t.link parent (t.size + i)) ns i
    rwa [size_link, hn] at hget
  refine ⟨?_, ?_⟩
  · obtain ⟨more, hmore⟩ := Nat.exists_eq_succ_of_ne_zero (Nat.ne_zero_of_lt hi)
    rw [size_extend, size_link, hmore]
    refine ⟨n, hnode, ?_⟩
    intro parent' hparent'
    obtain rfl := Option.some.inj (hparent.symm.trans hparent')
    exact h.ascends.mono ((sameParents_link t _ _).trans (sameParents_extend _ _))
      (Nat.le_add_right _ _)
  · intro child hchild
    rw [size_extend, size_link]
    rw [lastOf, hnode] at hchild
    exact hlast child hchild

end Arena.Ready

namespace Expr

/-- A node that is laid out before its only part. -/
theorem layOut_only {inner : Expr} (value : Entry)
    (ih : ∀ {t : Arena Entry} {parent : NodeId}, t.Ready parent → inner.layOut t parent =
      .ok (t.size + inner.lead, (t.link parent (t.size + inner.lead)).extend
        (inner.cells t.size parent (t.lastOf parent) none)))
    {t : Arena Entry} {parent : NodeId} (h : t.Ready parent) :
    ∃ s, t.addChild parent value = .ok (t.size, s) ∧
      inner.layOut s t.size = .ok (t.size + 1 + inner.lead, (t.link parent t.size).extend
        (⟨value, some parent, t.lastOf parent, none, [t.size + 1 + inner.lead]⟩ ::
          inner.cells (t.size + 1) t.size none none)) := by
  have hready : ((t.link parent t.size).extend
      [⟨value, some parent, t.lastOf parent, none, []⟩]).Ready t.size :=
    h.below (i := 0) rfl rfl (by simp)
  have hid : t.size = (t.link parent t.size).size + 0 := (Arena.size_link t parent t.size).symm
  refine ⟨_, h.addChild_eq value, ?_⟩
  rw [ih hready, Arena.link_extend_nil hid rfl rfl, Arena.lastOf_extend hid rfl,
    Arena.extend_extend]
  simp

theorem getElem?_concat_cells (e : Expr) (first : Nat) (parent : NodeId)
    (prev next : Option NodeId) (n : Node Entry) :
    (e.cells first parent prev next ++ [n])[e.size]? = some n := by
  rw [List.getElem?_append_right (by simp)]
  simp

/-- More can be put below a node whose first part was laid out before it. -/
theorem ready_concat (first : Expr) {t : Arena Entry} {parent : NodeId} (h : t.Ready parent)
    (value : Entry) :
    ((t.link parent (t.size + first.size)).extend
      (first.cells t.size (t.size + first.size) none none ++
        [⟨value, some parent, t.lastOf parent, none, [t.size + first.lead]⟩])).Ready
          (t.size + first.size) := by
  have hlead := first.lead_lt_size
  refine h.below (first.getElem?_concat_cells _ _ _ _ _) rfl ?_
  intro child hchild
  obtain rfl : t.size + first.lead = child := Option.some.inj hchild
  rw [List.length_append, length_cells]
  exact ⟨Nat.add_lt_add_left (Nat.lt_succ_of_lt hlead) _,
    Nat.ne_of_lt (Nat.add_lt_add_left hlead _)⟩

/-- An expression is laid out behind the last child of a node. -/
theorem layOut_eq (e : Expr) {t : Arena Entry} {parent : NodeId} (h : t.Ready parent) :
    e.layOut t parent = .ok (t.size + e.lead, (t.link parent (t.size + e.lead)).extend
      (e.cells t.size parent (t.lastOf parent) none)) := by
  induction e generalizing t parent with
  | literal loc value => exact h.addChild_eq _
  | group loc inner ih =>
      obtain ⟨s, hadd, hinner⟩ := layOut_only ⟨.paren, loc⟩ ih h
      simp only [layOut, hadd, hinner]
      rfl
  | unary loc op operand ih =>
      obtain ⟨s, hadd, hinner⟩ := layOut_only ⟨.unary op, loc⟩ ih h
      simp only [layOut, hadd, hinner]
      rfl
  | binary loc op left right ihl ihr =>
      have hcell := left.getElem?_cells t.size parent (t.lastOf parent) none
      obtain ⟨s, hadd, hadopt⟩ := h.addChild_adopt hcell rfl rfl ⟨.binary op, loc⟩
      rw [length_cells] at hadd hadopt
      rw [left.modify_cells fun _ _ => rfl] at hadopt
      have hlead := left.lead_lt_size
      have hnode := left.getElem?_concat_cells t.size (t.size + left.size) none none
        ⟨⟨.binary op, loc⟩, some parent, t.lastOf parent, none, [t.size + left.lead]⟩
      have hready := left.ready_concat h ⟨.binary op, loc⟩
      have hid : t.size + left.size = (t.link parent (t.size + left.size)).size + left.size := by
        rw [Arena.size_link]
      have hkid : t.size + left.lead = (t.link parent (t.size + left.size)).size + left.lead := by
        rw [Arena.size_link]
      simp only [layOut, ihl h, hadd, hadopt, ihr hready]
      rw [Arena.link_extend_cons hid hnode rfl hkid, Arena.lastOf_extend hid hnode,
        Arena.extend_extend, modify_append_left _ (by simpa using hlead),
        left.modify_cells fun _ _ => rfl, modify_append_right _ _ _ (k := 0) (by simp)]
      simp only [Arena.size_extend, Arena.size_link, List.length_append, length_cells,
        List.length_singleton, List.modify_zero_cons, List.append_assoc, List.singleton_append]
      rfl

end Expr

/-! ## Whole expressions -/

/-- The arena of an expression below a top node that stands at `loc`. -/
def Expr.arena (loc : Location) (e : Expr) : Arena Entry :=
  ⟨(⟨⟨.root, loc⟩, none, none, none, [1 + e.lead]⟩ :: e.cells 1 0 none none).toArray, some 0⟩

/-- What holds an expression below its top node is read as doing so. -/
theorem Ast.exists_ofArena {t : Arena Entry} {root expr : NodeId} {n : Node Entry}
    (hroot : t.root = some root) (hn : t.nodes[root]? = some n) (hform : n.value.form = .root)
    (hchildren : n.children = [expr]) :
    ∃ a, Ast.ofArena t root expr = .ok a ∧ a.arena = t ∧ a.root = root ∧ a.expr = expr := by
  refine ⟨⟨t, root, expr, hroot, n, hn, hform, hchildren⟩, ?_, rfl, rfl, rfl⟩
  rw [ofArena, dif_pos hroot]
  split
  · rename_i hnone
    simp [hn] at hnone
  · rename_i n' hn'
    obtain rfl : n = n' := Option.some.inj (hn.symm.trans hn')
    rw [dif_pos hform, dif_pos hchildren]

/-- Nodes can be put below a node that is alone. -/
theorem Arena.ready_top {α : Type} (value : α) :
    (⟨#[⟨value, none, none, none, []⟩], some 0⟩ : Arena α).Ready 0 :=
  ⟨⟨_, rfl, fun parent h => by cases h⟩, fun id h => by cases h⟩

/-- Every expression has its arena. -/
theorem Ast.exists_ofExpr (loc : Location) (e : Expr) :
    ∃ a, Ast.ofExpr loc e = .ok a ∧ a.arena = e.arena loc ∧ a.root = 0 ∧
      a.expr = 1 + e.lead := by
  have hready := Arena.ready_top (⟨.root, loc⟩ : Entry)
  have hlayout : e.layOut ⟨#[⟨⟨.root, loc⟩, none, none, none, []⟩], some 0⟩ 0 =
      .ok (1 + e.lead, e.arena loc) := by
    rw [e.layOut_eq hready]
    simp [Expr.arena, Arena.link, Arena.lastOf, Arena.updateAt, Arena.update, Arena.extend,
      Arena.size]
  obtain ⟨a, ha, hfields⟩ := exists_ofArena (t := e.arena loc) rfl rfl rfl rfl
  refine ⟨a, ?_, hfields⟩
  have hadd : Arena.empty.addRoot (⟨.root, loc⟩ : Entry) =
      (0, ⟨#[⟨⟨.root, loc⟩, none, none, none, []⟩], some 0⟩) := rfl
  rw [ofExpr, hadd]
  simp only [hlayout, ha]

/-- All nodes of an arena belong to its expression, but for the top. -/
theorem Expr.size_arena (loc : Location) (e : Expr) : (e.arena loc).size = e.size + 1 := by
  simp [Expr.arena, Arena.size]

end LoxReader
