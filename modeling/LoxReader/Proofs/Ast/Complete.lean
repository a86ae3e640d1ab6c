/-
  `Proofs.Ast.Complete`: arenas in which each node has the children that its form needs.

  An arena that was built by hand is the forest of its nodes.  If each of them has as many
  children as its form needs, and none but the top is of the form `root`, that forest is an
  expression (`Ast.Complete.exists_isTree`).  The arenas that parsing lays out are built in
  the same way and are complete.
-/
import LoxReader.Proofs.Arena.Paths
import LoxReader.Proofs.Ast.Order
import LoxReader.Proofs.Parse

set_option autoImplicit false

namespace LoxReader

/-- The number of children that a node of this form needs. -/
def Form.arity : Form → Nat
  | .root => 1
  | .binary _ => 2
  | .paren => 1
  | .literal _ => 0
  | .unary _ => 1

/-- Every node has as many children as its form needs, and the form `root` stands at the
top only. -/
structure Ast.Complete (a : Ast) : Prop where
  arity : ∀ (id : NodeId) (n : Node Entry), a.arena.nodes[id]? = some n →
    n.children.length = n.value.form.arity
  top : ∀ (id : NodeId) (n : Node Entry), a.arena.nodes[id]? = some n →
    n.value.form = .root → id = a.root

/-- What can be decided of each node can be decided of all nodes. -/
instance Arena.decidableForallNode {α : Type} (t : Arena α) (P : NodeId → Node α → Prop)
    [∀ id n, Decidable (P id n)] :
    Decidable (∀ (id : NodeId) (n : Node α), t.nodes[id]? = some n → P id n) :=
  decidable_of_iff (∀ id : Fin t.nodes.size, P id t.nodes[id]) (by
    constructor
    · intro h id n hn
      obtain ⟨hid, rfl⟩ := Array.getElem?_eq_some_iff.mp hn
      exact h ⟨id, hid⟩
    · exact fun h id => h id _ (Array.getElem?_eq_getElem id.isLt))

instance (a : Ast) : Decidable a.Complete :=
  decidable_of_iff
    ((∀ (id : NodeId) (n : Node Entry), a.arena.nodes[id]? = some n →
        n.children.length = n.value.form.arity) ∧
      ∀ (id : NodeId) (n : Node Entry), a.arena.nodes[id]? = some n →
        n.value.form = .root → id = a.root)
    ⟨fun h => ⟨h.1, h.2⟩, fun h => ⟨h.arity, h.top⟩⟩

/-- What is in one of two related lists is related to something in the other. -/
theorem exists_of_mem_forall₂ {α β : Type} {R : α → β → Prop} {as : List α} {bs : List β}
    (h : List.Forall₂ R as bs) {a : α} (ha : a ∈ as) : ∃ b ∈ bs, R a b := by
  induction h with
  | nil => cases ha
  | cons hfirst _ ih =>
      rcases List.mem_cons.mp ha with rfl | hrest
      · exact ⟨_, List.mem_cons_self, hfirst⟩
      · obtain ⟨b, hb, hab⟩ := ih hrest
        exact ⟨b, List.mem_cons_of_mem _ hb, hab⟩

/-- The number of nodes of several expressions. -/
def Expr.sizes : List Expr → Nat
  | [] => 0
  | e :: es => e.size + sizes es

/-- The operands of an expression. -/
def Expr.operands : Expr → List Expr
  | .literal _ _ => []
  | .group _ inner => [inner]
  | .unary _ _ operand => [operand]
  | .binary _ _ left right => [left, right]

namespace Arena

variable {t t' : Arena Entry} {id other : NodeId} {n : Node Entry}

/-! ## From forests to expressions -/

theorem Reachable.exists_depicts {α : Type} {t : Arena α} (h : t.Reachable) :
    ∃ f, t.Depicts f := by
  obtain ⟨edits, rfl⟩ := h
  exact ⟨_, depicts_empty.afterAll edits⟩

/-- A node with as many children as its form needs holds an expression if they do. -/
theorem exists_holds (hn : t.nodes[id]? = some n)
    (harity : n.children.length = n.value.form.arity) (hform : n.value.form ≠ .root)
    {es : List Expr} (hes : List.Forall₂ t.Holds n.children es) :
    ∃ e, t.Holds id e ∧ e.size = Expr.sizes es + 1 := by
  obtain ⟨⟨form, loc⟩, parent, prev, next, children⟩ := n
  have hparts : List.Forall₂ t.Holds children es := hes
  cases form with
  | root => exact absurd rfl hform
  | binary op =>
      obtain ⟨leftId, rightId, rfl⟩ := List.length_eq_two.mp harity
      obtain ⟨left, _, hleft, hrest, rfl⟩ := List.forall₂_cons_left_iff.mp hparts
      obtain ⟨right, _, hright, hnil, rfl⟩ := List.forall₂_cons_left_iff.mp hrest
      cases hnil
      exact ⟨.binary loc op left right, .binary ⟨_, hn, rfl, rfl⟩ hleft hright,
        by simp [Expr.size, Expr.sizes]⟩
  | paren =>
      obtain ⟨child, rfl⟩ := List.length_eq_one_iff.mp harity
      obtain ⟨inner, _, hinner, hnil, rfl⟩ := List.forall₂_cons_left_iff.mp hparts
      cases hnil
      exact ⟨.group loc inner, .group ⟨_, hn, rfl, rfl⟩ hinner, by simp [Expr.size, Expr.sizes]⟩
  | literal value =>
      obtain rfl := List.length_eq_zero_iff.mp harity
      cases hparts
      exact ⟨.literal loc value, .literal ⟨_, hn, rfl, rfl⟩, rfl⟩
  | unary op =>
      obtain ⟨child, rfl⟩ := List.length_eq_one_iff.mp harity
      obtain ⟨operand, _, hoperand, hnil, rfl⟩ := List.forall₂_cons_left_iff.mp hparts
      cases hnil
      exact ⟨.unary loc op operand, .unary ⟨_, hn, rfl, rfl⟩ hoperand,
        by simp [Expr.size, Expr.sizes]⟩

/-- A forest of nodes that have as many children as their forms need is expressions, one for
each top node, with a part for each node. -/
theorem Shows.exists_forall₂_holds {f : Forest Entry} (h : t.Shows f)
    (hnodes : ∀ id ∈ f.ids, ∀ n, t.nodes[id]? = some n →
      n.children.length = n.value.form.arity ∧ n.value.form ≠ .root) :
    ∃ es, List.Forall₂ t.Holds f.roots es ∧ Expr.sizes es = f.ids.length := by
  induction f with
  | nil => exact ⟨[], .nil, rfl⟩
  | cons id value below rest ihb ihr =>
      obtain ⟨⟨n, hn, -, hchildren⟩, hbelow, hrest⟩ := h
      obtain ⟨hfirst, hmore⟩ := List.forall_mem_cons.mp hnodes
      obtain ⟨inner, hinner, hsum⟩ :=
        ihb hbelow fun id hid => hmore id (List.mem_append_left _ hid)
      obtain ⟨es, hes, hsum'⟩ := ihr hrest fun id hid => hmore id (List.mem_append_right _ hid)
      obtain ⟨harity, hform⟩ := hfirst n hn
      obtain ⟨e, he, hsize⟩ := exists_holds hn harity hform (hchildren ▸ hinner)
      refine ⟨e :: es, .cons he hes, ?_⟩
      rw [Expr.sizes, hsize, hsum, hsum', Forest.ids, List.length_cons, List.length_append]
      omega

/-! ## Below an expression -/

namespace Holds

variable {e : Expr}

/-- A node that holds an expression has its entry, and its children hold the operands. -/
theorem node (h : t.Holds id e) (hn : t.nodes[id]? = some n) :
    n.value = e.entry ∧ List.Forall₂ t.Holds n.children e.operands := by
  obtain ⟨children, hchildren, hholds⟩ : ∃ children, t.Lists id e.entry children ∧
      List.Forall₂ t.Holds children e.operands := by
    cases h with
    | literal hlists => exact ⟨_, hlists, .nil⟩
    | group hlists hinner => exact ⟨_, hlists, .cons hinner .nil⟩
    | unary hlists hoperand => exact ⟨_, hlists, .cons hoperand .nil⟩
    | binary hlists hleft hright => exact ⟨_, hlists, .cons hleft (.cons hright .nil)⟩
  obtain ⟨m, hm, hvalue, rfl⟩ := hchildren
  obtain rfl := Option.some.inj (hm.symm.trans hn)
  exact ⟨hvalue, hholds⟩

/-- What stands below a node that holds an expression holds a part of it. -/
theorem exists_of_below (h : t.Holds id e) (hbelow : t.Below id other) :
    ∃ e', t.Holds other e' := by
  induction hbelow generalizing e with
  | self => exact ⟨e, h⟩
  | child hn hchild _ ih =>
      obtain ⟨operand, -, hoperand⟩ := exists_of_mem_forall₂ (h.node hn).2 hchild
      exact ih hoperand

/-- A node that holds an expression has as many children as its form needs. -/
theorem complete (h : t.Holds id e) (hn : t.nodes[id]? = some n) :
    n.children.length = n.value.form.arity ∧ n.value.form ≠ .root := by
  obtain ⟨hvalue, hholds⟩ := h.node hn
  rw [hvalue, hholds.length_eq]
  cases e <;> exact ⟨rfl, by simp [Expr.entry]⟩

end Holds

/-! ## Arenas that are laid out -/

namespace Reachable

variable {parent : NodeId}

theorem addChild (h : t.Reachable) {value : Entry} (hadd : t.addChild parent value = .ok (id, t')) :
    t'.Reachable := by
  have hafter := h.after (.addChild parent value)
  simp only [Arena.after, apply, hadd] at hafter
  exact hafter

theorem adopt (h : t.Reachable) (hadopt : t.adopt parent id = .ok t') : t'.Reachable := by
  have hafter := h.after (.adopt parent id)
  simp only [Arena.after, apply, hadopt] at hafter
  exact hafter

/-- Laying out an expression adds and moves nodes. -/
theorem layOut (h : t.Reachable) {e : Expr} (hlay : e.layOut t parent = .ok (id, t')) :
    t'.Reachable := by
  induction e generalizing t parent id t' with
  | literal loc value => exact h.addChild hlay
  | group loc inner ih =>
      unfold Expr.layOut at hlay
      split at hlay
      · cases hlay
      · rename_i hadd
        split at hlay
        · cases hlay
        · rename_i hinner
          cases hlay
          exact ih (h.addChild hadd) hinner
  | unary loc op operand ih =>
      unfold Expr.layOut at hlay
      split at hlay
      · cases hlay
      · rename_i hadd
        split at hlay
        · cases hlay
        · rename_i hoperand
          cases hlay
          exact ih (h.addChild hadd) hoperand
  | binary loc op left right ihl ihr =>
      unfold Expr.layOut at hlay
      split at hlay
      · cases hlay
      · rename_i hleft
        split at hlay
        · cases hlay
        · rename_i hadd
          split at hlay
          · cases hlay
          · rename_i hadopt
            split at hlay
            · cases hlay
            · rename_i hright
              cases hlay
              exact ihr (((ihl h hleft).addChild hadd).adopt hadopt) hright

end Reachable

end Arena

namespace Ast

variable {a : Ast} {e : Expr}

theorem arena_of_ofArena {t : Arena Entry} {root expr : NodeId}
    (h : Ast.ofArena t root expr = .ok a) : a.arena = t := by
  unfold ofArena at h
  split at h
  · split at h
    · cases h
    · split at h
      · split at h
        · cases h
          rfl
        · cases h
      · cases h
  · cases h

/-- The arena in which an expression is laid out was built by adding and moving nodes. -/
theorem reachable_of_ofExpr {loc : Location} (h : Ast.ofExpr loc e = .ok a) :
    a.arena.Reachable := by
  have htop := Arena.reachable_empty.after (.addRoot (⟨.root, loc⟩ : Entry))
  unfold ofExpr at h
  split at h
  rename_i root t hadd
  simp only [Arena.after, Arena.apply, hadd] at htop
  split at h
  · cases h
  · rename_i expr t' hlay
    split at h
    · cases h
    · rename_i a' hofArena
      cases h
      rw [arena_of_ofArena hofArena]
      exact htop.layOut hlay

/-- An expression is laid out as a tree with its top in the first slot. -/
theorem isTree_of_ofExpr {loc : Location} (h : Ast.ofExpr loc e = .ok a) :
    a.IsTree e ∧ a.root = 0 := by
  obtain ⟨a', ha', harena, hroot, hexpr⟩ := Ast.exists_ofExpr loc e
  obtain rfl : a' = a := Except.ok.inj (ha'.symm.trans h)
  exact ⟨Ast.isTree_of_arena harena hroot hexpr, hroot⟩

/-! ## Whole arenas -/

theorem below_root (h : a.arena.Reachable) {id : NodeId} {n : Node Entry}
    (hn : a.arena.nodes[id]? = some n) : a.arena.Below a.root id := by
  obtain ⟨f, hf⟩ := h.exists_depicts
  have hid : id < a.arena.size := (Array.getElem?_eq_some_iff.mp hn).1
  obtain ⟨root, hroot, path, hpath, -⟩ := hf.wellFormed.reached id hid
  obtain rfl := Option.some.inj (hroot.symm.trans a.root_eq)
  exact Arena.below_of_descend hpath

/-- Each node of an expression that was built by hand is the top or stands below the
expression. -/
theorem IsTree.eq_root_or_below (h : a.IsTree e) (hreach : a.arena.Reachable) {id : NodeId}
    {n : Node Entry} (hn : a.arena.nodes[id]? = some n) :
    id = a.root ∨ a.arena.Below a.expr id := by
  obtain ⟨loc, top, htop, -, hchildren⟩ := h.top
  rcases (below_root hreach hn).eq_or_exists htop with hroot | ⟨child, hchild, hbelow⟩
  · exact .inl hroot
  · rw [hchildren, List.mem_singleton] at hchild
    exact .inr (hchild ▸ hbelow)

/-- The arena of an expression is complete. -/
theorem IsTree.complete (h : a.IsTree e) (hreach : a.arena.Reachable) : a.Complete := by
  obtain ⟨loc, top, htop, hvalue, hchildren⟩ := h.top
  have hnode : ∀ (id : NodeId) (n : Node Entry), a.arena.nodes[id]? = some n →
      n.children.length = n.value.form.arity ∧ (n.value.form = .root → id = a.root) := by
    intro id n hn
    rcases h.eq_root_or_below hreach hn with rfl | hbelow
    · obtain rfl := Option.some.inj (htop.symm.trans hn)
      rw [hvalue, hchildren]
      exact ⟨rfl, fun _ => rfl⟩
    · obtain ⟨e', he'⟩ := h.holds.exists_of_below hbelow
      obtain ⟨harity, hform⟩ := he'.complete hn
      exact ⟨harity, fun hroot => absurd hroot hform⟩
  exact ⟨fun id n hn => (hnode id n hn).1, fun id n hn => (hnode id n hn).2⟩

/-- A complete arena that was built by hand is that of an expression. -/
theorem Complete.exists_isTree (h : a.Complete) (hreach : a.arena.Reachable) :
    ∃ e, a.IsTree e := by
  obtain ⟨f, hf⟩ := hreach.exists_depicts
  obtain ⟨value, below, rfl⟩ := hf.eq_cons_of_root a.root_eq
  obtain ⟨n, hn, hform, honly⟩ := a.entry
  obtain ⟨⟨m, hm, -, hchildren⟩, hbelow, -⟩ := hf.carries.shows
  obtain rfl := Option.some.inj (hm.symm.trans hn)
  have hroot : a.root ∉ below.ids := (Forest.nodup_cons.mp hf.carries.nodup).1.1
  obtain ⟨es, hes, hsum⟩ := hbelow.exists_forall₂_holds fun id hid n hn =>
    ⟨h.arity id n hn, fun hform => hroot (h.top id n hn hform ▸ hid)⟩
  rw [← hchildren, honly] at hes
  obtain ⟨e, _, he, hnil, rfl⟩ := List.forall₂_cons_left_iff.mp hes
  cases hnil
  refine ⟨e, a.root_eq, ⟨m.value.loc, m, hn, ?_, honly⟩, he, ?_⟩
  · rw [← hform]
  · have hsize := hf.size_eq
    rw [Forest.size, Forest.ids, List.length_cons, List.length_append, Forest.ids,
      List.length_nil, ← hsum] at hsize
    rw [Ast.size, ← hsize, Expr.sizes, Expr.sizes, Nat.add_zero]

end Ast

/-- What is parsed is derived from the tokens up to the end, and laid out. -/
theorem exists_derives_of_parse {t : Tokenization} {a : Ast} (h : t.parse = .ok (.ok a)) :
    ∃ ts eof rest e loc, t.tokens.toList = ts ++ eof :: rest ∧ eof.kind = .eof ∧
      Derives .expression ts e ∧ Ast.ofExpr loc e = .ok a := by
  unfold Tokenization.parse at h
  split at h
  · cases h
  · rename_i c hcursor
    split at h
    · cases h
    · rename_i e hread
      split at h
      · cases h
      · cases h
      · rename_i a' hofExpr
        cases h
        unfold Parser.expression at hread
        split at hread
        · cases hread
        · rename_i e' c' hless hchain
          split at hread
          · rename_i hend
            cases hread
            obtain ⟨ts, htakes, hderives⟩ :=
              (Parser.chain_sound (Nat.le_refl 4) hchain).1.expression
            refine ⟨ts, c'.current, c'.upcoming, e, c.loc, ?_, Cursor.atEnd_iff.mp hend,
              hderives, hofExpr⟩
            rw [← Cursor.tokens_of_ofTokens hcursor, htakes.tokens_eq]
            rfl
          · cases hread

end LoxReader
