/-
  `Proofs.Ast.Walk`: what a walk over an arena visits.

  An arena that was built by hand is a forest, in which a walk goes down from its start.  The
  nodes that it would come past, if each had the children that its form needs, are told by
  recursion on the forest (`Forest.tour`).  The walk visits these in turn up to the first node
  that has too few or too many children, and names this one in its fault.  An arena that was
  parsed has no such node, so that a walk meets all nodes in the order of the links.
-/
import LoxReader.Ast.Visit
import LoxReader.Proofs.Arena.Preorder
import LoxReader.Proofs.Ast.Complete
import LoxReader.Proofs.Expr.ViablePrefix
import Mathlib.Data.List.TakeWhile

set_option autoImplicit false

namespace LoxReader

/-! ## Tours -/

/-- Whether the form is a literal. -/
def Form.isLiteral : Form → Bool
  | .literal _ => true
  | _ => false

/-- A node of this form can have these children: literals any, and others as many as they
need. -/
def Form.Admits (form : Form) (children : List NodeId) : Prop :=
  form.isLiteral = true ∨ children.length = form.arity

instance (form : Form) (children : List NodeId) : Decidable (form.Admits children) :=
  inferInstanceAs (Decidable (_ ∨ _))

/-- The form of a node with this shape. -/
def Shape.form {α : Type} : Shape α → Form
  | .root _ => .root
  | .binary op _ _ => .binary op
  | .paren _ => .paren
  | .unary op _ => .unary op
  | .literal value => .literal value

/-- A node that a tour comes past: its depth below the start, from 1, its index, its form and
its children. -/
structure Station where
  depth : Nat
  id : NodeId
  form : Form
  children : List NodeId

namespace Station

/-- The node has children that its form admits. -/
def Fits (s : Station) : Prop :=
  s.form.Admits s.children

instance (s : Station) : Decidable s.Fits :=
  inferInstanceAs (Decidable (s.form.Admits s.children))

/-- The fault of a walk that comes to this node. -/
def fault (s : Station) : AstFault :=
  .operands s.form s.id s.children.length s.form.arity

end Station

/-- The tour of a forest: each node comes before those below it, which are left out below
literals and below nodes of a pruned form. -/
def Forest.tour (pruned : Form → Bool) : Nat → Forest Entry → List Station
  | _, .nil => []
  | depth, .cons id entry below rest =>
    ⟨depth, id, entry.form, below.roots⟩ ::
      ((if entry.form.isLiteral || pruned entry.form then [] else below.tour pruned (depth + 1)) ++
        rest.tour pruned depth)

/-- A tour comes past nodes of the forest in their order. -/
theorem Forest.tour_sublist (pruned : Form → Bool) (depth : Nat) (f : Forest Entry) :
    ((f.tour pruned depth).map Station.id).Sublist f.ids := by
  induction f generalizing depth with
  | nil => exact .slnil
  | cons id entry below rest ihb ihr =>
      rw [tour, ids, List.map_cons, List.map_append]
      refine .cons_cons id (.append ?_ (ihr depth))
      split
      · exact List.nil_sublist _
      · exact ihb (depth + 1)

/-- The visit is that of the node. -/
structure Visit.At (v : Visit) (s : Station) : Prop where
  depth : v.depth = s.depth
  id : v.id = s.id
  form : v.shape.form = s.form
  parts : v.shape.parts = if s.form.isLiteral then [] else s.children

/-- The walk visits the nodes of the tour up to the first that does not fit, and ends there
if there is one. -/
structure Walk.Follows (w : Walk) (tour : List Station) : Prop where
  visits : List.Forall₂ Visit.At w.visits.toList (tour.takeWhile fun s => s.Fits)
  fault : w.fault = (tour.find? fun s => ¬s.Fits).map Station.fault

/-- The depth of a node on a tour counts the steps that lead down to it. -/
theorem Arena.Shows.exists_descend_of_mem_tour {t : Arena Entry} {f : Forest Entry}
    (h : t.Shows f) {pruned : Form → Bool} {depth : Nat} {s : Station}
    (hs : s ∈ f.tour pruned depth) :
    ∃ (index : Nat) (root : NodeId) (path : List Nat), f.roots[index]? = some root ∧
      t.descend root path = some s.id ∧ s.depth = depth + path.length := by
  induction f generalizing depth with
  | nil => cases hs
  | cons id entry below rest ihb ihr =>
      obtain ⟨⟨n, hn, -, hchildren⟩, hbelow, hrest⟩ := h
      rw [Forest.tour, List.mem_cons, List.mem_append] at hs
      rcases hs with rfl | hs | hs
      · exact ⟨0, id, [], rfl, rfl, rfl⟩
      · split at hs
        · cases hs
        · obtain ⟨index, root, path, hroot, hpath, hdepth⟩ := ihb hbelow hs
          rw [← hchildren] at hroot
          refine ⟨0, id, index :: path, rfl, ?_, ?_⟩
          · simp only [descend, hn, Option.bind_some, hroot, hpath]
          · rw [hdepth, List.length_cons, Nat.add_assoc, Nat.add_comm 1]
      · obtain ⟨index, root, path, hroot, hpath, hdepth⟩ := ihr hrest hs
        exact ⟨index + 1, root, path, hroot, hpath, hdepth⟩

/-! ## Going along a tour -/

/-- Going along a tour after these visits ends with this walk. -/
inductive Walk.Along : List Station → Array Visit → Walk → Prop
  | ended {visits : Array Visit} : Along [] visits ⟨visits, none⟩
  | halt {s : Station} {rest : List Station} {visits : Array Visit} :
      ¬s.Fits → Along (s :: rest) visits ⟨visits, some s.fault⟩
  | visit {s : Station} {rest : List Station} {visits : Array Visit} {v : Visit} {w : Walk} :
      s.Fits → v.At s → Along rest (visits.push v) w → Along (s :: rest) visits w

/-- The walk, and if it does not end with a fault what comes after its visits. -/
def Walk.andThen (w : Walk) (go : Array Visit → Walk) : Walk :=
  match w.fault with
  | some _ => w
  | none => go w.visits

theorem Ast.walkEach_cons (go : NodeId → Array Visit → Walk) (id : NodeId) (rest : List NodeId)
    (visits : Array Visit) :
    walkEach go (id :: rest) visits = (go id visits).andThen (walkEach go rest) := by
  rw [walkEach, Walk.andThen]
  obtain ⟨visits, _ | f⟩ := go id visits <;> rfl

namespace Walk.Along

variable {tour tour' : List Station} {visits : Array Visit} {w : Walk}

/-- A walk that does not end with a fault goes on along the next tour. -/
theorem append (h : Along tour visits w) {go : Array Visit → Walk}
    (hgo : ∀ visits, Along tour' visits (go visits)) :
    Along (tour ++ tour') visits (w.andThen go) := by
  induction h with
  | ended => exact hgo _
  | halt hfits => exact .halt hfits
  | visit hfits hv _ ih => exact .visit hfits hv ih

/-- A walk along a tour makes the visits of the tour after those made before. -/
theorem exists_follows (h : Along tour visits w) :
    ∃ more : List Visit, w.visits.toList = visits.toList ++ more ∧
      List.Forall₂ Visit.At more (tour.takeWhile fun s => s.Fits) ∧
      w.fault = (tour.find? fun s => ¬s.Fits).map Station.fault := by
  induction h with
  | ended => exact ⟨[], (List.append_nil _).symm, .nil, rfl⟩
  | halt hfits =>
      refine ⟨[], (List.append_nil _).symm, ?_, ?_⟩
      · rw [List.takeWhile_cons_of_neg (by simp [hfits])]
        exact .nil
      · rw [List.find?_cons_of_pos (by simp [hfits])]
        rfl
  | @visit s rest visits v w hfits hv _ ih =>
      obtain ⟨more, hvisits, hmore, hfault⟩ := ih
      rw [Array.toList_push, List.append_assoc, List.singleton_append] at hvisits
      refine ⟨v :: more, hvisits, ?_, ?_⟩
      · rw [List.takeWhile_cons_of_pos (by simp [hfits])]
        exact .cons hv hmore
      · rw [List.find?_cons_of_neg (by simp [hfits])]
        exact hfault

theorem follows (h : Along tour #[] w) : w.Follows tour := by
  obtain ⟨more, hvisits, hmore, hfault⟩ := h.exists_follows
  rw [List.nil_append] at hvisits
  exact ⟨hvisits ▸ hmore, hfault⟩

end Walk.Along

namespace Ast

variable {a : Ast} {f : Forest Entry}

/-! ## Walking -/

/-- A node whose form admits its children has a shape. -/
theorem exists_shapeOf (id : NodeId) {n : Node Entry}
    (h : n.value.form.Admits n.children) :
    ∃ shape, shapeOf id n = .ok shape ∧ shape.form = n.value.form ∧
      shape.parts = if n.value.form.isLiteral then [] else n.children := by
  obtain ⟨⟨form, loc⟩, parent, prev, next, children⟩ := n
  cases form with
  | literal value => exact ⟨.literal value, rfl, rfl, rfl⟩
  | binary op =>
      obtain ⟨left, right, rfl⟩ := List.length_eq_two.mp (Or.resolve_left h Bool.false_ne_true)
      exact ⟨.binary op left right, rfl, rfl, rfl⟩
  | root | paren | unary op =>
      obtain ⟨child, rfl⟩ := List.length_eq_one_iff.mp (Or.resolve_left h Bool.false_ne_true)
      exact ⟨_, rfl, rfl, rfl⟩

/-- Any other node has none, and the fault counts its children. -/
theorem shapeOf_eq_error (id : NodeId) {n : Node Entry}
    (h : ¬n.value.form.Admits n.children) :
    shapeOf id n =
      .error (.operands n.value.form id n.children.length n.value.form.arity) := by
  obtain ⟨⟨form, loc⟩, parent, prev, next, children⟩ := n
  obtain ⟨hliteral, hlength⟩ := not_or.mp h
  cases form with
  | literal value => exact absurd rfl hliteral
  | binary op =>
      match children, hlength with
      | [], _ | [_], _ | _ :: _ :: _ :: _, _ => rfl
      | [_, _], hlength => exact absurd rfl hlength
  | root | paren | unary op =>
      match children, hlength with
      | [], _ | _ :: _ :: _, _ => rfl
      | [_], hlength => exact absurd rfl hlength

/-- Walking from the top nodes of a forest in turn goes along its tour. -/
theorem walkEach_along (h : a.arena.Shows f) (pruned : Form → Bool) (depth : Nat) {fuel : Nat}
    (hfuel : f.ids.length ≤ fuel) (visits : Array Visit) :
    Walk.Along (f.tour pruned depth) visits
      (walkEach (a.walkFrom (fun shape => !pruned shape.form) fuel depth) f.roots visits) := by
  induction f generalizing depth fuel visits with
  | nil => exact .ended
  | cons id entry below rest ihb ihr =>
      obtain ⟨⟨n, hn, rfl, hchildren⟩, hbelow, hrest⟩ := h
      rw [Forest.ids, List.length_cons, List.length_append] at hfuel
      obtain ⟨fuel, rfl⟩ := Nat.exists_eq_add_of_le' (Nat.le_trans (Nat.le_add_left 1 _) hfuel)
      have hview : a.view id = (shapeOf id n).map fun shape => (n.value.loc, shape) := by
        rw [view, node, Arena.node_eq_ok_iff.mpr hn]
      have hbelowFuel : below.ids.length ≤ fuel := by omega
      have hrestFuel : rest.ids.length ≤ fuel + 1 := by omega
      rw [Forest.tour, ← hchildren, Forest.roots, walkEach_cons, walkFrom, hview]
      by_cases hfits : n.value.form.Admits n.children
      · obtain ⟨shape, hshape, hform, hparts⟩ := exists_shapeOf id hfits
        have hvisit : Visit.At ⟨depth, id, shape⟩ ⟨depth, id, n.value.form, n.children⟩ :=
          ⟨rfl, rfl, hform, hparts⟩
        simp only [hshape, Except.map, hform, hparts]
        refine .visit hfits hvisit (.append ?_ (ihr hrest depth hrestFuel))
        -- Below the node the walk goes where the tour does.
        cases hliteral : n.value.form.isLiteral with
        | true =>
            simp only [Bool.true_or, if_true, walkEach, ite_self]
            exact .ended
        | false =>
            cases hpruned : pruned n.value.form with
            | true => exact .ended
            | false =>
                simp only [hchildren]
                exact ihb hbelow (depth + 1) hbelowFuel _
      · simp only [shapeOf_eq_error id hfits, Except.map]
        exact .halt hfits

/-- Walk without going below nodes of the pruned forms. -/
def walkPruned (a : Ast) (pruned : Form → Bool) (start : NodeId) : Walk :=
  a.walk (fun shape => !pruned shape.form) start

/-- A walk goes along the tour of the subtree of its start. -/
theorem walkPruned_follows (h : a.arena.Depicts f) (pruned : Form → Bool) {start : NodeId}
    (hstart : start < a.size) :
    (a.walkPruned pruned start).Follows ((f.subtree start).tour pruned 1) := by
  obtain ⟨entry, below, hsub⟩ :=
    Forest.exists_subtree_eq h.carries.nodup (h.carries.mem_ids_iff.mpr hstart)
  have hlength : (f.subtree start).ids.length ≤ a.size + 1 := by
    have hsize : f.ids.length = a.size := h.size_eq
    exact Nat.le_succ_of_le (hsize ▸ (Forest.subtree_sublist start f).length_le)
  have halong := walkEach_along (h.carries.shows.subtree start) pruned 1 hlength #[]
  have hroots : (f.subtree start).roots = [start] := by
    rw [hsub]
    rfl
  have hend : ∀ w : Walk, w.andThen (walkEach (a.walkFrom (fun shape => !pruned shape.form)
      (a.size + 1) 1) []) = w := by
    rintro ⟨visits, _ | fault⟩ <;> rfl
  rw [hroots, walkEach_cons, hend] at halong
  exact halong.follows

/-- The visits of a walk are as deep below its start as the steps lead down to them. -/
theorem exists_descend_of_mem_visits (h : a.arena.Depicts f) {pruned : Form → Bool}
    {start : NodeId} (hstart : start < a.size) {v : Visit}
    (hv : v ∈ (a.walkPruned pruned start).visits) :
    ∃ path, a.arena.descend start path = some v.id ∧ v.depth = 1 + path.length := by
  obtain ⟨entry, below, hsub⟩ :=
    Forest.exists_subtree_eq h.carries.nodup (h.carries.mem_ids_iff.mpr hstart)
  obtain ⟨s, hs, hat⟩ :=
    exists_of_mem_forall₂ (walkPruned_follows h pruned hstart).visits (Array.mem_toList_iff.mpr hv)
  obtain ⟨index, root, path, hroot, hpath, hdepth⟩ :=
    (h.carries.shows.subtree start).exists_descend_of_mem_tour (List.takeWhile_subset _ hs)
  rw [hsub] at hroot
  obtain rfl : start = root := List.mem_singleton.mp (List.mem_of_getElem? hroot) |>.symm
  exact ⟨path, hat.id ▸ hpath, hat.depth.trans hdepth⟩

/-! ## Whole expressions -/

/-- In a complete arena every node fits, and a tour that leaves nothing out meets all nodes. -/
theorem Complete.tour_eq (h : a.Complete) (hshows : a.arena.Shows f) (depth : Nat) :
    (f.tour (fun _ => false) depth).map Station.id = f.ids ∧
      ∀ s ∈ f.tour (fun _ => false) depth, s.Fits := by
  induction f generalizing depth with
  | nil => exact ⟨rfl, fun s hs => by cases hs⟩
  | cons id entry below rest ihb ihr =>
      obtain ⟨⟨n, hn, rfl, hchildren⟩, hbelow, hrest⟩ := hshows
      have harity := h.arity id n hn
      obtain ⟨hbelowIds, hbelowFits⟩ := ihb hbelow (depth + 1)
      obtain ⟨hrestIds, hrestFits⟩ := ihr hrest depth
      -- Nothing stands below a literal.
      have hinside : (if n.value.form.isLiteral || false then []
          else below.tour (fun _ => false) (depth + 1)) =
            below.tour (fun _ => false) (depth + 1) := by
        split
        · rename_i hliteral
          cases hform : n.value.form with
          | literal value =>
              rw [hform, hchildren] at harity
              cases below with
              | nil => rfl
              | cons id entry below rest => cases harity
          | _ =>
              rw [hform] at hliteral
              cases hliteral
        · rfl
      rw [Forest.tour, hinside]
      refine ⟨?_, List.forall_mem_cons.mpr ⟨.inr (hchildren ▸ harity), ?_⟩⟩
      · rw [List.map_cons, List.map_append, hbelowIds, hrestIds, Forest.ids]
      · exact List.forall_mem_append.mpr ⟨hbelowFits, hrestFits⟩

/-- A walk over a whole arena that is complete has no fault, and its visits are in the order
of the links. -/
theorem Complete.walkPruned_root (h : a.Complete) (hreach : a.arena.Reachable) :
    (a.walkPruned (fun _ => false) a.root).fault = none ∧
      a.arena.preorder =
        .ok ((a.walkPruned (fun _ => false) a.root).visits.toList.map Visit.id) := by
  obtain ⟨f, hf⟩ := hreach.exists_depicts
  obtain ⟨entry, below, rfl⟩ := hf.eq_cons_of_root a.root_eq
  have hstart : a.root < a.size := hf.carries.mem_ids_iff.mp List.mem_cons_self
  have hfollows := walkPruned_follows hf (fun _ => false) hstart
  rw [Forest.subtree, if_pos rfl, Forest.subtree] at hfollows
  obtain ⟨hids, hfits⟩ := h.tour_eq hf.carries.shows 1
  obtain ⟨hvisits, hfault⟩ := hfollows
  rw [List.takeWhile_eq_self_iff.mpr fun s hs => decide_eq_true (hfits s hs)] at hvisits
  rw [List.find?_eq_none.mpr fun s hs => by simp [hfits s hs]] at hfault
  refine ⟨hfault, hf.preorder_eq.trans (congrArg Except.ok (hids.symm.trans ?_))⟩
  rw [← List.forall₂_eq_eq_eq, List.forall₂_map_left_iff, List.forall₂_map_right_iff]
  exact hvisits.flip.imp fun _ _ hat => hat.id.symm

end Ast

/-- A walk over an arena that was built by hand visits the nodes of the tour from its start,
in the order of the links and at the depths to which the steps lead down, up to the first
node that has too few or too many children.  Over an arena that was parsed the whole walk
visits all nodes. -/
theorem walk_follows_tour :
    (∀ a : Ast, a.arena.Reachable → ∃ f, a.arena.Reads f ∧ a.arena.preorder = .ok f.ids ∧
      ∀ (pruned : Form → Bool) (start : NodeId), start < a.size →
        (a.walkPruned pruned start).Follows ((f.subtree start).tour pruned 1) ∧
          (((f.subtree start).tour pruned 1).map Station.id).Sublist f.ids ∧
          ∀ v ∈ (a.walkPruned pruned start).visits, ∃ path,
            a.arena.descend start path = some v.id ∧ v.depth = 1 + path.length) ∧
    ∀ (t : Tokenization) (a : Ast), t.parse = .ok (.ok a) →
      (a.walkPruned (fun _ => false) a.root).fault = none ∧
        a.arena.preorder =
          .ok ((a.walkPruned (fun _ => false) a.root).visits.toList.map Visit.id) := by
  constructor
  · intro a hreach
    obtain ⟨f, hf⟩ := hreach.exists_depicts
    refine ⟨f, hf.reads, hf.preorder_eq, fun pruned start hstart => ⟨?_, ?_, ?_⟩⟩
    · exact Ast.walkPruned_follows hf pruned hstart
    · exact (Forest.tour_sublist pruned 1 _).trans (Forest.subtree_sublist start f)
    · exact fun v hv => Ast.exists_descend_of_mem_visits hf hstart hv
  · intro t a hparse
    obtain ⟨ts, eof, rest, e, loc, -, -, -, hofExpr⟩ := exists_derives_of_parse hparse
    have hreach := Ast.reachable_of_ofExpr hofExpr
    exact ((Ast.isTree_of_ofExpr hofExpr).1.complete hreach).walkPruned_root hreach

/-- A sum whose left operand is a number in parentheses, with a node below the number, and
whose right operand is a sign before two literals. -/
def brokenSum : Ast where
  arena := Arena.empty.afterAll [.addRoot ⟨.root, .start⟩, .addChild 0 ⟨.binary .add, .start⟩,
    .addChild 1 ⟨.paren, .start⟩, .addChild 2 ⟨.literal (.number ⟨0⟩), .start⟩,
    .addChild 3 ⟨.literal .nil, .start⟩, .addChild 1 ⟨.unary .negate, .start⟩,
    .addChild 5 ⟨.literal .nil, .start⟩, .addChild 5 ⟨.literal .nil, .start⟩]
  root := 0
  expr := 1
  root_eq := rfl
  entry := ⟨_, rfl, rfl, rfl⟩

/-- A walk that does not enter the parentheses visits four nodes and ends at the sign. -/
theorem walk_follows_tour_brokenSum :
    (∃ f, brokenSum.arena.Reads f ∧
      (brokenSum.walkPruned (fun form => form = .paren) 0).Follows
        ((f.subtree 0).tour (fun form => form = .paren) 1)) ∧
    (brokenSum.walkPruned (fun form => form = .paren) 0).fault =
      some (.operands (.unary .negate) 5 2 1) ∧
    ∃ a, (tokenize "1-(2)").parse = .ok (.ok a) ∧
      (a.walkPruned (fun _ => false) a.root).fault = none := by
  obtain ⟨hbuilt, hparsed⟩ := walk_follows_tour
  obtain ⟨f, hf, -, hwalk⟩ := hbuilt brokenSum ⟨_, rfl⟩
  have htokens : (tokenize "1-(2)").tokens.toList =
      (tokenize "1-(2)").tokens.toList.take 5 ++ [⟨.eof, ⟨1, 6, 5⟩⟩] := by
    decide +kernel
  obtain ⟨e, he⟩ : Sentence ((tokenize "1-(2)").tokens.toList.take 5) :=
    sentence_iff_run.mpr (by decide +kernel)
  obtain ⟨a, -, hparse, -⟩ := parse_of_derives htokens rfl (by decide +kernel) he
  exact ⟨⟨f, hf, (hwalk (fun form => form = .paren) 0 (by decide +kernel)).1⟩,
    by decide +kernel, a, hparse, (hparsed _ a hparse).1⟩

end LoxReader
