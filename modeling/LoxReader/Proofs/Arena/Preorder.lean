/-
  `Proofs.Arena.Preorder`: depth-first order along the links.

  The walk goes from a node to its first child, and from a node without children to the next
  neighbour of the nearest node that has one.  So it meets the nodes of a run of siblings,
  with all that stands below them, and then leaves the run for where its parent is left to.
  The main statements are `Depicts.preorder_eq` and `afterAll_traverses`: the walk is the
  order that recursion along the lists of children gives.
-/
import LoxReader.Proofs.Arena.History
import LoxReader.Proofs.Arena.Trail

set_option autoImplicit false

namespace LoxReader.Arena

variable {α : Type} {t : Arena α} {f : Forest α} {id parent : NodeId} {n : Node α}
  {after : Option NodeId} {climb : Nat}

/-! ## Leaving a node upwards -/

/-- Looking for a neighbour from the node upwards finds the one it names, past no more than
`climb` nodes. -/
def Leaves (t : Arena α) (id : NodeId) (climb : Nat) (after : Option NodeId) : Prop :=
  ∀ fuel, climb ≤ fuel → t.nextAbove fuel id = .ok after

/-- A node is left for its next neighbour, or else for where its parent is left to. -/
theorem Leaves.of_parent (h : t.Leaves parent climb after) (hn : t.nodes[id]? = some n)
    (hparent : n.parent = some parent) : t.Leaves id (climb + 1) (n.next.or after) := by
  intro fuel hfuel
  obtain ⟨fuel, rfl⟩ := Nat.exists_eq_add_of_le' (Nat.le_trans (Nat.le_add_left 1 climb) hfuel)
  rw [nextAbove, node_eq_ok_iff.mpr hn]
  cases hnext : n.next with
  | some next =>
      simp only [hnext]
      rfl
  | none =>
      simp only [hnext, hparent]
      exact h fuel (Nat.le_of_succ_le_succ hfuel)

/-- From the top the walk is over. -/
theorem leaves_top (hn : t.nodes[id]? = some n) (hparent : n.parent = none)
    (hnext : n.next = none) : t.Leaves id 1 none := by
  intro fuel hfuel
  obtain ⟨fuel, rfl⟩ := Nat.exists_eq_add_of_le' hfuel
  rw [nextAbove, node_eq_ok_iff.mpr hn]
  simp only [hnext, hparent]

/-! ## The walk -/

/-- After a node comes its first child, if it has one. -/
theorem Leaves.nextPreorder_eq (h : t.Leaves id climb after) (hn : t.nodes[id]? = some n)
    (hclimb : climb ≤ t.size + 1) : t.nextPreorder id = .ok (n.children.head?.or after) := by
  rw [nextPreorder, firstChild, node_eq_ok_iff.mpr hn]
  cases hfirst : n.children.head? with
  | some first =>
      rw [Except.map, hfirst]
      rfl
  | none =>
      rw [Except.map, hfirst]
      exact h _ hclimb

/-- One step of the walk. -/
theorem Leaves.preorderFrom_succ (h : t.Leaves id climb after) (hn : t.nodes[id]? = some n)
    (hclimb : climb ≤ t.size + 1) (seen : List NodeId) (fuel : Nat) :
    t.preorderFrom seen (fuel + 1) (some id) =
      t.preorderFrom (id :: seen) fuel (n.children.head?.or after) := by
  rw [preorderFrom, h.nextPreorder_eq hn hclimb]

/-- The walk through a run of siblings meets the nodes of their trees in order, and goes on
where their parent is left to. -/
theorem Leaves.preorderFrom_eq (h : t.Leaves parent climb after) (hlinked : t.Linked)
    (hshows : t.Shows f) {before : Option NodeId} (hrun : t.Chained parent before f.roots none)
    (hclimb : climb + f.ids.length ≤ t.size) (seen : List NodeId) (fuel : Nat) :
    t.preorderFrom seen (f.ids.length + fuel) (f.roots.head?.or after) =
      t.preorderFrom (f.ids.reverse ++ seen) fuel after := by
  induction f generalizing parent climb after before seen fuel with
  | nil =>
      rw [Forest.ids, List.length_nil, Nat.zero_add]
      rfl
  | cons id value below rest ihb ihr =>
      obtain ⟨⟨n, hn, -, hchildren⟩, hbelow, hrest⟩ := hshows
      obtain ⟨⟨m, hm, hparent, -, hnext⟩, hmore⟩ := hrun
      obtain rfl : n = m := Option.some.inj (hn.symm.trans hm)
      rw [Option.or_none] at hnext
      rw [Forest.ids, List.length_cons, List.length_append] at hclimb
      have hid := h.of_parent hn hparent
      have hinside : t.Chained id none below.roots none := hchildren ▸ hlinked.chained id n hn
      calc t.preorderFrom seen ((id :: (below.ids ++ rest.ids)).length + fuel) (some id)
        _ = t.preorderFrom seen (below.ids.length + (rest.ids.length + fuel) + 1) (some id) := by
            rw [List.length_cons, List.length_append]
            congr 1
            omega
        _ = t.preorderFrom (id :: seen) (below.ids.length + (rest.ids.length + fuel))
              (below.roots.head?.or (n.next.or after)) := by
            rw [hid.preorderFrom_succ hn (by omega), hchildren]
        _ = t.preorderFrom (below.ids.reverse ++ id :: seen) (rest.ids.length + fuel)
              (rest.roots.head?.or after) := by
            rw [ihb hid hbelow hinside (by omega), hnext]
        _ = t.preorderFrom (rest.ids.reverse ++ (below.ids.reverse ++ id :: seen)) fuel after :=
            ihr h hrest hmore (by omega) _ _
        _ = t.preorderFrom ((id :: (below.ids ++ rest.ids)).reverse ++ seen) fuel after := by
            simp

/-- Along the links all nodes are met in depth-first order. -/
theorem Depicts.preorder_eq (h : t.Depicts f) : t.preorder = .ok f.ids := by
  rw [preorder, ← h.size_eq, Forest.size]
  cases hroot : t.root with
  | none =>
      have hroots := h.roots
      rw [hroot] at hroots
      cases f with
      | nil => rfl
      | cons id value below rest => cases hroots
  | some root =>
      obtain ⟨value, below, rfl⟩ := h.eq_cons_of_root hroot
      obtain ⟨⟨n, hn, -, hchildren⟩, hbelow, -⟩ := h.carries.shows
      have hparent := (h.carries.parent_eq_none_iff hn).mpr List.mem_cons_self
      have hsize := h.size_eq
      have htop := leaves_top hn hparent (h.carries.linked.alone root n hn hparent).2
      have hinside : t.Chained root none below.roots none :=
        hchildren ▸ h.carries.linked.chained root n hn
      have hids : (Forest.cons root value below .nil).ids = root :: below.ids := by
        rw [Forest.ids, Forest.ids, List.append_nil]
      rw [Forest.size, hids, List.length_cons] at hsize
      rw [hids, List.length_cons, htop.preorderFrom_succ hn (by omega), hchildren]
      have hwalk := htop.preorderFrom_eq h.carries.linked hbelow hinside (by omega) [root] 0
      rw [Nat.add_zero] at hwalk
      rw [hwalk, preorderFrom, List.reverse_append, List.reverse_reverse]
      rfl

/-! ## Depth-first order -/

/-- The nodes of the first list in order, each followed by its children in depth-first
order. -/
inductive DepthFirst (t : Arena α) : List NodeId → List NodeId → Prop
  | nil : t.DepthFirst [] []
  | cons {id : NodeId} {n : Node α} {rest below after : List NodeId} :
      t.nodes[id]? = some n → t.DepthFirst n.children below → t.DepthFirst rest after →
        t.DepthFirst (id :: rest) (id :: (below ++ after))

theorem DepthFirst.unique {tops order order' : List NodeId} (h : t.DepthFirst tops order)
    (h' : t.DepthFirst tops order') : order = order' := by
  induction h generalizing order' with
  | nil =>
      cases h'
      rfl
  | cons hn _ _ ihb iha =>
      cases h' with
      | cons hn' hbelow' hafter' =>
          obtain rfl := Option.some.inj (hn.symm.trans hn')
          rw [ihb hbelow', iha hafter']

/-- The nodes of a forest are in depth-first order. -/
theorem Shows.depthFirst (h : t.Shows f) : t.DepthFirst f.roots f.ids := by
  induction f with
  | nil => exact .nil
  | cons id value below rest ihb ihr =>
      obtain ⟨⟨n, hn, -, hchildren⟩, hbelow, hrest⟩ := h
      exact .cons hn (hchildren ▸ ihb hbelow) (ihr hrest)

/-- The walk along the links goes through the tree in this order. -/
structure Traverses (t : Arena α) (order : List NodeId) : Prop where
  /-- Recursion along the lists of children gives this order and no other. -/
  depthFirst_iff : ∀ other, t.DepthFirst t.root.toList other ↔ other = order
  /-- Each node is met once. -/
  ids : order.Perm (List.range t.size)
  preorder : t.preorder = .ok order
  /-- The walk is over after as many steps as there are nodes, and not before. -/
  steps : ∀ fuel, t.preorderFrom [] fuel t.root =
    if t.size ≤ fuel then .ok order else .error .endless
  /-- After a node comes the one behind it in this order, if there is one. -/
  next : ∀ i id, order[i]? = some id → t.nextPreorder id = .ok order[i + 1]?
  /-- Nothing comes after the last node, and after no other. -/
  last_iff : ∀ id, id < t.size → (t.nextPreorder id = .ok none ↔ order.getLast? = some id)

theorem Depicts.traverses (h : t.Depicts f) : t.Traverses f.ids := by
  obtain ⟨ids, hids, htrail⟩ := exists_trail_of_preorderFrom h.preorder_eq
  obtain rfl : f.ids = ids := hids
  have hlength : f.ids.length = t.size := h.size_eq
  refine ⟨?_, h.carries.ids, h.preorder_eq, ?_, fun i id => htrail.step_eq, ?_⟩
  · intro other
    have hdepth := h.carries.shows.depthFirst
    rw [h.roots] at hdepth
    constructor
    · exact fun hother => hother.unique hdepth
    · rintro rfl
      exact hdepth
  · intro fuel
    rw [htrail.preorderFrom_eq, hlength, List.reverse_nil, List.nil_append]
  · intro id hid
    obtain ⟨i, hi⟩ := List.mem_iff_getElem?.mp (h.carries.mem_ids_iff.mpr hid)
    have hlt : i < f.ids.length := (List.getElem?_eq_some_iff.mp hi).1
    rw [htrail.step_eq hi, Except.ok.injEq, List.getElem?_eq_none_iff, List.getLast?_eq_getElem?,
      ← hi, List.getElem?_inj (by omega) h.carries.nodup]
    omega

/-- After every history of changes the walk goes through all nodes in depth-first order. -/
theorem afterAll_traverses (edits : List (Edit α)) :
    ∃ order, (empty.afterAll edits).Traverses order :=
  ⟨_, (depicts_empty.afterAll edits).traverses⟩

/-- A node is moved to the end, so that the walk climbs from the leaf below it to the top. -/
example : (empty.afterAll [.addRoot 'a', .addChild 0 'b', .addChild 1 'c', .addChild 0 'd',
    .adopt 0 1]).preorder = .ok [0, 3, 1, 2] := by
  decide

end LoxReader.Arena
