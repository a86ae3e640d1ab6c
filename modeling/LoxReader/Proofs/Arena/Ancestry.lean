/-
  `Proofs.Arena.Ancestry`: looking up a tree.

  The lists of children lead down a tree, the links to parents lead up it.  In an arena with
  a history the two agree over any distance: looking up from a node finds those nodes from
  which the lists lead down to it, and passes as many links as the only way down from the
  root has steps.  It never looks at more nodes than there are.
-/
import LoxReader.Proofs.Arena.Paths
import LoxReader.Proofs.Arena.Trail

set_option autoImplicit false

namespace LoxReader.Arena

variable {α : Type} {t : Arena α} {f : Forest α}

/-! ## The way up -/

namespace Climbs

/-- The way up goes along the links to parents. -/
theorem trail {link : Option NodeId} {above : List NodeId} (h : t.Climbs link above) :
    Trail t.parent link above := by
  induction above generalizing link with
  | nil => exact h
  | cons id above ih =>
      obtain ⟨hlink, n, hn, habove⟩ := h
      exact ⟨hlink, n.parent, map_node_eq_ok_iff.mpr ⟨n, hn, rfl⟩, ih habove⟩

/-- Counting the links finds as many as there are nodes above, looking at these and at the
node itself. -/
theorem depthFrom_eq {id : NodeId} {above : List NodeId} (h : t.Climbs (some id) (id :: above))
    (count fuel : Nat) :
    t.depthFrom count fuel id =
      if above.length < fuel then .ok (count + above.length) else .error .endless := by
  induction above generalizing id count fuel with
  | nil =>
      obtain ⟨-, n, hn, htop⟩ := h
      have htop : n.parent = none := htop
      cases fuel with
      | zero => rfl
      | succ fuel => simp [depthFrom, node_eq_ok_iff.mpr hn, htop]
  | cons parent above ih =>
      obtain ⟨-, n, hn, hparent, hrest⟩ := h
      cases fuel with
      | zero => rfl
      | succ fuel =>
          have hparents : t.Climbs (some parent) (parent :: above) := ⟨rfl, hrest⟩
          have hmore := ih hparents (count + 1) fuel
          simp only [depthFrom, node_eq_ok_iff.mpr hn, hparent, hmore, List.length_cons,
            Nat.add_lt_add_iff_right, Nat.add_assoc, Nat.add_comm 1]

end Climbs

/-- The way up from the end of a way down passes as many nodes as that has steps: each step
leads from the parent of the node that it leads to. -/
theorem Linked.climbs_of_descend (h : t.Linked) {root id : NodeId} {top : Node α}
    (htop : t.nodes[root]? = some top) (hparent : top.parent = none) {path : List Nat}
    (hpath : t.descend root path = some id) :
    ∃ above, t.Climbs (some id) (id :: above) ∧ above.length = path.length := by
  induction path using List.reverseRecOn generalizing id with
  | nil =>
      obtain rfl := Option.some.inj hpath
      exact ⟨[], ⟨rfl, top, htop, hparent⟩, rfl⟩
  | append_singleton path index ih =>
      obtain ⟨parent, m, hup, hm, hchild⟩ := descend_concat_eq_some.mp hpath
      obtain ⟨n, hn, hlink⟩ := h.exists_child hm (List.mem_of_getElem? hchild)
      obtain ⟨above, habove, hlength⟩ := ih hup
      refine ⟨parent :: above, ⟨rfl, n, hn, hlink ▸ habove⟩, ?_⟩
      rw [List.length_cons, List.length_append, List.length_singleton, hlength]

namespace Carries

/-- The nodes of a subtree are those that the lists of children lead down to, whether or not
there is a node at its top. -/
theorem mem_subtree_iff_below (h : t.Carries f) {ancestor id : NodeId} (hid : id ∈ f.ids) :
    id ∈ (f.subtree ancestor).ids ↔ t.Below ancestor id := by
  by_cases hancestor : ancestor ∈ f.ids
  · exact h.mem_subtree_iff hancestor
  · refine iff_of_false (fun hin => ?_) (fun hbelow => ?_)
    · rw [Forest.subtree_of_not_mem hancestor] at hin
      cases hin
    · rcases hbelow with _ | ⟨hn, -, -⟩
      · exact hancestor hid
      · exact hancestor (h.mem_ids_of_node hn)

/-- Looking up ends before it has looked at more nodes than there are. -/
theorem meetsAbove_eq (h : t.Carries f) (ancestor : NodeId) {id : NodeId} (hid : id ∈ f.ids)
    {fuel : Nat} (hfuel : t.size ≤ fuel) :
    t.meetsAbove ancestor fuel id = t.isAncestorOrSelf ancestor id := by
  obtain ⟨above, habove, hlength, -⟩ := h.exists_climbs hid
  rw [isAncestorOrSelf, habove.meetsAbove_eq ancestor (Nat.le_trans hlength hfuel),
    habove.meetsAbove_eq ancestor (Nat.le_succ_of_le hlength)]

end Carries

/-! ## Ancestry -/

/-- Looking up from the nodes of an arena finds what the lists of children say. -/
structure Ancestry (t : Arena α) : Prop where
  /-- A node is found to be another one or above it if that is reached from it along the
  lists of children; no more nodes are looked at than there are. -/
  isAncestorOrSelf : ∀ ancestor id, id < t.size →
    ∃ found, t.isAncestorOrSelf ancestor id = .ok found ∧
      (found = true ↔ t.Below ancestor id) ∧
      ∀ fuel, t.size ≤ fuel → t.meetsAbove ancestor fuel id = .ok found
  /-- The depth of a node is the length of the only way down to it from the root; it is found
  by looking at so many nodes and at the node itself, which are no more than there are. -/
  depth : ∀ id, id < t.size →
    ∃ root path, t.root = some root ∧ t.descend root path = some id ∧
      (∀ path', t.descend root path' = some id → path' = path) ∧
      t.depth id = .ok path.length ∧ path.length + 1 ≤ t.size ∧
      ∀ fuel, t.depthFrom 0 fuel id =
        if path.length + 1 ≤ fuel then .ok path.length else .error .endless

theorem Depicts.ancestry (h : t.Depicts f) : t.Ancestry := by
  refine ⟨?_, ?_⟩
  · intro ancestor id hid
    have hid := h.carries.mem_ids_iff.mpr hid
    have hfound := h.carries.isAncestorOrSelf_eq ancestor hid
    refine ⟨_, hfound, ?_, fun fuel hfuel => ?_⟩
    · rw [decide_eq_true_iff]
      exact h.carries.mem_subtree_iff_below hid
    · rw [h.carries.meetsAbove_eq ancestor hid hfuel, hfound]
  · intro id hid
    obtain ⟨root, hroot, path, hpath, hunique⟩ := h.wellFormed.reached id hid
    have hmem : root ∈ f.roots := by
      rw [h.roots, hroot]
      exact List.mem_cons_self
    obtain ⟨top, htop⟩ := h.carries.shows.exists_node (Forest.mem_ids_of_mem_roots hmem)
    have hparent := (h.carries.parent_eq_none_iff htop).mpr hmem
    obtain ⟨above, habove, hlength⟩ := h.carries.linked.climbs_of_descend htop hparent hpath
    -- The way up that the forest tells of is this one, so that it is no longer than the arena.
    obtain ⟨chain, hchain, hsize, -⟩ := h.carries.exists_climbs (h.carries.mem_ids_iff.mpr hid)
    obtain rfl := hchain.trail.unique habove.trail
    rw [List.length_cons, hlength] at hsize
    have hwalk : ∀ fuel, t.depthFrom 0 fuel id =
        if path.length + 1 ≤ fuel then .ok path.length else .error .endless := by
      intro fuel
      rw [habove.depthFrom_eq, hlength, Nat.zero_add]
      rfl
    refine ⟨root, path, hroot, hpath, hunique, ?_, hsize, hwalk⟩
    rw [Arena.depth, hwalk, if_pos (Nat.le_succ_of_le hsize)]

/-- After every history of changes, refused ones included, looking up from the nodes finds
what the lists of children say. -/
theorem afterAll_ancestry (edits : List (Edit α)) : (empty.afterAll edits).Ancestry :=
  (depicts_empty.afterAll edits).ancestry

/-- A node that was moved below its neighbour stands two steps below the root, whose own move
below it is refused. -/
example : let t := empty.afterAll [.addRoot 'a', .addChild 0 'b', .addChild 0 'c', .adopt 1 2,
      .adopt 2 0]
    t.depth 2 = .ok 2 ∧ t.isAncestorOrSelf 1 2 = .ok true ∧ t.isAncestorOrSelf 2 1 = .ok false := by
  decide

end LoxReader.Arena
