/-
  `Proofs.Arena.Paths`: ways down a tree.

  A way down says for each step which child it goes to.  In an arena with a history each
  node is at the end of exactly one way from the root, so that the lists of children
  describe a tree; and walking from neighbour to neighbour finds the children that are
  listed.
-/
import LoxReader.Proofs.Arena.Agreement
import LoxReader.Proofs.Arena.History
import Mathlib.Data.List.Induction
import Mathlib.Data.List.Perm.Subperm

set_option autoImplicit false

namespace LoxReader.Arena

variable {α : Type} {t : Arena α} {f : Forest α}

/-- The node at the end of a way down from `id`, which says for each step the index of the
child it goes to. -/
def descend (t : Arena α) : NodeId → List Nat → Option NodeId
  | id, [] => some id
  | id, index :: path =>
    (t.nodes[id]?.bind (·.children[index]?)).bind fun child => t.descend child path

/-- The last step of a way down. -/
theorem descend_concat_eq_some {id last : NodeId} {path : List Nat} {index : Nat} :
    t.descend id (path ++ [index]) = some last ↔
      ∃ parent n, t.descend id path = some parent ∧ t.nodes[parent]? = some n ∧
        n.children[index]? = some last := by
  induction path generalizing id with
  | nil => simp [descend, Option.bind_eq_some_iff]
  | cons first path ih =>
      rw [List.cons_append, descend, descend]
      cases t.nodes[id]?.bind (·.children[first]?) with
      | none => simp
      | some child => exact ih

/-- The second node is the first or stands below it, along the lists of children. -/
inductive Below (t : Arena α) : NodeId → NodeId → Prop
  | self {id : NodeId} : t.Below id id
  | child {id child other : NodeId} {n : Node α} :
      t.nodes[id]? = some n → child ∈ n.children → t.Below child other → t.Below id other

theorem Below.eq_or_exists {id other : NodeId} (h : t.Below id other) {n : Node α}
    (hn : t.nodes[id]? = some n) : other = id ∨ ∃ child ∈ n.children, t.Below child other := by
  cases h with
  | self => exact .inl rfl
  | child hn' hchild hother =>
      obtain rfl := Option.some.inj (hn.symm.trans hn')
      exact .inr ⟨_, hchild, hother⟩

/-- What a way down from a node leads to stands below the node. -/
theorem below_of_descend {path : List Nat} {id other : NodeId}
    (h : t.descend id path = some other) : t.Below id other := by
  induction path generalizing id with
  | nil =>
      obtain rfl := Option.some.inj h
      exact .self
  | cons index path ih =>
      obtain ⟨child, hstep, hpath⟩ := Option.bind_eq_some_iff.mp h
      obtain ⟨n, hn, hchild⟩ := Option.bind_eq_some_iff.mp hstep
      exact .child hn (List.mem_of_getElem? hchild) (ih hpath)

/-! ## The way to a node -/

/-- A way leads from a top node of the forest down to each of its nodes. -/
theorem Shows.exists_descend (h : t.Shows f) {id : NodeId} (hid : id ∈ f.ids) :
    ∃ (index : Nat) (root : NodeId) (path : List Nat),
      f.roots[index]? = some root ∧ t.descend root path = some id := by
  induction f with
  | nil => cases hid
  | cons first value below rest ihb ihr =>
      obtain ⟨⟨n, hn, -, hchildren⟩, hbelow, hrest⟩ := h
      rw [Forest.ids, List.mem_cons, List.mem_append] at hid
      rcases hid with rfl | hid | hid
      · exact ⟨0, id, [], rfl, rfl⟩
      · obtain ⟨index, root, path, hroot, hpath⟩ := ihb hbelow hid
        refine ⟨0, first, index :: path, rfl, ?_⟩
        rw [← hchildren] at hroot
        simp only [descend, hn, Option.bind_some, hroot, hpath]
      · obtain ⟨index, root, path, hroot, hpath⟩ := ihr hrest hid
        exact ⟨index + 1, root, path, hroot, hpath⟩

/-- What stands below a node of the forest stands in the forest. -/
theorem Shows.mem_of_below (h : t.Shows f) (hnodup : f.ids.Nodup) {id other : NodeId}
    (hid : id ∈ f.ids) (hbelow : t.Below id other) : other ∈ f.ids := by
  induction hbelow with
  | self => exact hid
  | child hn hchild _ ih => exact ih (h.listed_mem hnodup hid hn hchild).1

/-- The nodes of a subtree are those below its top. -/
theorem Carries.mem_subtree_iff (h : t.Carries f) {top id : NodeId} (htop : top ∈ f.ids) :
    id ∈ (f.subtree top).ids ↔ t.Below top id := by
  have hshows := h.shows.subtree top
  have hnodup := (Forest.subtree_sublist top f).nodup h.nodup
  obtain ⟨value, below, hsub⟩ := Forest.exists_subtree_eq h.nodup htop
  constructor
  · intro hid
    obtain ⟨index, root, path, hroot, hpath⟩ := hshows.exists_descend hid
    have hmem := List.mem_of_getElem? hroot
    rw [hsub] at hmem
    obtain rfl := List.mem_singleton.mp hmem
    exact below_of_descend hpath
  · refine hshows.mem_of_below hnodup ?_
    rw [hsub]
    exact List.mem_cons_self

namespace Linked

/-- No two ways down from a node without a parent end at the same node: their last steps
leave the only parent of that node, for its only place there. -/
theorem descend_unique (h : t.Linked) {root id : NodeId} {top : Node α}
    (htop : t.nodes[root]? = some top) (hparent : top.parent = none) {path path' : List Nat}
    (hpath : t.descend root path = some id) (hpath' : t.descend root path' = some id) :
    path = path' := by
  -- The end of a way with a last step has a parent.
  have hlast : ∀ (path : List Nat) (index : Nat), t.descend root (path ++ [index]) ≠ some root := by
    intro path index heq
    obtain ⟨parent, n, -, hn, hchild⟩ := descend_concat_eq_some.mp heq
    rw [h.parent_eq hn (List.mem_of_getElem? hchild) htop] at hparent
    cases hparent
  induction path using List.reverseRecOn generalizing path' id with
  | nil =>
      obtain rfl := Option.some.inj hpath
      rcases List.eq_nil_or_concat path' with rfl | ⟨path', index', rfl⟩
      · rfl
      · rw [List.concat_eq_append] at hpath'
        exact absurd hpath' (hlast path' index')
  | append_singleton path index ih =>
      rcases List.eq_nil_or_concat path' with rfl | ⟨path', index', rfl⟩
      · obtain rfl := Option.some.inj hpath'
        exact absurd hpath (hlast path index)
      · rw [List.concat_eq_append] at hpath' ⊢
        obtain ⟨parent, n, hup, hn, hchild⟩ := descend_concat_eq_some.mp hpath
        obtain ⟨parent', n', hup', hn', hchild'⟩ := descend_concat_eq_some.mp hpath'
        obtain ⟨m, hm, hone⟩ := h.exists_child hn (List.mem_of_getElem? hchild)
        have htwo := h.parent_eq hn' (List.mem_of_getElem? hchild') hm
        obtain rfl : parent = parent' := Option.some.inj (hone.symm.trans htwo)
        obtain rfl : n = n' := Option.some.inj (hn.symm.trans hn')
        have hlt : index < n.children.length := (List.getElem?_eq_some_iff.mp hchild).1
        have hindex : index = index' :=
          (List.getElem?_inj hlt (h.nodup hn)).mp (hchild.trans hchild'.symm)
        rw [ih hup hup', hindex]

/-! ## Walking among siblings -/

theorem siblingChain_eq (h : t.Linked) {id : NodeId} {n : Node α} (hn : t.node id = .ok n)
    (hlength : n.children.length ≤ t.size) : t.siblingChain id = .ok n.children := by
  have hchained := h.chained id n (node_eq_ok_iff.mp hn)
  rw [siblingChain, firstChild, hn]
  exact hchained.chainFrom_eq [] hlength

theorem child_eq (h : t.Linked) {id : NodeId} {n : Node α} (hn : t.node id = .ok n)
    (index : Nat) : t.child id index = .ok n.children[index]? := by
  have hchained := h.chained id n (node_eq_ok_iff.mp hn)
  rw [child, firstChild, hn]
  exact hchained.follow_eq index

end Linked

/-! ## Well-formed arenas -/

/-- The links of an arena agree and describe one tree of all its nodes. -/
structure WellFormed (t : Arena α) : Prop where
  links : t.checkLinks = .ok ()
  /-- Each node is at the end of one way down from the root. -/
  reached : ∀ id, id < t.size →
    ∃ root, t.root = some root ∧ ∃! path, t.descend root path = some id
  /-- No way down from the root leaves the arena. -/
  within : ∀ root path id, t.root = some root → t.descend root path = some id → id < t.size
  /-- From neighbour to neighbour the listed children of a node are found, and no more. -/
  siblingChain : ∀ id n, t.node id = .ok n → t.siblingChain id = .ok n.children
  child : ∀ id n index, t.node id = .ok n → t.child id index = .ok n.children[index]?
  /-- A change is made or refused; it never goes round in circles. -/
  settled : ∀ edit, t.apply edit ≠ .error .endless

theorem Depicts.wellFormed (h : t.Depicts f) : t.WellFormed := by
  have hlinked := h.carries.linked
  have hroot : ∀ root, t.root = some root → root ∈ f.roots := by
    intro root hroot
    rw [h.roots, hroot]
    exact List.mem_cons_self
  refine ⟨?_, ?_, ?_, ?_, ?_, ?_⟩
  · refine checkLinks_eq_ok_iff.mpr ⟨hlinked, fun id n hn hparent => ?_⟩
    have hid := (h.carries.parent_eq_none_iff hn).mp hparent
    rwa [h.roots, Option.mem_toList] at hid
  · intro id hid
    obtain ⟨index, root, path, hindex, hpath⟩ :=
      h.carries.shows.exists_descend (h.carries.mem_ids_iff.mpr hid)
    have hmem : root ∈ f.roots := List.mem_of_getElem? hindex
    obtain ⟨top, htop⟩ := h.carries.shows.exists_node (Forest.mem_ids_of_mem_roots hmem)
    have hparent := (h.carries.parent_eq_none_iff htop).mpr hmem
    rw [h.roots, Option.mem_toList] at hmem
    exact ⟨root, hmem, path, hpath, fun path' hpath' =>
      hlinked.descend_unique htop hparent hpath' hpath⟩
  · intro root path id hroot' hpath
    rcases List.eq_nil_or_concat path with rfl | ⟨path, index, rfl⟩
    · obtain rfl := Option.some.inj hpath
      exact h.carries.mem_ids_iff.mp (Forest.mem_ids_of_mem_roots (hroot root hroot'))
    · rw [List.concat_eq_append] at hpath
      obtain ⟨parent, n, -, hn, hchild⟩ := descend_concat_eq_some.mp hpath
      obtain ⟨m, hm, -⟩ := hlinked.exists_child hn (List.mem_of_getElem? hchild)
      exact (Array.getElem?_eq_some_iff.mp hm).1
  · intro id n hn
    refine hlinked.siblingChain_eq hn ?_
    have hn := node_eq_ok_iff.mp hn
    have hsub : n.children ⊆ List.range t.size := by
      intro child hchild
      obtain ⟨m, hm, -⟩ := hlinked.exists_child hn hchild
      exact List.mem_range.mpr (Array.getElem?_eq_some_iff.mp hm).1
    have hlength := (List.subperm_of_subset (hlinked.nodup hn) hsub).length_le
    rwa [List.length_range] at hlength
  · exact fun id n index hn => hlinked.child_eq hn index
  · intro edit hendless
    cases hf : f.edited edit with
    | none =>
        obtain ⟨fault, hfault, hne⟩ := h.apply_eq_error hf
        exact hne (Except.error.inj (hfault.symm.trans hendless))
    | some f' =>
        obtain ⟨t', ht', -⟩ := h.apply_eq_ok hf
        rw [ht'] at hendless
        cases hendless

/-- Every history of changes, refused ones included, leads to a well-formed arena. -/
theorem afterAll_wellFormed (edits : List (Edit α)) : (empty.afterAll edits).WellFormed :=
  (depicts_empty.afterAll edits).wellFormed

end LoxReader.Arena
