/-
  `Proofs.Arena.History`: what a history of changes does to the forest of an arena.

  Each change is put together from pushing, detaching and attaching a node, so an arena that
  depicts a forest depicts the changed forest afterwards.  By induction an arena with a
  history depicts the forest with the same history, and reading it from its root gives
  this forest.
-/
import LoxReader.Arena.Edit
import LoxReader.Proofs.Arena.Depiction

set_option autoImplicit false

namespace LoxReader

variable {α : Type}

/-! ## Changes to a forest -/

namespace Forest

/-- The number of nodes. -/
def size (f : Forest α) : Nat :=
  f.ids.length

/-- The forest after a change, if the change is not refused.  A new node gets the next
index; a node is only moved below one that does not stand in its subtree. -/
def edited (f : Forest α) : Edit α → Option (Forest α)
  | .addRoot value => some (.cons f.size value f .nil)
  | .addChild parent value =>
    if parent ∈ f.ids then
      some (f.graft parent (.cons f.size value .nil .nil))
    else
      none
  | .adopt newParent id =>
    if id ∈ f.ids ∧ newParent ∈ (f.without id).ids then
      some ((f.without id).graft newParent (f.subtree id))
    else
      none

/-- The forest after a change was asked for. -/
def after (f : Forest α) (edit : Edit α) : Forest α :=
  (f.edited edit).getD f

/-- The forest after a history of changes. -/
def afterAll (f : Forest α) (edits : List (Edit α)) : Forest α :=
  edits.foldl after f

/-- A node is left when a subtree is taken out unless it stands there. -/
theorem mem_without_iff {f : Forest α} {target id : NodeId} (hnodup : f.ids.Nodup) :
    id ∈ (f.without target).ids ↔ id ∈ f.ids ∧ id ∉ (f.subtree target).ids := by
  have hperm := (ids_without_subtree target f).nodup_iff.mpr hnodup
  have hdisjoint := (List.nodup_append'.mp hperm).2.2
  have hsplit : id ∈ f.ids ↔ id ∈ (f.without target).ids ∨ id ∈ (f.subtree target).ids :=
    mem_ids_iff_without_or_subtree
  constructor
  · exact fun hin => ⟨hsplit.mpr (.inl hin), fun hsub => hdisjoint hin hsub⟩
  · exact fun hin => (hsplit.mp hin.1).resolve_right hin.2

end Forest

namespace Arena

variable {t t' : Arena α} {f : Forest α}

/-! ## Arenas with one tree -/

/-- Reading the arena from its root along the lists of children gives the forest. -/
structure Reads (t : Arena α) (f : Forest α) : Prop where
  roots : f.roots = t.root.toList
  shows : t.Shows f

/-- The arena carries the forest that it is read as: its links agree, and each of its nodes
is met once. -/
structure Depicts (t : Arena α) (f : Forest α) : Prop where
  roots : f.roots = t.root.toList
  carries : t.Carries f

theorem Carries.of_nodes_eq (h : t.Carries f) (hnodes : ∀ id : NodeId, t'.nodes[id]? = t.nodes[id]?)
    (hsize : t'.size = t.size) : t'.Carries f := by
  refine ⟨⟨?_, ?_, ?_⟩, h.shows.congr ?_, hsize ▸ h.ids⟩
  · intro id n hn
    refine (h.linked.chained id n (hnodes id ▸ hn)).congr ?_
    exact fun child _ m hm => ⟨m, (hnodes child).trans hm, rfl, rfl, rfl⟩
  · intro id n parent hn hparent
    rw [hnodes] at hn
    obtain ⟨m, hm, hmem⟩ := h.linked.listed id n parent hn hparent
    exact ⟨m, (hnodes parent).trans hm, hmem⟩
  · intro id n hn hparent
    rw [hnodes] at hn
    exact h.linked.alone id n hn hparent
  · exact fun id _ n hn => ⟨n, (hnodes id).trans hn, rfl, rfl⟩

theorem depicts_empty : (empty : Arena α).Depicts .nil :=
  ⟨rfl, carries_empty⟩

namespace Depicts

theorem reads (h : t.Depicts f) : t.Reads f :=
  ⟨h.roots, h.carries.shows⟩

theorem size_eq (h : t.Depicts f) : f.size = t.size := by
  rw [Forest.size, h.carries.ids.length_eq, List.length_range]

/-- Below the root stand all nodes of the arena. -/
theorem eq_cons_of_root (h : t.Depicts f) {root : NodeId} (hroot : t.root = some root) :
    ∃ value below, f = .cons root value below .nil := by
  have hroots := h.roots
  rw [hroot] at hroots
  cases f with
  | nil => cases hroots
  | cons id value below rest =>
      obtain ⟨rfl, hrest⟩ := List.cons.inj hroots
      cases rest with
      | nil => exact ⟨value, below, rfl⟩
      | cons id' value' below' rest' => cases hrest

end Depicts

theorem Reads.unique {g : Forest α} (hf : t.Reads f) (hg : t.Reads g) : f = g :=
  hf.shows.unique hg.shows (hf.roots.trans hg.roots.symm)

/-! ## A new root -/

theorem root_addRoot (t : Arena α) (value : α) : (t.addRoot value).2.root = some t.size := by
  cases t
  simp [addRoot, size]

/-- The old root names the new one. -/
theorem getElem?_addRoot (t : Arena α) (value : α) (id : NodeId) :
    (t.addRoot value).2.nodes[id]? =
      ((t.push ⟨value, none, none, none, t.root.toList⟩).updateAt t.root
        fun n => { n with parent := some t.size }).nodes[id]? := by
  obtain ⟨nodes, root⟩ := t
  cases root <;> rfl

/-- Putting a node above the tree pushes it and attaches the old root below it. -/
theorem getElem?_addRoot_eq_attach {root : NodeId} {n : Node α} (hroot : t.root = some root)
    (hn : t.nodes[root]? = some n) (hprev : n.prev = none) (value : α) (id : NodeId) :
    (t.addRoot value).2.nodes[id]? =
      ((t.push ⟨value, none, none, none, []⟩).attach t.size root).nodes[id]? := by
  have hlt : root < t.size := (Array.getElem?_eq_some_iff.mp hn).1
  have hlast : (t.push ⟨value, none, none, none, []⟩).lastOf t.size = none := by
    rw [lastOf, getElem?_push, if_pos rfl]
    rfl
  rw [getElem?_addRoot, hroot, getElem?_updateAt, getElem?_attach, hlast, getElem?_push,
    getElem?_push]
  by_cases hnew : id = t.size
  · have hne : root ≠ t.size := Nat.ne_of_lt hlt
    simp [hnew, hne]
  · by_cases hid : root = id
    · subst hid
      simp [hnew, hn, hprev, Ne.symm hnew]
    · cases t.nodes[id]? <;> simp [hnew, hid, Ne.symm hnew]

/-- A new root stands above the whole old tree. -/
theorem Depicts.addRoot (h : t.Depicts f) (value : α) :
    (t.addRoot value).2.Depicts (.cons t.size value f .nil) := by
  refine ⟨by rw [root_addRoot]; rfl, ?_⟩
  have hpush := h.carries.push value
  cases hroot : t.root with
  | none =>
      obtain rfl : f = .nil := by
        have hroots := h.roots
        rw [hroot] at hroots
        cases f with
        | nil => rfl
        | cons id value below rest => cases hroots
      refine hpush.of_nodes_eq ?_ (by simp)
      intro id
      cases t
      cases hroot
      rfl
  | some root =>
      obtain ⟨old, below, rfl⟩ := h.eq_cons_of_root hroot
      obtain ⟨n, hn⟩ := h.carries.shows.exists_node (List.mem_cons_self : root ∈ _)
      have htop : n.parent = none := (h.carries.parent_eq_none_iff hn).mpr List.mem_cons_self
      have hprev := (h.carries.linked.alone root n hn htop).1
      have hnew : t.size ∈ (Forest.cons t.size value .nil .nil).ids := List.mem_cons_self
      have hattach := hpush.append_comm.attach hnew
      rw [Forest.graft, if_pos rfl] at hattach
      exact hattach.of_nodes_eq (getElem?_addRoot_eq_attach hroot hn hprev value) (by simp)

/-! ## A new child -/

/-- Putting a node behind the children of another pushes it and attaches it there. -/
theorem addChild_eq_attach {parent : NodeId} {n : Node α} (hn : t.nodes[parent]? = some n)
    (value : α) : t.addChild parent value =
      .ok (t.size, (t.push ⟨value, none, none, none, []⟩).attach parent t.size) := by
  have hlt : parent < t.size := (Array.getElem?_eq_some_iff.mp hn).1
  have hlast : (t.push ⟨value, none, none, none, []⟩).lastOf parent = n.children.getLast? := by
    rw [lastOf, getElem?_push_of_some hn]
    rfl
  rw [addChild, node_eq_ok_iff.mpr hn]
  refine congrArg Except.ok (Prod.ext rfl (ext_getElem? (by simp) ?_))
  intro id
  rw [getElem?_attach, hlast, getElem?_update, getElem?_updateAt, getElem?_push, getElem?_push]
  by_cases hnew : id = t.size
  · have hne : parent ≠ t.size := Nat.ne_of_lt hlt
    by_cases hid : n.children.getLast? = some id <;> simp [hnew, hne] at hid ⊢ <;> simp [hid]
  · cases t.nodes[id]? with
    | none => simp [hnew]
    | some m =>
        by_cases hid : n.children.getLast? = some id <;> by_cases hparent : parent = id <;>
          simp [hnew, Ne.symm hnew, hid, hparent]

/-- A new child is a leaf behind the other children of its parent. -/
theorem Depicts.addChild (h : t.Depicts f) {parent : NodeId} (hparent : parent ∈ f.ids)
    (value : α) : ∃ t', t.addChild parent value = .ok (t.size, t') ∧
      t'.Depicts (f.graft parent (.cons t.size value .nil .nil)) := by
  obtain ⟨n, hn⟩ := h.carries.shows.exists_node hparent
  refine ⟨_, addChild_eq_attach hn value, ?_, (h.carries.push value).attach hparent⟩
  rw [Forest.roots_graft, root_attach, root_push, h.roots]

/-! ## Moving a node -/

/-- A node that is moved is detached and attached again. -/
theorem exists_of_adopt {newParent id : NodeId} (h : t.adopt newParent id = .ok t') :
    ∃ links, t.nodes[id]? = some links ∧ t' = (t.detach id links).attach newParent id := by
  unfold Arena.adopt at h
  split at h
  · cases h
  · cases h
  · split at h
    · cases h
    · rename_i links hlinks
      cases h
      exact ⟨links, node_eq_ok_iff.mp hlinks, rfl⟩

/-- A node that stands outside the subtree of another can become its parent. -/
theorem Depicts.adopt (h : t.Depicts f) {newParent id : NodeId} (hid : id ∈ f.ids)
    (hparent : newParent ∈ (f.without id).ids) :
    ∃ t', t.adopt newParent id = .ok t' ∧
      t'.Depicts ((f.without id).graft newParent (f.subtree id)) := by
  have hnodup := h.carries.nodup
  obtain ⟨hin, hnot⟩ := (Forest.mem_without_iff hnodup).mp hparent
  obtain ⟨links, hlinks⟩ := h.carries.shows.exists_node hid
  -- The node is not the root, below which all nodes stand.
  obtain ⟨parent, htop⟩ : ∃ parent, links.parent = some parent := by
    refine Option.ne_none_iff_exists'.mp fun htop => hnot ?_
    have hroot := (h.carries.parent_eq_none_iff hlinks).mp htop
    rw [h.roots, Option.mem_toList] at hroot
    obtain ⟨value, below, rfl⟩ := h.eq_cons_of_root hroot
    rwa [Forest.subtree, if_pos rfl]
  obtain ⟨value, below, hsub⟩ := Forest.exists_subtree_eq hnodup hid
  refine ⟨(t.detach id links).attach newParent id, ?_, ?_, ?_⟩
  · rw [Arena.adopt, h.carries.isAncestorOrSelf_eq id hin, decide_eq_false hnot]
    simp only [node_eq_ok_iff.mpr hlinks]
  · have hroot : id ∉ f.roots := by
      rw [← h.carries.parent_eq_none_iff hlinks, htop]
      exact fun heq => by cases heq
    rw [Forest.roots_graft, Forest.roots_without, root_attach, root_detach, ← h.roots]
    refine List.filter_eq_self.mpr fun other hother => decide_eq_true ?_
    exact fun heq => hroot (heq ▸ hother)
  · have hdetach := h.carries.detach hlinks htop
    rw [hsub] at hdetach ⊢
    exact hdetach.attach hparent

/-- A move is refused, without going round in circles, if the node would stand below itself
or one of the two indices is past the end. -/
theorem Depicts.adopt_error (h : t.Depicts f) {newParent id : NodeId}
    (hrefused : ¬ (id ∈ f.ids ∧ newParent ∈ (f.without id).ids)) :
    t.adopt newParent id = .error
      (if newParent = id ∨ newParent ∈ (f.subtree id).ids then .cycle newParent id
        else if newParent ∈ f.ids then .outOfRange ⟨t.size, id⟩
        else .outOfRange ⟨t.size, newParent⟩) := by
  have hnodup := h.carries.nodup
  by_cases hin : newParent ∈ f.ids
  · rw [Arena.adopt, h.carries.isAncestorOrSelf_eq id hin]
    by_cases hsub : newParent ∈ (f.subtree id).ids
    · simp [hsub]
    · have hleft : newParent ∈ (f.without id).ids :=
        (Forest.mem_without_iff hnodup).mpr ⟨hin, hsub⟩
      have hid : id ∉ f.ids := fun hid => hrefused ⟨hid, hleft⟩
      have hne : newParent ≠ id := fun heq => hid (heq ▸ hin)
      have hnode : t.node id = .error (.outOfRange ⟨t.size, id⟩) :=
        node_eq_error_iff.mpr ⟨Nat.not_lt.mp fun hlt => hid (h.carries.mem_ids_iff.mpr hlt), rfl⟩
      simp [hsub, hne, hin, hnode]
  · have hsub : newParent ∉ (f.subtree id).ids := fun hsub => hin (Forest.mem_of_mem_subtree hsub)
    rw [Arena.adopt, isAncestorOrSelf, meetsAbove]
    by_cases hne : newParent = id
    · simp [hne]
    · have hnode : t.node newParent = .error (.outOfRange ⟨t.size, newParent⟩) :=
        node_eq_error_iff.mpr
          ⟨Nat.not_lt.mp fun hlt => hin (h.carries.mem_ids_iff.mpr hlt), rfl⟩
      simp [hne, hsub, hin, hnode]

/-- Moving a node takes it out of every list of children and puts it behind the children of
its new parent. -/
theorem Depicts.childList_of_adopt (h : t.Depicts f) {newParent id other : NodeId}
    (hadopt : t.adopt newParent id = .ok t') {children : List NodeId}
    (hlist : t.childList other = .ok children) :
    t'.childList other =
      .ok (children.filter (· ≠ id) ++ if newParent = other then [id] else []) := by
  obtain ⟨links, hlinks, rfl⟩ := exists_of_adopt hadopt
  obtain ⟨n, hn, rfl⟩ := map_node_eq_ok_iff.mp hlist
  obtain ⟨n', hn', -, hchildren⟩ := h.carries.linked.exists_of_detach hlinks hn
  refine map_node_eq_ok_iff.mpr ⟨_, getElem?_attach_of_some hn', ?_⟩
  simp only [hchildren]
  split
  · rfl
  · rw [List.append_nil]

/-! ## Values -/

/-- No change gives a node another value. -/
theorem exists_of_after {id : NodeId} {n : Node α} (hn : t.nodes[id]? = some n)
    (edit : Edit α) : ∃ n', (t.after edit).nodes[id]? = some n' ∧ n'.value = n.value := by
  have hlt : id < t.size := (Array.getElem?_eq_some_iff.mp hn).1
  cases edit with
  | addRoot value =>
      have hafter : t.after (.addRoot value) = (t.addRoot value).2 := rfl
      rw [hafter, getElem?_addRoot, getElem?_updateAt, getElem?_push_of_some hn]
      split
      · exact ⟨_, rfl, rfl⟩
      · exact ⟨_, rfl, rfl⟩
  | addChild parent value =>
      rw [Arena.after, Arena.apply]
      cases hparent : t.nodes[parent]? with
      | none =>
          have hle : t.size ≤ parent := Array.getElem?_eq_none_iff.mp hparent
          rw [Arena.addChild, node_eq_error_iff.mpr ⟨hle, rfl⟩]
          exact ⟨n, hn, rfl⟩
      | some m =>
          rw [addChild_eq_attach hparent]
          exact ⟨_, getElem?_attach_of_some (getElem?_push_of_some hn), rfl⟩
  | adopt newParent moved =>
      rw [Arena.after, Arena.apply]
      cases hadopt : t.adopt newParent moved with
      | error fault => exact ⟨n, hn, rfl⟩
      | ok t' =>
          obtain ⟨links, -, rfl⟩ := exists_of_adopt hadopt
          exact ⟨_, getElem?_attach_of_some (getElem?_detach_of_some hn), rfl⟩

theorem value_after {id : NodeId} {value : α} (h : t.value id = .ok value) (edit : Edit α) :
    (t.after edit).value id = .ok value := by
  obtain ⟨n, hn, rfl⟩ := map_node_eq_ok_iff.mp h
  obtain ⟨n', hn', hvalue⟩ := exists_of_after hn edit
  exact map_node_eq_ok_iff.mpr ⟨n', hn', hvalue⟩

/-! ## Histories -/

/-- Which node a change adds, if it is not refused. -/
def added (t : Arena α) : Edit α → Option NodeId
  | .addRoot _ => some t.size
  | .addChild _ _ => some t.size
  | .adopt _ _ => none

/-- A change that a forest admits is made to the arena as well. -/
theorem Depicts.apply_eq_ok (h : t.Depicts f) {edit : Edit α} {f' : Forest α}
    (hf' : f.edited edit = some f') :
    ∃ t', t.apply edit = .ok (t.added edit, t') ∧ t'.Depicts f' := by
  cases edit with
  | addRoot value =>
      rw [Forest.edited, h.size_eq, Option.some.injEq] at hf'
      refine ⟨(t.addRoot value).2, ?_, hf' ▸ h.addRoot value⟩
      rw [Arena.apply, added, ← fst_addRoot t value]
  | addChild parent value =>
      rw [Forest.edited, h.size_eq] at hf'
      split at hf'
      · rename_i hparent
        obtain ⟨t', ht', hdepicts⟩ := h.addChild hparent value
        exact ⟨t', by rw [Arena.apply, ht', added], Option.some.inj hf' ▸ hdepicts⟩
      · cases hf'
  | adopt newParent id =>
      rw [Forest.edited] at hf'
      split at hf'
      · rename_i hmove
        obtain ⟨t', ht', hdepicts⟩ := h.adopt hmove.1 hmove.2
        exact ⟨t', by rw [Arena.apply, ht', added], Option.some.inj hf' ▸ hdepicts⟩
      · cases hf'

/-- A change that a forest refuses is refused by the arena as well, which never looks for
a reason in circles. -/
theorem Depicts.apply_eq_error (h : t.Depicts f) {edit : Edit α} (hf : f.edited edit = none) :
    ∃ fault, t.apply edit = .error fault ∧ fault ≠ .endless := by
  cases edit with
  | addRoot value => cases hf
  | addChild parent value =>
      rw [Forest.edited] at hf
      split at hf
      · cases hf
      · rename_i hparent
        have hnode : t.node parent = .error (.outOfRange ⟨t.size, parent⟩) :=
          node_eq_error_iff.mpr
            ⟨Nat.not_lt.mp fun hlt => hparent (h.carries.mem_ids_iff.mpr hlt), rfl⟩
        exact ⟨_, by rw [Arena.apply, Arena.addChild, hnode], by simp⟩
  | adopt newParent id =>
      rw [Forest.edited] at hf
      split at hf
      · cases hf
      · rename_i hmove
        refine ⟨_, by rw [Arena.apply, h.adopt_error hmove], ?_⟩
        split
        · simp
        · split <;> simp

theorem Depicts.after (h : t.Depicts f) (edit : Edit α) :
    (t.after edit).Depicts (f.after edit) := by
  rw [Arena.after, Forest.after]
  cases hf : f.edited edit with
  | none =>
      obtain ⟨fault, hfault, -⟩ := h.apply_eq_error hf
      rw [hfault]
      exact h
  | some f' =>
      obtain ⟨t', ht', hdepicts⟩ := h.apply_eq_ok hf
      rw [ht']
      exact hdepicts

/-- An arena goes through a history of changes as its forest does. -/
theorem Depicts.afterAll (h : t.Depicts f) (edits : List (Edit α)) :
    (t.afterAll edits).Depicts (f.afterAll edits) := by
  induction edits generalizing t f with
  | nil => exact h
  | cons edit edits ih => exact ih (h.after edit)

/-! ## Refinement -/

/-- An arena refines a forest: it is read as this forest alone, each of its indices stands
in the forest once, and what a change does to the arena is told by the forest. -/
structure Refines (t : Arena α) (f : Forest α) : Prop where
  reads : t.Reads f
  unique : ∀ g, t.Reads g → g = f
  mem_ids_iff : ∀ id, id ∈ f.ids ↔ id < t.size
  nodup : f.ids.Nodup
  /-- A new root gets the next index and stands above the whole old tree. -/
  addRoot : ∀ value, ∃ t', t.addRoot value = (t.size, t') ∧ t'.size = t.size + 1 ∧
    t'.Reads (.cons t.size value f .nil)
  /-- A new child gets the next index and is a leaf behind the other children. -/
  addChild : ∀ parent value, parent < t.size →
    ∃ t', t.addChild parent value = .ok (t.size, t') ∧ t'.size = t.size + 1 ∧
      t'.Reads (f.graft parent (.cons t.size value .nil .nil))
  /-- A node can be moved below every node outside its subtree. -/
  moves : ∀ newParent id, id < t.size → newParent ∈ (f.without id).ids →
    ∃ t', t.adopt newParent id = .ok t'
  /-- A node that is moved takes its subtree along and stands behind the other children. -/
  adopt : ∀ newParent id t', t.adopt newParent id = .ok t' →
    id < t.size ∧ newParent ∈ (f.without id).ids ∧ t'.size = t.size ∧
      t'.Reads ((f.without id).graft newParent (f.subtree id))
  /-- Moving a node keeps the order of all other nodes. -/
  childLists : ∀ newParent id t', t.adopt newParent id = .ok t' →
    ∀ other children, t.childList other = .ok children → t'.childList other =
      .ok (children.filter (· ≠ id) ++ if newParent = other then [id] else [])
  /-- No change gives a node another value. -/
  values : ∀ edit id value, t.value id = .ok value → (t.after edit).value id = .ok value

theorem Depicts.refines (h : t.Depicts f) : t.Refines f where
  reads := h.reads
  unique _ hg := hg.unique h.reads
  mem_ids_iff _ := h.carries.mem_ids_iff
  nodup := h.carries.nodup
  addRoot value := ⟨_, by rw [← fst_addRoot t value], size_addRoot t value,
    (h.addRoot value).reads⟩
  addChild parent value hparent := by
    obtain ⟨t', ht', hdepicts⟩ := h.addChild (h.carries.mem_ids_iff.mpr hparent) value
    exact ⟨t', ht', (size_of_addChild ht').2, hdepicts.reads⟩
  moves newParent id hid hparent := by
    obtain ⟨t', ht', -⟩ := h.adopt (h.carries.mem_ids_iff.mpr hid) hparent
    exact ⟨t', ht'⟩
  adopt newParent id t' hadopt := by
    by_cases hmove : id ∈ f.ids ∧ newParent ∈ (f.without id).ids
    · obtain ⟨t'', ht'', hdepicts⟩ := h.adopt hmove.1 hmove.2
      obtain rfl : t'' = t' := Except.ok.inj (ht''.symm.trans hadopt)
      exact ⟨h.carries.mem_ids_iff.mp hmove.1, hmove.2, size_of_adopt hadopt, hdepicts.reads⟩
    · rw [h.adopt_error hmove] at hadopt
      cases hadopt
  childLists _ _ _ hadopt _ _ hlist := h.childList_of_adopt hadopt hlist
  values edit _ _ hvalue := value_after hvalue edit

/-- After every history of changes, refused ones included, the arena refines the forest with
this history. -/
theorem afterAll_refines (edits : List (Edit α)) :
    (empty.afterAll edits).Refines (Forest.nil.afterAll edits) :=
  (depicts_empty.afterAll edits).refines

/-- A node is moved past its neighbour, then another one below it; moving a node below its own
child is refused. -/
example : (Forest.nil.afterAll [.addRoot 'a', .addChild 0 'b', .addChild 0 'c', .adopt 0 1,
    .addChild 2 'd', .adopt 1 2, .adopt 2 1]) =
      .cons 0 'a' (.cons 1 'b' (.cons 2 'c' (.cons 3 'd' .nil .nil) .nil) .nil) .nil := by
  decide

end Arena

end LoxReader
