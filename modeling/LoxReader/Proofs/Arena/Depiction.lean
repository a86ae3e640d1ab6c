/-
  `Proofs.Arena.Depiction`: the forest that an arena is read as.

  An arena shows a forest if the nodes of the forest have its values and list its children.
  If its links agree and each of its nodes stands in the forest once, the arena carries the
  forest.  Pushing, detaching and attaching a node then do to the forest what their names
  say, and looking up from a node finds the nodes in whose subtrees it stands.
-/
import LoxReader.Proofs.Arena.Forest
import LoxReader.Proofs.Arena.Linked

set_option autoImplicit false

namespace LoxReader.Arena

variable {α : Type} {t t' : Arena α} {f g : Forest α}

/-! ## Reading an arena -/

/-- The nodes of the forest have its values in the arena and list its children. -/
def Shows (t : Arena α) : Forest α → Prop
  | .nil => True
  | .cons id value below rest =>
    (∃ n, t.nodes[id]? = some n ∧ n.value = value ∧ n.children = below.roots) ∧
      t.Shows below ∧ t.Shows rest

theorem shows_append : t.Shows (f.append g) ↔ t.Shows f ∧ t.Shows g := by
  induction f with
  | nil => simp [Forest.append, Shows]
  | cons id value below rest _ ihr =>
      rw [Forest.append, Shows, Shows, ihr, and_assoc, and_assoc]

namespace Shows

/-- An arena shows one forest below the same top nodes. -/
theorem unique (hf : t.Shows f) (hg : t.Shows g) (hroots : f.roots = g.roots) : f = g := by
  induction f generalizing g with
  | nil =>
      cases g with
      | nil => rfl
      | cons id value below rest => cases hroots
  | cons id value below rest ihb ihr =>
      cases g with
      | nil => cases hroots
      | cons id' value' below' rest' =>
          obtain ⟨rfl, hrest⟩ := List.cons.inj hroots
          obtain ⟨⟨n, hn, hvalue, hchildren⟩, hbelow, hafter⟩ := hf
          obtain ⟨⟨n', hn', hvalue', hchildren'⟩, hbelow', hafter'⟩ := hg
          obtain rfl : n = n' := Option.some.inj (hn.symm.trans hn')
          rw [← hvalue, ← hvalue', ihb hbelow hbelow' (hchildren.symm.trans hchildren'),
            ihr hafter hafter' hrest]

theorem exists_node (h : t.Shows f) {id : NodeId} (hid : id ∈ f.ids) :
    ∃ n, t.nodes[id]? = some n := by
  induction f with
  | nil => cases hid
  | cons first value below rest ihb ihr =>
      obtain ⟨⟨n, hn, -⟩, hbelow, hrest⟩ := h
      rw [Forest.ids, List.mem_cons, List.mem_append] at hid
      rcases hid with rfl | hid | hid
      · exact ⟨n, hn⟩
      · exact ihb hbelow hid
      · exact ihr hrest hid

/-- Each node of a forest is at its top or is listed by another. -/
theorem root_or_listed (h : t.Shows f) {id : NodeId} (hid : id ∈ f.ids) :
    id ∈ f.roots ∨
      ∃ (parent : NodeId) (m : Node α), t.nodes[parent]? = some m ∧ id ∈ m.children := by
  induction f with
  | nil => cases hid
  | cons first value below rest ihb ihr =>
      obtain ⟨⟨n, hn, -, hchildren⟩, hbelow, hrest⟩ := h
      rw [Forest.ids, List.mem_cons, List.mem_append] at hid
      rcases hid with rfl | hid | hid
      · exact .inl List.mem_cons_self
      · rcases ihb hbelow hid with hroot | hlisted
        · exact .inr ⟨first, n, hn, by rwa [hchildren]⟩
        · exact .inr hlisted
      · rcases ihr hrest hid with hroot | hlisted
        · exact .inl (List.mem_cons_of_mem _ hroot)
        · exact .inr hlisted

/-- What a node of a forest lists stands in the forest, but not at its top. -/
theorem listed_mem (h : t.Shows f) (hnodup : f.ids.Nodup) {parent id : NodeId} {m : Node α}
    (hparent : parent ∈ f.ids) (hm : t.nodes[parent]? = some m) (hid : id ∈ m.children) :
    id ∈ f.ids ∧ id ∉ f.roots := by
  induction f with
  | nil => cases hparent
  | cons first value below rest ihb ihr =>
      obtain ⟨⟨n, hn, -, hchildren⟩, hbelow, hrest⟩ := h
      obtain ⟨⟨hfb, hfr⟩, hnb, hnr, hdisjoint⟩ := Forest.nodup_cons.mp hnodup
      -- A node below the first top node is neither this node nor one behind it.
      have hinside : id ∈ below.ids →
          id ∈ (Forest.cons first value below rest).ids ∧
            id ∉ (Forest.cons first value below rest).roots := by
        intro hin
        refine ⟨List.mem_cons_of_mem _ (List.mem_append_left _ hin), ?_⟩
        rw [Forest.roots, List.mem_cons, not_or]
        exact ⟨fun heq => hfb (heq ▸ hin),
          fun hroot => hdisjoint hin (Forest.mem_ids_of_mem_roots hroot)⟩
      rw [Forest.ids, List.mem_cons, List.mem_append] at hparent
      rcases hparent with rfl | hparent | hparent
      · obtain rfl : n = m := Option.some.inj (hn.symm.trans hm)
        rw [hchildren] at hid
        exact hinside (Forest.mem_ids_of_mem_roots hid)
      · exact hinside (ihb hbelow hnb hparent).1
      · obtain ⟨hin, hroot⟩ := ihr hrest hnr hparent
        refine ⟨List.mem_cons_of_mem _ (List.mem_append_right _ hin), ?_⟩
        rw [Forest.roots, List.mem_cons, not_or]
        exact ⟨fun heq => hfr (heq ▸ hin), hroot⟩

theorem subtree (h : t.Shows f) (target : NodeId) : t.Shows (f.subtree target) := by
  induction f with
  | nil => trivial
  | cons id value below rest ihb ihr =>
      obtain ⟨hnode, hbelow, hrest⟩ := h
      unfold Forest.subtree
      split
      · exact ⟨hnode, hbelow, ihr hrest⟩
      · exact shows_append.mpr ⟨ihb hbelow, ihr hrest⟩

/-! ## What a change does to the forest that is shown -/

theorem congr (h : t.Shows f) (hsame : ∀ id ∈ f.ids, ∀ n, t.nodes[id]? = some n →
    ∃ n', t'.nodes[id]? = some n' ∧ n'.value = n.value ∧ n'.children = n.children) :
    t'.Shows f := by
  induction f with
  | nil => trivial
  | cons id value below rest ihb ihr =>
      obtain ⟨⟨n, hn, hvalue, hchildren⟩, hbelow, hrest⟩ := h
      obtain ⟨hfirst, hmore⟩ := List.forall_mem_cons.mp hsame
      obtain ⟨n', hn', hvalue', hchildren'⟩ := hfirst n hn
      exact ⟨⟨n', hn', hvalue'.trans hvalue, hchildren'.trans hchildren⟩,
        ihb hbelow fun id hid => hmore id (List.mem_append_left _ hid),
        ihr hrest fun id hid => hmore id (List.mem_append_right _ hid)⟩

/-- If no node lists the target any more, its subtree is gone. -/
theorem without (h : t.Shows f) {target : NodeId}
    (hsame : ∀ (id : NodeId) (n : Node α), t.nodes[id]? = some n →
      ∃ n' : Node α, t'.nodes[id]? = some n' ∧ n'.value = n.value ∧
        n'.children = n.children.filter (· ≠ target)) : t'.Shows (f.without target) := by
  induction f with
  | nil => trivial
  | cons id value below rest ihb ihr =>
      obtain ⟨⟨n, hn, hvalue, hchildren⟩, hbelow, hrest⟩ := h
      unfold Forest.without
      split
      · exact ihr hrest
      · obtain ⟨n', hn', hvalue', hchildren'⟩ := hsame id n hn
        refine ⟨⟨n', hn', hvalue'.trans hvalue, ?_⟩, ihb hbelow, ihr hrest⟩
        rw [hchildren', hchildren, Forest.roots_without]

/-- If one node lists the top nodes of `sub` behind its other children, these are grafted
there. -/
theorem graft {sub : Forest α} (h : t.Shows f) (hsub : t'.Shows sub) {parent : NodeId}
    (hsame : ∀ (id : NodeId) (n : Node α), t.nodes[id]? = some n →
      ∃ n' : Node α, t'.nodes[id]? = some n' ∧ n'.value = n.value ∧
        n'.children = if parent = id then n.children ++ sub.roots else n.children) :
    t'.Shows (f.graft parent sub) := by
  induction f with
  | nil => trivial
  | cons id value below rest ihb ihr =>
      obtain ⟨⟨n, hn, hvalue, hchildren⟩, hbelow, hrest⟩ := h
      obtain ⟨n', hn', hvalue', hchildren'⟩ := hsame id n hn
      unfold Forest.graft
      split
      · rename_i hid
        rw [if_pos hid.symm, hchildren] at hchildren'
        refine ⟨⟨n', hn', hvalue'.trans hvalue, ?_⟩, shows_append.mpr ⟨ihb hbelow, hsub⟩,
          ihr hrest⟩
        rw [hchildren', Forest.roots_append, Forest.roots_graft]
      · rename_i hid
        rw [if_neg (Ne.symm hid), hchildren] at hchildren'
        refine ⟨⟨n', hn', hvalue'.trans hvalue, ?_⟩, ihb hbelow, ihr hrest⟩
        rw [hchildren', Forest.roots_graft]

end Shows

/-! ## Carrying a forest -/

/-- The links of the arena agree, and its nodes are those of the forest, each of which
stands there once. -/
structure Carries (t : Arena α) (f : Forest α) : Prop where
  linked : t.Linked
  shows : t.Shows f
  ids : f.ids.Perm (List.range t.size)

theorem carries_empty : (empty : Arena α).Carries .nil :=
  ⟨linked_empty, trivial, .refl _⟩

namespace Carries

theorem nodup (h : t.Carries f) : f.ids.Nodup :=
  h.ids.nodup_iff.mpr List.nodup_range

theorem mem_ids_iff (h : t.Carries f) {id : NodeId} : id ∈ f.ids ↔ id < t.size := by
  rw [h.ids.mem_iff, List.mem_range]

theorem mem_ids_of_node (h : t.Carries f) {id : NodeId} {n : Node α}
    (hn : t.nodes[id]? = some n) : id ∈ f.ids :=
  h.mem_ids_iff.mpr (Array.getElem?_eq_some_iff.mp hn).1

/-- The top nodes are those without a parent. -/
theorem parent_eq_none_iff (h : t.Carries f) {id : NodeId} {n : Node α}
    (hn : t.nodes[id]? = some n) : n.parent = none ↔ id ∈ f.roots := by
  constructor
  · intro hparent
    refine (h.shows.root_or_listed (h.mem_ids_of_node hn)).resolve_right ?_
    rintro ⟨parent, m, hm, hid⟩
    rw [h.linked.parent_eq hm hid hn] at hparent
    cases hparent
  · intro hroot
    cases hparent : n.parent with
    | none => rfl
    | some parent =>
        obtain ⟨m, hm, hid⟩ := h.linked.listed id n parent hn hparent
        exact absurd hroot (h.shows.listed_mem h.nodup (h.mem_ids_of_node hm) hm hid).2

/-- The order of the trees does not matter. -/
theorem append_comm (h : t.Carries (f.append g)) : t.Carries (g.append f) := by
  refine ⟨h.linked, shows_append.mpr (shows_append.mp h.shows).symm, ?_⟩
  have hids := h.ids
  rw [Forest.ids_append] at hids ⊢
  exact List.perm_append_comm.trans hids

/-- A node that is pushed is a tree of its own. -/
theorem push (h : t.Carries f) (value : α) :
    (t.push ⟨value, none, none, none, []⟩).Carries
      (f.append (.cons t.size value .nil .nil)) := by
  refine ⟨h.linked.push value, shows_append.mpr ⟨?_, ?_⟩, ?_⟩
  · refine h.shows.congr ?_
    intro id _ n hn
    exact ⟨n, getElem?_push_of_some hn, rfl, rfl⟩
  · exact ⟨⟨_, by rw [getElem?_push, if_pos rfl], rfl, rfl⟩, trivial, trivial⟩
  · rw [Forest.ids_append, size_push, List.range_succ]
    exact h.ids.append_right _

/-- A node that is detached is the top of a tree of its own. -/
theorem detach (h : t.Carries f) {parent id : NodeId} {links : Node α}
    (hlinks : t.nodes[id]? = some links) (hparent : links.parent = some parent) :
    (t.detach id links).Carries ((f.without id).append (f.subtree id)) := by
  have hsame : ∀ (j : NodeId) (n : Node α), t.nodes[j]? = some n →
      ∃ n' : Node α, (t.detach id links).nodes[j]? = some n' ∧ n'.value = n.value ∧
        n'.children = n.children.filter (· ≠ id) :=
    fun j n hn => h.linked.exists_of_detach hlinks hn
  obtain ⟨value, below, hsub⟩ := Forest.exists_subtree_eq h.nodup (h.mem_ids_of_node hlinks)
  have hshows := h.shows.subtree id
  have hnodup : (f.subtree id).ids.Nodup :=
    (List.nodup_append'.mp ((Forest.ids_without_subtree id f).nodup_iff.mpr h.nodup)).2.1
  rw [hsub] at hshows hnodup
  have hid : id ∉ below.ids := (Forest.nodup_cons.mp hnodup).1.1
  refine ⟨h.linked.detach hlinks hparent,
    shows_append.mpr ⟨h.shows.without hsame, ?_⟩, ?_⟩
  · obtain ⟨⟨n, hn, hvalue, hchildren⟩, hbelow, -⟩ := hshows
    obtain ⟨n', hn', hvalue', hchildren'⟩ := hsame id n hn
    have hbelow' := hbelow.without hsame
    rw [Forest.without_of_not_mem hid] at hbelow'
    rw [hsub]
    refine ⟨⟨n', hn', hvalue'.trans hvalue, ?_⟩, hbelow', trivial⟩
    rw [hchildren', hchildren, ← Forest.roots_without, Forest.without_of_not_mem hid]
  · rw [Forest.ids_append, size_detach]
    exact (Forest.ids_without_subtree id f).trans h.ids

/-- A tree that is attached below a node of another one becomes a part of that. -/
theorem attach {parent id : NodeId} {value : α} {below : Forest α}
    (h : t.Carries (f.append (.cons id value below .nil))) (hparent : parent ∈ f.ids) :
    (t.attach parent id).Carries (f.graft parent (.cons id value below .nil)) := by
  have hids := h.ids
  have hnodup := h.nodup
  rw [Forest.ids_append] at hids hnodup
  obtain ⟨hnf, -, hdisjoint⟩ := List.nodup_append'.mp hnodup
  obtain ⟨hf, hsub⟩ := shows_append.mp h.shows
  obtain ⟨m, hm⟩ := hf.exists_node hparent
  obtain ⟨n, hn⟩ := hsub.exists_node (List.mem_cons_self : id ∈ _)
  have htop : n.parent = none := by
    rw [h.parent_eq_none_iff hn, Forest.roots_append]
    exact List.mem_append_right _ List.mem_cons_self
  have hsame : ∀ (j : NodeId) (k : Node α), t.nodes[j]? = some k →
      ∃ k' : Node α, (t.attach parent id).nodes[j]? = some k' ∧ k'.value = k.value ∧
        k'.children = if parent = j then k.children ++ [id] else k.children :=
    fun j k hk => ⟨_, getElem?_attach_of_some hk, rfl, rfl⟩
  refine ⟨h.linked.attach hm hn htop, hf.graft ?_ hsame, ?_⟩
  · refine hsub.congr ?_
    intro j hj k hk
    obtain ⟨k', hk', hvalue, hchildren⟩ := hsame j k hk
    refine ⟨k', hk', hvalue, ?_⟩
    rw [hchildren, if_neg]
    rintro rfl
    exact hdisjoint hparent hj
  · rw [size_attach]
    exact (Forest.ids_graft _ hnf hparent).trans hids

end Carries

/-! ## Looking up -/

/-- The nodes from the one that a link leads to up to the top. -/
def Climbs (t : Arena α) : Option NodeId → List NodeId → Prop
  | link, [] => link = none
  | link, id :: path => link = some id ∧ ∃ n, t.nodes[id]? = some n ∧ t.Climbs n.parent path

/-- Looking up from a node meets the nodes on the way to the top. -/
theorem Climbs.meetsAbove_eq {id : NodeId} {path : List NodeId} (h : t.Climbs (some id) path)
    (target : NodeId) {fuel : Nat} (hfuel : path.length ≤ fuel) :
    t.meetsAbove target fuel id = .ok (decide (target ∈ path)) := by
  induction path generalizing id fuel with
  | nil => cases h
  | cons first path ih =>
      obtain ⟨hid, n, hn, hpath⟩ := h
      obtain rfl := Option.some.inj hid
      obtain ⟨fuel, rfl⟩ := Nat.exists_eq_add_of_le' (Nat.le_trans (Nat.le_add_left 1 _) hfuel)
      rw [meetsAbove]
      by_cases htarget : id = target
      · rw [if_pos htarget]
        simp [htarget]
      · rw [if_neg htarget, node_eq_ok_iff.mpr hn]
        have hmem : target ∈ id :: path ↔ target ∈ path := by
          simp [Ne.symm htarget]
        simp only [hmem]
        cases hparent : n.parent with
        | none =>
            rw [hparent] at hpath
            cases path with
            | nil => simp
            | cons next path => cases hpath.1
        | some parent =>
            rw [hparent] at hpath
            exact ih hpath (Nat.le_of_succ_le_succ hfuel)

/-- On the way from a node of a forest to its top stand the nodes in whose subtrees the node
is; above the top nodes, the way goes on. -/
theorem Linked.exists_climbs (h : t.Linked) (hshows : t.Shows f) (hnodup : f.ids.Nodup)
    {above : Option NodeId} {upper : List NodeId} (hupper : t.Climbs above upper)
    (hroots : ∀ root ∈ f.roots, ∀ n, t.nodes[root]? = some n → n.parent = above) {id : NodeId}
    (hid : id ∈ f.ids) :
    ∃ path, t.Climbs (some id) (path ++ upper) ∧ path.length ≤ f.ids.length ∧
      ∀ target, target ∈ path ↔ id ∈ (f.subtree target).ids := by
  induction f generalizing above upper with
  | nil => cases hid
  | cons first value below rest ihb ihr =>
      obtain ⟨⟨n, hn, -, hchildren⟩, hbelow, hrest⟩ := hshows
      obtain ⟨⟨hfb, hfr⟩, hnb, hnr, hdisjoint⟩ := Forest.nodup_cons.mp hnodup
      have hparent := hroots first List.mem_cons_self n hn
      have hfirst : t.Climbs (some first) (first :: upper) := ⟨rfl, n, hn, hparent ▸ hupper⟩
      rw [Forest.ids, List.mem_cons, List.mem_append] at hid
      rw [Forest.ids, List.length_cons, List.length_append]
      rcases hid with rfl | hid | hid
      · refine ⟨[id], hfirst, by simp, ?_⟩
        intro target
        rw [List.mem_singleton, Forest.subtree]
        split
        · rename_i htarget
          simp [htarget, Forest.ids]
        · rename_i htarget
          rw [Forest.ids_append, List.mem_append]
          refine iff_of_false (Ne.symm htarget) (not_or.mpr ⟨?_, ?_⟩)
          · exact fun hin => hfb (Forest.mem_of_mem_subtree hin)
          · exact fun hin => hfr (Forest.mem_of_mem_subtree hin)
      · have hbelowRoots : ∀ root ∈ below.roots, ∀ n, t.nodes[root]? = some n →
            n.parent = some first := by
          intro root hroot k hk
          exact h.parent_eq hn (hchildren ▸ hroot) hk
        obtain ⟨path, hpath, hlength, hmem⟩ := ihb hbelow hnb hfirst hbelowRoots hid
        refine ⟨path ++ [first], ?_, ?_, ?_⟩
        · rwa [List.append_assoc, List.singleton_append]
        · rw [List.length_append, List.length_singleton]
          omega
        · intro target
          rw [List.mem_append, List.mem_singleton, hmem, Forest.subtree]
          have hnotrest : id ∉ (rest.subtree target).ids := fun hin =>
            hdisjoint hid (Forest.mem_of_mem_subtree hin)
          split
          · rename_i htarget
            simp [htarget, Forest.ids, hid]
          · rename_i htarget
            rw [Forest.ids_append, List.mem_append]
            simp [Ne.symm htarget, hnotrest]
      · have hrestRoots : ∀ root ∈ rest.roots, ∀ n, t.nodes[root]? = some n → n.parent = above :=
          fun root hroot => hroots root (List.mem_cons_of_mem _ hroot)
        obtain ⟨path, hpath, hlength, hmem⟩ := ihr hrest hnr hupper hrestRoots hid
        refine ⟨path, hpath, by omega, ?_⟩
        intro target
        have hne : id ≠ first := fun heq => hfr (heq ▸ hid)
        have hnotbelow : id ∉ below.ids := fun hin => hdisjoint hin hid
        rw [hmem, Forest.subtree]
        split
        · simp [Forest.ids, hne, hnotbelow]
        · rw [Forest.ids_append, List.mem_append]
          exact (or_iff_right fun hin => hnotbelow (Forest.mem_of_mem_subtree hin)).symm

namespace Carries

/-- From each node the way leads up to a top node, past no more nodes than there are. -/
theorem exists_climbs (h : t.Carries f) {id : NodeId} (hid : id ∈ f.ids) :
    ∃ path, t.Climbs (some id) path ∧ path.length ≤ t.size ∧
      ∀ target, target ∈ path ↔ id ∈ (f.subtree target).ids := by
  have hroots : ∀ root ∈ f.roots, ∀ n, t.nodes[root]? = some n → n.parent = none :=
    fun root hroot n hn => (h.parent_eq_none_iff hn).mpr hroot
  have htop : t.Climbs none [] := rfl
  obtain ⟨path, hpath, hlength, hmem⟩ :=
    h.linked.exists_climbs h.shows h.nodup htop hroots hid
  rw [List.append_nil] at hpath
  rw [h.ids.length_eq, List.length_range] at hlength
  exact ⟨path, hpath, hlength, hmem⟩

/-- A node is found above another one if that stands in its subtree. -/
theorem isAncestorOrSelf_eq (h : t.Carries f) (ancestor : NodeId) {id : NodeId}
    (hid : id ∈ f.ids) :
    t.isAncestorOrSelf ancestor id = .ok (decide (id ∈ (f.subtree ancestor).ids)) := by
  obtain ⟨path, hpath, hlength, hmem⟩ := h.exists_climbs hid
  rw [isAncestorOrSelf, hpath.meetsAbove_eq ancestor (Nat.le_succ_of_le hlength)]
  simp only [hmem]

end Carries

end LoxReader.Arena
