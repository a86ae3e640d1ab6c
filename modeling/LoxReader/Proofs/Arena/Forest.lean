/-
  `Proofs.Arena.Forest`: ordered trees as values.

  A forest is what an arena is read as: trees one behind the other, each with the index
  and the value of its top node and with the forest of its children.  A tree is a forest
  with one top node.  Taking the subtree of a node out, and putting a tree behind the
  children of a node, are functions on forests; what they do to the indices is told by
  `ids_without_subtree` and `ids_graft`.
-/
import LoxReader.Arena.Edit
import Mathlib.Data.List.Nodup

set_option autoImplicit false

namespace LoxReader

/-- Ordered trees: none, or a first tree, with the trees `below` its top node, and the
`rest`. -/
inductive Forest (α : Type) where
  | nil
  | cons (id : NodeId) (value : α) (below rest : Forest α)
deriving DecidableEq

namespace Forest

variable {α : Type}

/-! ## Nodes -/

/-- The top nodes, in order. -/
def roots : Forest α → List NodeId
  | .nil => []
  | .cons id _ _ rest => id :: rest.roots

/-- All nodes, each before those below it. -/
def ids : Forest α → List NodeId
  | .nil => []
  | .cons id _ below rest => id :: (below.ids ++ rest.ids)

theorem mem_ids_of_mem_roots {f : Forest α} {id : NodeId} (h : id ∈ f.roots) : id ∈ f.ids := by
  induction f with
  | nil => exact h
  | cons first value below rest _ ihr =>
      rcases List.mem_cons.mp h with rfl | hrest
      · exact List.mem_cons_self
      · exact List.mem_cons_of_mem _ (List.mem_append_right _ (ihr hrest))

/-- What a forest with different indices has for its parts. -/
theorem nodup_cons {id : NodeId} {value : α} {below rest : Forest α} :
    (cons id value below rest).ids.Nodup ↔
      (id ∉ below.ids ∧ id ∉ rest.ids) ∧ below.ids.Nodup ∧ rest.ids.Nodup ∧
        below.ids.Disjoint rest.ids := by
  rw [ids, List.nodup_cons, List.nodup_append', List.mem_append, not_or]

/-! ## Forests one behind the other -/

/-- The trees of two forests. -/
def append : Forest α → Forest α → Forest α
  | .nil, second => second
  | .cons id value below rest, second => .cons id value below (rest.append second)

@[simp] theorem append_nil (f : Forest α) : f.append .nil = f := by
  induction f with
  | nil => rfl
  | cons id value below rest _ ihr => rw [append, ihr]

@[simp] theorem roots_append (f g : Forest α) : (f.append g).roots = f.roots ++ g.roots := by
  induction f with
  | nil => rfl
  | cons id value below rest _ ihr => rw [append, roots, ihr, roots, List.cons_append]

@[simp] theorem ids_append (f g : Forest α) : (f.append g).ids = f.ids ++ g.ids := by
  induction f with
  | nil => rfl
  | cons id value below rest _ ihr =>
      rw [append, ids, ihr, ids, List.cons_append, List.append_assoc]

/-! ## Taking a subtree out -/

/-- The forest without the node and what stands below it. -/
def without (target : NodeId) : Forest α → Forest α
  | .nil => .nil
  | .cons id value below rest =>
    if id = target then
      rest.without target
    else
      .cons id value (below.without target) (rest.without target)

/-- The node with what stands below it. -/
def subtree (target : NodeId) : Forest α → Forest α
  | .nil => .nil
  | .cons id value below rest =>
    if id = target then
      .cons id value below (rest.subtree target)
    else
      (below.subtree target).append (rest.subtree target)

/-- Every node is either in the subtree or left. -/
theorem ids_without_subtree (target : NodeId) (f : Forest α) :
    ((f.without target).ids ++ (f.subtree target).ids).Perm f.ids := by
  induction f with
  | nil => exact .refl _
  | cons id value below rest ihb ihr =>
      rw [List.perm_iff_count] at ihb ihr ⊢
      intro x
      have hbelow := ihb x
      have hrest := ihr x
      rw [List.count_append] at hbelow hrest
      unfold without subtree
      split
      · simp only [ids, List.count_append, List.count_cons]
        omega
      · simp only [ids, ids_append, List.count_append, List.count_cons]
        omega

theorem mem_ids_iff_without_or_subtree {f : Forest α} {target id : NodeId} :
    id ∈ f.ids ↔ id ∈ (f.without target).ids ∨ id ∈ (f.subtree target).ids := by
  rw [← (ids_without_subtree target f).mem_iff, List.mem_append]

theorem mem_of_mem_subtree {f : Forest α} {target id : NodeId}
    (h : id ∈ (f.subtree target).ids) : id ∈ f.ids :=
  mem_ids_iff_without_or_subtree.mpr (.inr h)

/-- The nodes of a subtree keep their order. -/
theorem subtree_sublist (target : NodeId) (f : Forest α) :
    (f.subtree target).ids.Sublist f.ids := by
  induction f with
  | nil => exact .slnil
  | cons id value below rest ihb ihr =>
      unfold subtree
      split
      · exact .cons_cons id (.append (.refl _) ihr)
      · rw [ids_append]
        exact .cons id (.append ihb ihr)

/-- The top nodes that are left when a subtree is taken out. -/
theorem roots_without (target : NodeId) (f : Forest α) :
    (f.without target).roots = f.roots.filter (· ≠ target) := by
  induction f with
  | nil => rfl
  | cons id value below rest _ ihr =>
      unfold without
      split
      · rename_i h
        rw [ihr, roots, List.filter_cons_of_neg (by simp [h])]
      · rename_i h
        rw [roots, ihr, roots, List.filter_cons_of_pos (by simp [h])]

theorem without_of_not_mem {f : Forest α} {target : NodeId} (h : target ∉ f.ids) :
    f.without target = f := by
  induction f with
  | nil => rfl
  | cons id value below rest ihb ihr =>
      rw [ids, List.mem_cons, List.mem_append, not_or, not_or] at h
      rw [without, if_neg (Ne.symm h.1), ihb h.2.1, ihr h.2.2]

theorem subtree_of_not_mem {f : Forest α} {target : NodeId} (h : target ∉ f.ids) :
    f.subtree target = .nil := by
  induction f with
  | nil => rfl
  | cons id value below rest ihb ihr =>
      rw [ids, List.mem_cons, List.mem_append, not_or, not_or] at h
      rw [subtree, if_neg (Ne.symm h.1), ihb h.2.1, ihr h.2.2]
      rfl

/-- The subtree of a node is one tree, with the node at its top. -/
theorem exists_subtree_eq {f : Forest α} {target : NodeId} (hnodup : f.ids.Nodup)
    (h : target ∈ f.ids) : ∃ value below, f.subtree target = .cons target value below .nil := by
  induction f with
  | nil => cases h
  | cons id value below rest ihb ihr =>
      obtain ⟨⟨hbelow, hrest⟩, hnb, hnr, hdisjoint⟩ := nodup_cons.mp hnodup
      by_cases hid : id = target
      · subst hid
        exact ⟨value, below, by rw [subtree, if_pos rfl, subtree_of_not_mem hrest]⟩
      · rw [subtree, if_neg hid]
        have hmem : target ∈ below.ids ∨ target ∈ rest.ids := by
          rw [ids, List.mem_cons, List.mem_append] at h
          exact h.resolve_left (Ne.symm hid)
        rcases hmem with hin | hin
        · rw [subtree_of_not_mem fun hr => hdisjoint hin hr, append_nil]
          exact ihb hnb hin
        · rw [subtree_of_not_mem fun hb => hdisjoint hb hin]
          exact ihr hnr hin

/-! ## Putting a tree below a node -/

/-- The forest with the trees of `sub` behind the children of the node `parent`. -/
def graft (parent : NodeId) : Forest α → Forest α → Forest α
  | .nil, _ => .nil
  | .cons id value below rest, sub =>
    if id = parent then
      .cons id value ((below.graft parent sub).append sub) (rest.graft parent sub)
    else
      .cons id value (below.graft parent sub) (rest.graft parent sub)

@[simp] theorem roots_graft (parent : NodeId) (f sub : Forest α) :
    (f.graft parent sub).roots = f.roots := by
  induction f with
  | nil => rfl
  | cons id value below rest _ ihr =>
      unfold graft
      split <;> rw [roots, ihr, roots]

theorem graft_of_not_mem {f : Forest α} {parent : NodeId} (sub : Forest α)
    (h : parent ∉ f.ids) : f.graft parent sub = f := by
  induction f with
  | nil => rfl
  | cons id value below rest ihb ihr =>
      rw [ids, List.mem_cons, List.mem_append, not_or, not_or] at h
      rw [graft, if_neg (Ne.symm h.1), ihb h.2.1, ihr h.2.2]

/-- Putting trees below a node adds their nodes, once. -/
theorem ids_graft {f : Forest α} {parent : NodeId} (sub : Forest α) (hnodup : f.ids.Nodup)
    (h : parent ∈ f.ids) : (f.graft parent sub).ids.Perm (f.ids ++ sub.ids) := by
  induction f with
  | nil => cases h
  | cons id value below rest ihb ihr =>
      obtain ⟨⟨hbelow, hrest⟩, hnb, hnr, hdisjoint⟩ := nodup_cons.mp hnodup
      rw [List.perm_iff_count] at ihb ihr ⊢
      intro x
      by_cases hid : id = parent
      · subst hid
        rw [graft, if_pos rfl, graft_of_not_mem sub hbelow, graft_of_not_mem sub hrest]
        simp only [ids, ids_append, List.count_append, List.count_cons]
        omega
      · rw [graft, if_neg hid]
        have hmem : parent ∈ below.ids ∨ parent ∈ rest.ids := by
          rw [ids, List.mem_cons, List.mem_append] at h
          exact h.resolve_left (Ne.symm hid)
        rcases hmem with hin | hin
        · have hcount := ihb hnb hin x
          rw [List.count_append] at hcount
          rw [graft_of_not_mem sub fun hr => hdisjoint hin hr]
          simp only [ids, List.count_append, List.count_cons]
          omega
        · have hcount := ihr hnr hin x
          rw [List.count_append] at hcount
          rw [graft_of_not_mem sub fun hb => hdisjoint hb hin]
          simp only [ids, List.count_append, List.count_cons]
          omega

end Forest

end LoxReader
