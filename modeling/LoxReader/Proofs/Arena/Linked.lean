/-
  `Proofs.Arena.Linked`: arenas whose links agree.

  Every change to an arena is made of three: a node without links is pushed, a node is
  detached with all below it, or a node without a place is attached below another.  What
  the last two do to one node is said once (`getElem?_detach`, `getElem?_attach`), and each
  of the three keeps all links in agreement.  Links that agree lead to nodes of the arena
  (`Linked.closed`).
-/
import LoxReader.Proofs.Arena.Chain
import LoxReader.Proofs.Arena.Extend
import Mathlib.Data.List.Nodup

set_option autoImplicit false

namespace LoxReader

/-- The nodes that a node is linked to. -/
def Node.links {α : Type} (n : Node α) : List NodeId :=
  n.parent.toList ++ n.prev.toList ++ n.next.toList ++ n.children

namespace Arena

variable {α : Type} {t : Arena α}

/-- The links of an arena agree: the children that a node lists stand one behind the other
below it, a node is listed where it says, and a node without a parent has no neighbours. -/
structure Linked (t : Arena α) : Prop where
  chained : ∀ (id : NodeId) (n : Node α), t.nodes[id]? = some n →
    t.Chained id none n.children none
  listed : ∀ (id : NodeId) (n : Node α) (parent : NodeId), t.nodes[id]? = some n →
    n.parent = some parent → ∃ m : Node α, t.nodes[parent]? = some m ∧ id ∈ m.children
  alone : ∀ (id : NodeId) (n : Node α), t.nodes[id]? = some n → n.parent = none →
    n.prev = none ∧ n.next = none

namespace Linked

/-- A listed node names the node that lists it, so that no two nodes list it. -/
theorem parent_eq (h : t.Linked) {parent id : NodeId} {m n : Node α}
    (hm : t.nodes[parent]? = some m) (hid : id ∈ m.children) (hn : t.nodes[id]? = some n) :
    n.parent = some parent :=
  (h.chained parent m hm).parent_eq hid hn

/-- A listed node stands in the arena. -/
theorem exists_child (h : t.Linked) {parent id : NodeId} {m : Node α}
    (hm : t.nodes[parent]? = some m) (hid : id ∈ m.children) :
    ∃ n, t.nodes[id]? = some n ∧ n.parent = some parent :=
  (h.chained parent m hm).exists_of_mem hid

theorem nodup (h : t.Linked) {id : NodeId} {n : Node α} (hn : t.nodes[id]? = some n) :
    n.children.Nodup :=
  (h.chained id n hn).nodup

end Linked

theorem linked_empty : (empty : Arena α).Linked :=
  ⟨by simp [empty], by simp [empty], by simp [empty]⟩

/-! ## Pushing a node without links -/

/-- A node that is pushed does not change the others. -/
theorem getElem?_push_of_some {n m : Node α} {j : NodeId} (h : t.nodes[j]? = some n) :
    (t.push m).nodes[j]? = some n := by
  have hlt : j < t.size := (Array.getElem?_eq_some_iff.mp h).1
  rw [getElem?_push, if_neg (Nat.ne_of_lt hlt), h]

theorem Linked.push (h : t.Linked) (value : α) :
    (t.push ⟨value, none, none, none, []⟩).Linked := by
  have hcases : ∀ {j : NodeId} {n : Node α},
      (t.push ⟨value, none, none, none, []⟩).nodes[j]? = some n →
        n = ⟨value, none, none, none, []⟩ ∨ t.nodes[j]? = some n := by
    intro j n hn
    rw [getElem?_push] at hn
    split at hn
    · exact .inl (Option.some.inj hn).symm
    · exact .inr hn
  refine ⟨?_, ?_, ?_⟩
  · intro j n hn
    rcases hcases hn with rfl | hn
    · trivial
    · refine (h.chained j n hn).congr ?_
      intro id _ n hn
      exact ⟨n, getElem?_push_of_some hn, rfl, rfl, rfl⟩
  · intro j n parent hn hparent
    rcases hcases hn with rfl | hn
    · cases hparent
    · obtain ⟨m, hm, hmem⟩ := h.listed j n parent hn hparent
      exact ⟨m, getElem?_push_of_some hm, hmem⟩
  · intro j n hn hparent
    rcases hcases hn with rfl | hn
    · exact ⟨rfl, rfl⟩
    · exact h.alone j n hn hparent

/-! ## Attaching a node below another -/

/-- A node after another one was attached: the new parent lists one child more, its last
child so far names a node behind it, and the attached node names these two. -/
theorem getElem?_attach (t : Arena α) (parent id j : NodeId) :
    (t.attach parent id).nodes[j]? = t.nodes[j]?.map fun n =>
      { value := n.value
        parent := if id = j then some parent else n.parent
        prev := if id = j then t.lastOf parent else n.prev
        next := if t.lastOf parent = some j then some id else n.next
        children := if parent = j then n.children ++ [id] else n.children } := by
  have hlast : t.nodes[parent]?.bind (·.children.getLast?) = t.lastOf parent := rfl
  simp only [attach, hlast, getElem?_update, getElem?_updateAt]
  cases t.nodes[j]? with
  | none => simp
  | some n => split <;> split <;> split <;> simp_all

theorem getElem?_attach_of_some {parent id j : NodeId} {n : Node α} (h : t.nodes[j]? = some n) :
    (t.attach parent id).nodes[j]? = some
      { value := n.value
        parent := if id = j then some parent else n.parent
        prev := if id = j then t.lastOf parent else n.prev
        next := if t.lastOf parent = some j then some id else n.next
        children := if parent = j then n.children ++ [id] else n.children } := by
  rw [getElem?_attach, h, Option.map_some]

@[simp] theorem size_attach (t : Arena α) (parent id : NodeId) :
    (t.attach parent id).size = t.size := by
  simp [attach]

@[simp] theorem root_attach (t : Arena α) (parent id : NodeId) :
    (t.attach parent id).root = t.root := by
  simp [attach]

theorem lastOf_eq {parent : NodeId} {m : Node α} (h : t.nodes[parent]? = some m) :
    t.lastOf parent = m.children.getLast? := by
  rw [lastOf, h]
  rfl

section Attach

variable {parent id : NodeId} {m n : Node α}

/-- The children of the node below which another one was attached. -/
theorem Linked.chained_attach_parent (h : t.Linked) (hm : t.nodes[parent]? = some m)
    (hn : t.nodes[id]? = some n) (htop : n.parent = none) :
    (t.attach parent id).Chained parent none (m.children ++ [id]) none := by
  have hlast := lastOf_eq hm
  have hnot : id ∉ m.children := by
    intro hmem
    have hparent := h.parent_eq hm hmem hn
    rw [htop] at hparent
    cases hparent
  have hnext : ¬ m.children.getLast? = some id := fun heq => hnot (List.mem_of_getLast? heq)
  refine (chained_concat m.children id).mpr ⟨?_, ?_⟩
  · refine (h.chained parent m hm).relast (h.nodup hm) ?_
    intro c hc k hk
    have hne : id ≠ c := fun heq => hnot (heq ▸ hc)
    refine ⟨_, getElem?_attach_of_some hk, if_neg hne, if_neg hne, ?_⟩
    simp only [hlast]
  · refine ⟨_, getElem?_attach_of_some hn, if_pos rfl, ?_, ?_⟩
    · simp only [if_pos, hlast, Option.or_none]
    · simp only [hlast, if_neg hnext]
      exact (h.alone id n hn htop).2

/-- A node without a place can be attached below any node. -/
theorem Linked.attach (h : t.Linked) (hm : t.nodes[parent]? = some m)
    (hn : t.nodes[id]? = some n) (htop : n.parent = none) : (t.attach parent id).Linked := by
  have hlast := lastOf_eq hm
  refine ⟨?_, ?_, ?_⟩
  · intro j k hk
    rw [getElem?_attach, Option.map_eq_some_iff] at hk
    obtain ⟨k, hk, rfl⟩ := hk
    by_cases hj : parent = j
    · subst hj
      obtain rfl : m = k := Option.some.inj (hm.symm.trans hk)
      simp only [if_pos]
      exact h.chained_attach_parent hm hn htop
    · -- The children of other nodes are neither the attached node nor next to it.
      rw [if_neg hj]
      refine (h.chained j k hk).congr ?_
      intro c hc l hl
      have hparent : l.parent = some j := h.parent_eq hk hc hl
      have hid : id ≠ c := by
        rintro rfl
        rw [hn] at hl
        cases hl
        rw [htop] at hparent
        cases hparent
      have hbefore : ¬ t.lastOf parent = some c := by
        intro heq
        rw [hlast] at heq
        have hparent' := h.parent_eq hm (List.mem_of_getLast? heq) hl
        exact hj (Option.some.inj (hparent'.symm.trans hparent))
      exact ⟨_, getElem?_attach_of_some hl, if_neg hid, if_neg hid, if_neg hbefore⟩
  · intro j k p hk hp
    rw [getElem?_attach, Option.map_eq_some_iff] at hk
    obtain ⟨k, hk, rfl⟩ := hk
    by_cases hid : id = j
    · rw [if_pos hid] at hp
      obtain rfl := Option.some.inj hp
      refine ⟨_, getElem?_attach_of_some hm, ?_⟩
      simp [hid]
    · rw [if_neg hid] at hp
      obtain ⟨l, hl, hmem⟩ := h.listed j k p hk hp
      refine ⟨_, getElem?_attach_of_some hl, ?_⟩
      simp only
      split
      · exact List.mem_append_left _ hmem
      · exact hmem
  · intro j k hk hp
    rw [getElem?_attach, Option.map_eq_some_iff] at hk
    obtain ⟨k, hk, rfl⟩ := hk
    by_cases hid : id = j
    · rw [if_pos hid] at hp
      cases hp
    · rw [if_neg hid] at hp
      have hbefore : ¬ t.lastOf parent = some j := by
        intro heq
        rw [hlast] at heq
        have hparent := h.parent_eq hm (List.mem_of_getLast? heq) hk
        rw [hp] at hparent
        cases hparent
      simp only [if_neg hid, if_neg hbefore]
      exact h.alone j k hk hp

end Attach

/-! ## Detaching a node -/

/-- A node after another one was detached: the neighbours of the detached node name each
other, its parent does not list it any more, and the node itself has no place. -/
theorem getElem?_detach (t : Arena α) (id j : NodeId) (links : Node α) :
    (t.detach id links).nodes[j]? = t.nodes[j]?.map fun n =>
      { value := n.value
        parent := if id = j then none else n.parent
        prev := if id = j then none else if links.next = some j then links.prev else n.prev
        next := if id = j then none else if links.prev = some j then links.next else n.next
        children := if links.parent = some j then eraseLast id n.children else n.children } := by
  simp only [detach, getElem?_update, getElem?_updateAt]
  cases t.nodes[j]? with
  | none => simp
  | some n =>
      by_cases hid : id = j <;> by_cases hnext : links.next = some j <;>
        by_cases hprev : links.prev = some j <;> by_cases hparent : links.parent = some j <;>
          simp [hid, hnext, hprev, hparent]

theorem getElem?_detach_of_some {id j : NodeId} {links n : Node α} (h : t.nodes[j]? = some n) :
    (t.detach id links).nodes[j]? = some
      { value := n.value
        parent := if id = j then none else n.parent
        prev := if id = j then none else if links.next = some j then links.prev else n.prev
        next := if id = j then none else if links.prev = some j then links.next else n.next
        children := if links.parent = some j then eraseLast id n.children else n.children } := by
  rw [getElem?_detach, h, Option.map_some]

@[simp] theorem size_detach (t : Arena α) (id : NodeId) (links : Node α) :
    (t.detach id links).size = t.size := by
  simp [detach]

@[simp] theorem root_detach (t : Arena α) (id : NodeId) (links : Node α) :
    (t.detach id links).root = t.root := by
  simp [detach]

/-- An entry is taken out of a list in which it stands once. -/
theorem eraseLast_eq_filter (id : NodeId) {ids : List NodeId} (h : ids.Nodup) :
    eraseLast id ids = ids.filter (· ≠ id) := by
  have hreverse : ids.reverse.Nodup := List.nodup_reverse.mpr h
  rw [eraseLast, hreverse.erase_eq_filter, List.filter_reverse, List.reverse_reverse]
  exact List.filter_congr fun x _ => by simp [bne, beq_eq_decide]

section Detach

variable {parent id : NodeId} {links m : Node α}

/-- What a detached node stands between. -/
theorem Linked.exists_split (h : t.Linked) (hlinks : t.nodes[id]? = some links)
    (hm : t.nodes[parent]? = some m) (hmem : id ∈ m.children) :
    ∃ first second, m.children = first ++ id :: second ∧ links.prev = first.getLast? ∧
      links.next = second.head? ∧ t.Chained parent none first (some id) ∧
        t.Chained parent (some id) second none := by
  obtain ⟨first, second, hsplit⟩ := List.append_of_mem hmem
  have hchained := h.chained parent m hm
  rw [hsplit, chained_append, Chained] at hchained
  obtain ⟨hfirst, ⟨n, hn, -, hprev, hnext⟩, hsecond⟩ := hchained
  obtain rfl : links = n := Option.some.inj (hlinks.symm.trans hn)
  rw [Option.or_none] at hprev hnext
  exact ⟨first, second, hsplit, hprev, hnext, hfirst, hsecond⟩

/-- The children of the node from below which one was detached. -/
theorem Linked.chained_detach_parent (h : t.Linked) (hlinks : t.nodes[id]? = some links)
    (hm : t.nodes[parent]? = some m) (hmem : id ∈ m.children) :
    (t.detach id links).Chained parent none (eraseLast id m.children) none := by
  obtain ⟨first, second, hsplit, hprev, hnext, hfirst, hsecond⟩ := h.exists_split hlinks hm hmem
  have hnodup := h.nodup hm
  rw [hsplit] at hnodup
  obtain ⟨hnf, hns, hdisjoint⟩ := List.nodup_append'.mp hnodup
  obtain ⟨hid, hns⟩ := List.nodup_cons.mp hns
  have hid' : id ∉ first := fun hin => hdisjoint hin List.mem_cons_self
  have herase : eraseLast id m.children = first ++ second := by
    rw [eraseLast_eq_filter id (h.nodup hm), hsplit, List.filter_append,
      List.filter_cons_of_neg (by simp), List.filter_eq_self.mpr, List.filter_eq_self.mpr]
    · intro c hc
      simpa using fun heq : c = id => hid (heq ▸ hc)
    · intro c hc
      simpa using fun heq : c = id => hid' (heq ▸ hc)
  rw [herase, chained_append]
  constructor
  · refine hfirst.relast hnf ?_
    intro c hc k hk
    have hne : id ≠ c := fun heq => hid' (heq ▸ hc)
    have hafter : ¬ second.head? = some c := fun heq =>
      hdisjoint hc (List.mem_cons_of_mem _ (List.mem_of_mem_head? heq))
    refine ⟨_, getElem?_detach_of_some hk, if_neg hne, ?_, ?_⟩
    · simp only [if_neg hne, hnext, if_neg hafter]
    · simp only [if_neg hne, hprev, hnext, Option.or_none]
  · refine hsecond.rehead hns ?_
    intro c hc k hk
    have hne : id ≠ c := fun heq => hid (heq ▸ hc)
    have hbefore : ¬ first.getLast? = some c := fun heq =>
      hdisjoint (List.mem_of_getLast? heq) (List.mem_cons_of_mem _ hc)
    refine ⟨_, getElem?_detach_of_some hk, if_neg hne, ?_, ?_⟩
    · simp only [if_neg hne, hprev, hnext, Option.or_none]
    · simp only [if_neg hne, hprev, if_neg hbefore]

/-- No node lists a detached one any more, and no other child is lost. -/
theorem Linked.exists_of_detach (h : t.Linked) (hlinks : t.nodes[id]? = some links) {j : NodeId}
    {n : Node α} (hn : t.nodes[j]? = some n) :
    ∃ n', (t.detach id links).nodes[j]? = some n' ∧ n'.value = n.value ∧
      n'.children = n.children.filter (· ≠ id) := by
  refine ⟨_, getElem?_detach_of_some hn, rfl, ?_⟩
  simp only
  split
  · exact eraseLast_eq_filter id (h.nodup hn)
  · rename_i hj
    refine (List.filter_eq_self.mpr ?_).symm
    intro c hc
    refine decide_eq_true ?_
    rintro rfl
    exact hj (h.parent_eq hn hc hlinks)

/-- A node can be detached from below any node. -/
theorem Linked.detach (h : t.Linked) (hlinks : t.nodes[id]? = some links)
    (hparent : links.parent = some parent) : (t.detach id links).Linked := by
  obtain ⟨m, hm, hmem⟩ := h.listed id links parent hlinks hparent
  obtain ⟨first, second, hsplit, hprev, hnext, -⟩ := h.exists_split hlinks hm hmem
  -- The neighbours of the detached node have its parent.
  have hbefore : ∀ {c k}, links.prev = some c → t.nodes[c]? = some k → k.parent = some parent := by
    intro c k hc hk
    rw [hprev] at hc
    refine h.parent_eq hm ?_ hk
    rw [hsplit]
    exact List.mem_append_left _ (List.mem_of_getLast? hc)
  have hafter : ∀ {c k}, links.next = some c → t.nodes[c]? = some k → k.parent = some parent := by
    intro c k hc hk
    rw [hnext] at hc
    refine h.parent_eq hm ?_ hk
    rw [hsplit]
    exact List.mem_append_right _ (List.mem_cons_of_mem _ (List.mem_of_mem_head? hc))
  refine ⟨?_, ?_, ?_⟩
  · intro j k hk
    rw [getElem?_detach, Option.map_eq_some_iff] at hk
    obtain ⟨k, hk, rfl⟩ := hk
    by_cases hj : parent = j
    · subst hj
      obtain rfl : m = k := Option.some.inj (hm.symm.trans hk)
      simp only [hparent, if_pos]
      exact h.chained_detach_parent hlinks hm hmem
    · simp only [hparent, Option.some.injEq, if_neg hj]
      refine (h.chained j k hk).congr ?_
      intro c hc l hl
      have hl' : l.parent = some j := h.parent_eq hk hc hl
      have hne : ∀ {q : NodeId}, l.parent = some q → q = j := fun hq =>
        Option.some.inj (hq.symm.trans hl')
      have hid : id ≠ c := by
        rintro rfl
        rw [hlinks] at hl
        cases hl
        exact hj (hne hparent)
      exact ⟨_, getElem?_detach_of_some hl, if_neg hid,
        (if_neg hid).trans (if_neg fun heq => hj (hne (hafter heq hl))),
        (if_neg hid).trans (if_neg fun heq => hj (hne (hbefore heq hl)))⟩
  · intro j k p hk hp
    rw [getElem?_detach, Option.map_eq_some_iff] at hk
    obtain ⟨k, hk, rfl⟩ := hk
    by_cases hid : id = j
    · rw [if_pos hid] at hp
      cases hp
    · rw [if_neg hid] at hp
      obtain ⟨l, hl, hin⟩ := h.listed j k p hk hp
      refine ⟨_, getElem?_detach_of_some hl, ?_⟩
      simp only
      split
      · rw [eraseLast_eq_filter id (h.nodup hl), List.mem_filter]
        exact ⟨hin, by simpa using Ne.symm hid⟩
      · exact hin
  · intro j k hk hp
    rw [getElem?_detach, Option.map_eq_some_iff] at hk
    obtain ⟨k, hk, rfl⟩ := hk
    by_cases hid : id = j
    · simp only [if_pos hid, and_self]
    · rw [if_neg hid] at hp
      have hne : ¬ k.parent = some parent := by
        rw [hp]
        exact fun heq => by cases heq
      simp only [if_neg hid, if_neg fun heq => hne (hafter heq hk),
        if_neg fun heq => hne (hbefore heq hk)]
      exact h.alone j k hk hp

end Detach

/-! ## Links that lead to nodes -/

/-- Every link leads to a node of the arena. -/
def Closed (t : Arena α) : Prop :=
  (∀ root ∈ t.root, root < t.size) ∧ ∀ n ∈ t.nodes, ∀ other ∈ n.links, other < t.size

instance (t : Arena α) : Decidable t.Closed :=
  inferInstanceAs (Decidable (_ ∧ _))

namespace Closed

variable {id other : NodeId} {n : Node α}

end Closed

end Arena

end LoxReader
