/-
  `Proofs.Arena.Chain`: siblings that are linked both ways.

  A run of siblings is a segment of a doubly linked list: each names its parent and its
  two neighbours, and the first and the last name what stands before and after the run.
  So a run can be cut in two and put together again (`chained_append`), and a change
  concerns it only at the nodes that it holds (`Chained.congr`).
-/
import LoxReader.Arena.Links
import LoxReader.Arena.Walk

set_option autoImplicit false

namespace LoxReader.Arena

variable {α : Type} {t t' : Arena α} {parent : NodeId}

/-- The nodes stand below `parent` one behind the other, the first of them behind
`before` and the last before `after`. -/
def Chained (t : Arena α) (parent : NodeId) :
    Option NodeId → List NodeId → Option NodeId → Prop
  | _, [], _ => True
  | before, id :: rest, after =>
    (∃ n, t.nodes[id]? = some n ∧ n.parent = some parent ∧ n.prev = before ∧
      n.next = rest.head?.or after) ∧ t.Chained parent (some id) rest after

/-! ## Cutting a run -/

/-- A run of siblings is two runs, of which each names the border of the other. -/
theorem chained_append {before after : Option NodeId} (first second : List NodeId) :
    t.Chained parent before (first ++ second) after ↔
      t.Chained parent before first (second.head?.or after) ∧
        t.Chained parent (first.getLast?.or before) second after := by
  induction first generalizing before with
  | nil => simp [Chained]
  | cons id rest ih =>
      have hlast : (id :: rest).getLast?.or before = rest.getLast?.or (some id) := by
        cases rest <;> simp [List.getLast?_cons]
      have hhead : (rest ++ second).head?.or after = rest.head?.or (second.head?.or after) := by
        rw [List.head?_append, Option.or_assoc]
      rw [List.cons_append, Chained, Chained, ih, hlast, hhead, and_assoc]

/-- The last of a run of siblings. -/
theorem chained_concat {before after : Option NodeId} (first : List NodeId) (id : NodeId) :
    t.Chained parent before (first ++ [id]) after ↔
      t.Chained parent before first (some id) ∧
        ∃ n, t.nodes[id]? = some n ∧ n.parent = some parent ∧
          n.prev = first.getLast?.or before ∧ n.next = after := by
  rw [chained_append]
  simp [Chained]

namespace Chained

variable {before after : Option NodeId} {ids : List NodeId}

/-- A node of a run stands in the arena, below the parent of the run. -/
theorem exists_of_mem (h : t.Chained parent before ids after) {id : NodeId} (hid : id ∈ ids) :
    ∃ n, t.nodes[id]? = some n ∧ n.parent = some parent := by
  induction ids generalizing before with
  | nil => cases hid
  | cons first rest ih =>
      obtain ⟨⟨n, hn, hparent, -⟩, hrest⟩ := h
      rcases List.mem_cons.mp hid with rfl | hid
      · exact ⟨n, hn, hparent⟩
      · exact ih hrest hid

/-- A node of a run names the parent of the run. -/
theorem parent_eq (h : t.Chained parent before ids after) {id : NodeId} (hid : id ∈ ids)
    {n : Node α} (hn : t.nodes[id]? = some n) : n.parent = some parent := by
  obtain ⟨n', hn', hparent⟩ := h.exists_of_mem hid
  rw [hn] at hn'
  cases hn'
  exact hparent

/-! ## Runs that end -/

/-- A run behind which nothing stands is all that follows its first node. -/
theorem eq_of_head?_eq {other : NodeId} {before' : Option NodeId} {ids' : List NodeId}
    (h : t.Chained parent before ids none) (h' : t.Chained other before' ids' none)
    (hhead : ids.head? = ids'.head?) : ids = ids' := by
  induction ids generalizing before before' ids' with
  | nil =>
      cases ids' with
      | nil => rfl
      | cons id' rest' => cases hhead
  | cons id rest ih =>
      cases ids' with
      | nil => cases hhead
      | cons id' rest' =>
          obtain rfl : id = id' := Option.some.inj hhead
          obtain ⟨⟨n, hn, -, -, hnext⟩, hrest⟩ := h
          obtain ⟨⟨n', hn', -, -, hnext'⟩, hrest'⟩ := h'
          obtain rfl : n = n' := Option.some.inj (hn.symm.trans hn')
          rw [Option.or_none] at hnext hnext'
          rw [ih hrest hrest' (hnext.symm.trans hnext')]

/-- A run behind which nothing stands has no node twice: from both places the same nodes
would follow. -/
theorem nodup (h : t.Chained parent before ids none) : ids.Nodup := by
  induction ids generalizing before with
  | nil => exact List.nodup_nil
  | cons id rest ih =>
      refine List.nodup_cons.mpr ⟨?_, ih h.2⟩
      intro hmem
      obtain ⟨first, second, hrest⟩ := List.append_of_mem hmem
      have hagain : t.Chained parent (first.getLast?.or (some id)) (id :: second) none := by
        have hsplit := h.2
        rw [hrest, chained_append] at hsplit
        exact hsplit.2
      have hlength := congrArg List.length (h.eq_of_head?_eq hagain rfl)
      rw [hrest] at hlength
      simp at hlength
      omega

/-! ## Changing a run -/

/-- A run of siblings stays one when its nodes keep their links to each other. -/
theorem congr (h : t.Chained parent before ids after)
    (hsame : ∀ id ∈ ids, ∀ n, t.nodes[id]? = some n →
      ∃ n', t'.nodes[id]? = some n' ∧ n'.parent = n.parent ∧ n'.prev = n.prev ∧
        n'.next = n.next) : t'.Chained parent before ids after := by
  induction ids generalizing before with
  | nil => trivial
  | cons id rest ih =>
      obtain ⟨⟨n, hn, hparent, hprev, hnext⟩, hrest⟩ := h
      obtain ⟨hfirst, hmore⟩ := List.forall_mem_cons.mp hsame
      obtain ⟨n', hn', hparent', hprev', hnext'⟩ := hfirst n hn
      exact ⟨⟨n', hn', hparent'.trans hparent, hprev'.trans hprev, hnext'.trans hnext⟩,
        ih hrest hmore⟩

/-- A run of siblings whose last node comes to name another node behind it. -/
theorem relast (h : t.Chained parent before ids after) (hnodup : ids.Nodup)
    {after' : Option NodeId} (hsame : ∀ id ∈ ids, ∀ n, t.nodes[id]? = some n →
      ∃ n', t'.nodes[id]? = some n' ∧ n'.parent = n.parent ∧ n'.prev = n.prev ∧
        n'.next = if ids.getLast? = some id then after' else n.next) :
    t'.Chained parent before ids after' := by
  rcases List.eq_nil_or_concat ids with rfl | ⟨first, last, rfl⟩
  · trivial
  · rw [List.concat_eq_append] at *
    obtain ⟨hfirst, n, hn, hparent, hprev, -⟩ := (chained_concat first last).mp h
    obtain ⟨-, -, hnot⟩ := List.nodup_append.mp hnodup
    refine (chained_concat first last).mpr ⟨hfirst.congr ?_, ?_⟩
    · intro id hid n hn
      obtain ⟨n', hn', hparent', hprev', hnext'⟩ :=
        hsame id (List.mem_append_left _ hid) n hn
      have hne : last ≠ id := Ne.symm (hnot id hid last (List.mem_singleton_self last))
      rw [if_neg (by simpa using hne)] at hnext'
      exact ⟨n', hn', hparent', hprev', hnext'⟩
    · obtain ⟨n', hn', hparent', hprev', hnext'⟩ :=
        hsame last (List.mem_append_right _ (List.mem_singleton_self last)) n hn
      rw [if_pos (by simp)] at hnext'
      exact ⟨n', hn', hparent'.trans hparent, hprev'.trans hprev, hnext'⟩

/-- A run of siblings whose first node comes to name another node before it. -/
theorem rehead (h : t.Chained parent before ids after) (hnodup : ids.Nodup)
    {before' : Option NodeId} (hsame : ∀ id ∈ ids, ∀ n, t.nodes[id]? = some n →
      ∃ n', t'.nodes[id]? = some n' ∧ n'.parent = n.parent ∧
        n'.prev = (if ids.head? = some id then before' else n.prev) ∧ n'.next = n.next) :
    t'.Chained parent before' ids after := by
  cases ids with
  | nil => trivial
  | cons first rest =>
      obtain ⟨⟨n, hn, hparent, -, hnext⟩, hrest⟩ := h
      obtain ⟨hfirst, hmore⟩ := List.forall_mem_cons.mp hsame
      obtain ⟨n', hn', hparent', hprev', hnext'⟩ := hfirst n hn
      rw [if_pos (List.head?_cons ..)] at hprev'
      refine ⟨⟨n', hn', hparent'.trans hparent, hprev', hnext'.trans hnext⟩, hrest.congr ?_⟩
      intro id hid n hn
      obtain ⟨n', hn', hparent', hprev', hnext'⟩ := hmore id hid n hn
      have hne : first ≠ id := fun heq => (List.nodup_cons.mp hnodup).1 (heq ▸ hid)
      rw [if_neg (by simpa using hne)] at hprev'
      exact ⟨n', hn', hparent', hprev', hnext'⟩

end Chained

/-! ## Walking along a run -/

namespace Chained

variable {before : Option NodeId} {ids : List NodeId}

/-- From neighbour to neighbour all of a run is found, and no more. -/
theorem chainFrom_eq (h : t.Chained parent before ids none) (seen : List NodeId) {fuel : Nat}
    (hfuel : ids.length ≤ fuel) : t.chainFrom seen fuel ids.head? = .ok (seen.reverse ++ ids) := by
  induction ids generalizing before seen fuel with
  | nil => cases fuel <;> simp [chainFrom]
  | cons id rest ih =>
      obtain ⟨⟨n, hn, -, -, hnext⟩, hrest⟩ := h
      obtain ⟨fuel, rfl⟩ := Nat.exists_eq_add_of_le' (Nat.le_trans (Nat.le_add_left 1 _) hfuel)
      rw [Option.or_none] at hnext
      rw [List.head?_cons, chainFrom, node_eq_ok_iff.mpr hn]
      simp only [hnext]
      rw [ih hrest (id :: seen) (Nat.le_of_succ_le_succ hfuel)]
      simp

/-- So many neighbours after the first stands the sibling with this index. -/
theorem follow_eq (h : t.Chained parent before ids none) (index : Nat) :
    t.follow index ids.head? = .ok ids[index]? := by
  induction ids generalizing before index with
  | nil => cases index <;> simp [follow]
  | cons id rest ih =>
      obtain ⟨⟨n, hn, -, -, hnext⟩, hrest⟩ := h
      rw [Option.or_none] at hnext
      cases index with
      | zero => rfl
      | succ index =>
          rw [List.head?_cons, follow, node_eq_ok_iff.mpr hn]
          simp only [hnext]
          rw [ih hrest index, List.getElem?_cons_succ]

end Chained

end LoxReader.Arena
