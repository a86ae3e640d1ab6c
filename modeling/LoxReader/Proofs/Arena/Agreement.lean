/-
  `Proofs.Arena.Agreement`: what the check of the links tells.

  The check compares single links, place by place in each list of children.  If it finds
  nothing, each list is a run of siblings, which can neither have a node twice nor go on
  behind its end, so that following the links either way gives the list
  (`checkLinks_iff_agrees`).  This holds of every arena, whatever its links are.
-/
import LoxReader.Proofs.Arena.Linked
import LoxReader.Proofs.Arena.Trail
import Mathlib.Data.List.Induction

set_option autoImplicit false

namespace LoxReader.Arena

variable {α : Type} {t : Arena α}

/-! ## The parts of the check -/

section Parts

variable {parent id : NodeId} {before : Option NodeId} {ids : List NodeId} {n : Node α}

/-- The check of the children finds nothing exactly if they are a run of siblings. -/
theorem checkChildren_eq_ok_iff :
    t.checkChildren parent before ids = .ok () ↔ t.Chained parent before ids none := by
  induction ids generalizing before with
  | nil => simp [checkChildren, Chained]
  | cons id rest ih =>
      rw [checkChildren, Chained, ← ih, Option.or_none]
      cases hget : tableGet t.nodes id with
      | error e =>
          have hnone := (tableGet_eq_error_iff.mp hget).1
          simp [hnone]
      | ok n =>
          rw [tableGet_eq_ok_iff] at hget
          by_cases hparent : n.parent = some parent
          · by_cases hprev : n.prev = before
            · by_cases hnext : n.next = rest.head?
              · simp [checkSibling, hget, hparent, hprev, hnext]
              · simp [checkSibling, hget, hparent, hprev, hnext]
            · simp [checkSibling, hget, hparent, hprev]
          · simp [hget, hparent]

theorem checkPlace_eq_ok_iff :
    t.checkPlace id n = .ok () ↔
      (∀ parent, n.parent = some parent → ∃ m, t.nodes[parent]? = some m ∧ id ∈ m.children) ∧
        (n.parent = none → t.root = some id ∧ n.prev = none ∧ n.next = none) := by
  unfold checkPlace
  cases hparent : n.parent with
  | some parent =>
      cases hget : tableGet t.nodes parent with
      | error e =>
          have hle := (tableGet_eq_error_iff.mp hget).1
          simp [hget, hle]
      | ok m =>
          rw [tableGet_eq_ok_iff] at hget
          by_cases hmem : id ∈ m.children
          · simp [hget, tableGet_eq_ok_iff.mpr hget, hmem]
          · simp [hget, tableGet_eq_ok_iff.mpr hget, hmem]
  | none =>
      by_cases hroot : t.root = some id
      · by_cases hprev : n.prev = none
        · simp [hroot, hprev, checkSibling]
        · simp [hroot, hprev, checkSibling]
      · simp [hroot]

theorem checkFrom_eq_ok_iff {ns : List (Node α)} :
    t.checkFrom id ns = .ok () ↔ ∀ k n, ns[k]? = some n →
      t.checkChildren (id + k) none n.children = .ok () ∧ t.checkPlace (id + k) n = .ok () := by
  induction ns generalizing id with
  | nil => simp [checkFrom]
  | cons n rest ih =>
      have hsplit : (∀ k m, (n :: rest)[k]? = some m →
          t.checkChildren (id + k) none m.children = .ok () ∧ t.checkPlace (id + k) m = .ok ()) ↔
            (t.checkChildren id none n.children = .ok () ∧ t.checkPlace id n = .ok ()) ∧
              t.checkFrom (id + 1) rest = .ok () := by
        rw [ih]
        constructor
        · intro h
          refine ⟨h 0 n rfl, fun k m hm => ?_⟩
          rw [Nat.add_assoc, Nat.add_comm 1 k]
          exact h (k + 1) m hm
        · rintro ⟨hfirst, hrest⟩ k m hm
          cases k with
          | zero =>
              obtain rfl := Option.some.inj hm
              exact hfirst
          | succ k =>
              have hnext := hrest k m hm
              rwa [Nat.add_assoc, Nat.add_comm 1 k] at hnext
      rw [hsplit, checkFrom]
      cases hchildren : t.checkChildren id none n.children with
      | error fault => simp
      | ok _ =>
          cases hplace : t.checkPlace id n with
          | error fault => simp
          | ok _ => simp

end Parts

/-- The check finds nothing exactly if the links agree and only the root has no parent. -/
theorem checkLinks_eq_ok_iff :
    t.checkLinks = .ok () ↔ t.Linked ∧ ∀ (id : NodeId) (n : Node α), t.nodes[id]? = some n →
      n.parent = none → t.root = some id := by
  simp only [checkLinks, checkFrom_eq_ok_iff, Array.getElem?_toList, Nat.zero_add,
    checkChildren_eq_ok_iff, checkPlace_eq_ok_iff]
  constructor
  · intro h
    exact ⟨⟨fun id n hn => (h id n hn).1, fun id n parent hn => (h id n hn).2.1 parent,
      fun id n hn hparent => ((h id n hn).2.2 hparent).2⟩,
      fun id n hn hparent => ((h id n hn).2.2 hparent).1⟩
  · rintro ⟨hlinked, honly⟩ id n hn
    exact ⟨hlinked.chained id n hn, fun parent => hlinked.listed id n parent hn,
      fun hparent => ⟨honly id n hn hparent, hlinked.alone id n hn hparent⟩⟩

/-! ## Runs of siblings as trails -/

section Runs

variable {parent : NodeId} {before after : Option NodeId} {ids : List NodeId}

/-- Forwards a run of siblings is a trail. -/
theorem Chained.trail_next (h : t.Chained parent before ids none) :
    Trail t.nextSibling ids.head? ids := by
  induction ids generalizing before with
  | nil => rfl
  | cons id rest ih =>
      obtain ⟨⟨n, hn, -, -, hnext⟩, hrest⟩ := h
      rw [Option.or_none] at hnext
      exact ⟨rfl, _, map_node_eq_ok_iff.mpr ⟨n, hn, hnext⟩, ih hrest⟩

/-- Backwards a run of siblings is the trail of the same nodes in reverse. -/
theorem Chained.trail_prev (h : t.Chained parent none ids after) :
    Trail t.prevSibling ids.getLast? ids.reverse := by
  induction ids using List.reverseRecOn generalizing after with
  | nil => rfl
  | append_singleton first id ih =>
      obtain ⟨hfirst, n, hn, -, hprev, -⟩ := (chained_concat first id).mp h
      rw [Option.or_none] at hprev
      rw [List.getLast?_concat, List.reverse_append]
      exact ⟨rfl, _, map_node_eq_ok_iff.mpr ⟨n, hn, hprev⟩, ih hfirst⟩

/-- Nodes below one parent are a run of siblings if both ways along their links are trails: of
each node the one way tells what is behind it, and the other what is before it. -/
theorem chained_of_trails (hnext : Trail t.nextSibling ids.head? ids)
    (hprev : ∀ i id, ids[i]? = some id →
      t.prevSibling id = .ok (if i = 0 then before else ids[i - 1]?))
    (hparent : ∀ id ∈ ids, t.parent id = .ok (some parent)) :
    t.Chained parent before ids none := by
  induction ids generalizing before with
  | nil => trivial
  | cons id rest ih =>
      obtain ⟨hfirst, hmore⟩ := List.forall_mem_cons.mp hparent
      obtain ⟨-, next, hstep, hrest⟩ := hnext
      obtain ⟨n, hn, hup⟩ := map_node_eq_ok_iff.mp hfirst
      obtain ⟨n', hn', hafter⟩ := map_node_eq_ok_iff.mp hstep
      obtain ⟨n'', hn'', hbefore⟩ := map_node_eq_ok_iff.mp (hprev 0 id rfl)
      obtain rfl := Option.some.inj (hn.symm.trans hn')
      obtain rfl := Option.some.inj (hn.symm.trans hn'')
      rw [← hrest.head?_eq] at hafter hrest
      refine ⟨⟨n, hn, hup, hbefore, by rw [hafter, Option.or_none]⟩, ih hrest ?_ hmore⟩
      intro i other hother
      rw [hprev (i + 1) other hother]
      cases i with
      | zero => rfl
      | succ i => rfl

/-- What comes before a node on the way backwards. -/
theorem prevSibling_of_trail (h : Trail t.prevSibling ids.getLast? ids.reverse) {i : Nat}
    {id : NodeId} (hid : ids[i]? = some id) :
    t.prevSibling id = .ok (if i = 0 then none else ids[i - 1]?) := by
  have hlt : i < ids.length := (List.getElem?_eq_some_iff.mp hid).1
  have hplace : ids.reverse[ids.length - 1 - i]? = some id := by
    rw [List.getElem?_reverse (by omega), ← hid]
    congr 1
    omega
  rw [h.step_eq hplace]
  split
  · rw [List.getElem?_eq_none]
    rw [List.length_reverse]
    omega
  · rw [List.getElem?_reverse (by omega)]
    congr 2
    omega

end Runs

/-! ## The meaning of the check -/

/-- What the lists of children, the links to neighbours and the links to parents say is the
same. -/
structure Agrees (t : Arena α) : Prop where
  nodup : ∀ (id : NodeId) (n : Node α), t.nodes[id]? = some n → n.children.Nodup
  /-- From the first child on, each child leads to the next, and the last nowhere. -/
  forwards : ∀ (id : NodeId) (n : Node α), t.nodes[id]? = some n →
    Trail t.nextSibling n.children.head? n.children
  /-- From the last child back, each child leads to the one before, and the first nowhere. -/
  backwards : ∀ (id : NodeId) (n : Node α), t.nodes[id]? = some n →
    Trail t.prevSibling n.children.getLast? n.children.reverse
  /-- A child names the node that lists it. -/
  parents : ∀ (id : NodeId) (n : Node α), t.nodes[id]? = some n →
    ∀ child ∈ n.children, t.parent child = .ok (some id)
  /-- A node is listed by its parent. -/
  listed : ∀ (id : NodeId) (n : Node α) (parent : NodeId), t.nodes[id]? = some n →
    n.parent = some parent → ∃ m : Node α, t.nodes[parent]? = some m ∧ id ∈ m.children
  /-- A node without a parent is the root and has no neighbours. -/
  top : ∀ (id : NodeId) (n : Node α), t.nodes[id]? = some n → n.parent = none →
    t.root = some id ∧ n.prev = none ∧ n.next = none

theorem Linked.agrees (h : t.Linked) (honly : ∀ (id : NodeId) (n : Node α),
    t.nodes[id]? = some n → n.parent = none → t.root = some id) : t.Agrees where
  nodup _ _ hn := h.nodup hn
  forwards id n hn := (h.chained id n hn).trail_next
  backwards id n hn := (h.chained id n hn).trail_prev
  parents id n hn child hchild := by
    obtain ⟨m, hm, hparent⟩ := h.exists_child hn hchild
    exact map_node_eq_ok_iff.mpr ⟨m, hm, hparent⟩
  listed := h.listed
  top id n hn hparent := ⟨honly id n hn hparent, h.alone id n hn hparent⟩

theorem Agrees.linked (h : t.Agrees) : t.Linked where
  chained id n hn := chained_of_trails (h.forwards id n hn)
    (fun _ _ => prevSibling_of_trail (h.backwards id n hn)) (h.parents id n hn)
  listed := h.listed
  alone id n hn hparent := (h.top id n hn hparent).2

/-! ## Arenas that are closed -/

section Closed

variable {parent id : NodeId} {before : Option NodeId} {ids : List NodeId} {n : Node α}
  {e : OutOfRange}

theorem checkSibling_ne_dangling {link : SiblingLink} {actual expected : Option NodeId} :
    checkSibling id link actual expected ≠ .error (.dangling e) := by
  unfold checkSibling
  split <;> simp

theorem checkChildren_ne_dangling (h : ∀ child ∈ ids, child < t.size) :
    t.checkChildren parent before ids ≠ .error (.dangling e) := by
  induction ids generalizing before with
  | nil => simp [checkChildren]
  | cons child rest ih =>
      obtain ⟨hchild, hrest⟩ := List.forall_mem_cons.mp h
      rw [checkChildren, tableGet_of_lt hchild]
      simp only
      split
      · simp
      · split
        · rename_i hprev
          intro heq
          cases heq
          exact checkSibling_ne_dangling hprev
        · split
          · rename_i hnext
            intro heq
            cases heq
            exact checkSibling_ne_dangling hnext
          · exact ih hrest

theorem checkPlace_ne_dangling (h : ∀ parent, n.parent = some parent → parent < t.size) :
    t.checkPlace id n ≠ .error (.dangling e) := by
  unfold checkPlace
  split
  · rename_i parent hparent
    rw [tableGet_of_lt (h parent hparent)]
    simp only
    split <;> simp
  · split
    · simp
    · split
      · rename_i hprev
        intro heq
        cases heq
        exact checkSibling_ne_dangling hprev
      · exact checkSibling_ne_dangling

theorem checkFrom_ne_dangling {ns : List (Node α)}
    (h : ∀ n ∈ ns, ∀ other ∈ n.links, other < t.size) :
    t.checkFrom id ns ≠ .error (.dangling e) := by
  induction ns generalizing id with
  | nil => simp [checkFrom]
  | cons n rest ih =>
      obtain ⟨hn, hrest⟩ := List.forall_mem_cons.mp h
      have hchildren : ∀ child ∈ n.children, child < t.size := fun child hchild =>
        hn child (by simp [Node.links, hchild])
      have hparent : ∀ parent, n.parent = some parent → parent < t.size := fun parent hlink =>
        hn parent (by simp [Node.links, hlink])
      rw [checkFrom]
      split
      · rename_i hfault
        intro heq
        cases heq
        exact checkChildren_ne_dangling hchildren hfault
      · split
        · rename_i hfault
          intro heq
          cases heq
          exact checkPlace_ne_dangling hparent hfault
        · exact ih hrest

end Closed

/-- The check finds nothing exactly if the links agree, and it has an answer for every arena in
which all links lead to nodes. -/
theorem checkLinks_iff_agrees (t : Arena α) :
    (t.checkLinks = .ok () ↔ t.Agrees) ∧
      (t.Closed → ∀ e, t.checkLinks ≠ .error (.dangling e)) := by
  constructor
  · rw [checkLinks_eq_ok_iff]
    constructor
    · rintro ⟨hlinked, honly⟩
      exact hlinked.agrees honly
    · intro h
      exact ⟨h.linked, fun id n hn hparent => (h.top id n hn hparent).1⟩
  · intro h e
    exact checkFrom_ne_dangling fun n hn => h.2 n (Array.mem_toList_iff.mp hn)

/-- Two children of which each names the other as the next, so that following the links does
not end. -/
theorem checkLinks_iff_agrees_circle : ∃ t : Arena Char,
    t = ⟨#[⟨'a', none, none, none, [1, 2]⟩, ⟨'b', some 0, none, some 2, []⟩,
      ⟨'c', some 0, some 1, some 1, []⟩], some 0⟩ ∧
    t.Closed ∧ ¬ t.Agrees ∧ ∀ e, t.checkLinks ≠ .error (.dangling e) := by
  refine ⟨_, rfl, by decide, fun hagrees => ?_, (checkLinks_iff_agrees _).2 (by decide)⟩
  have hcheck := (checkLinks_iff_agrees _).1.mpr hagrees
  revert hcheck
  decide

end LoxReader.Arena
