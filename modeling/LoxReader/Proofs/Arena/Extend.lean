/-
  `Proofs.Arena.Extend`: arenas that grow at their end.

  What is done while an expression is laid out splits in two: the old nodes change only
  in that one of them lists one more child, and the rest is new nodes.  Every change to
  an extended arena is a change to the old nodes or one to the list of the new ones.
-/
import LoxReader.Arena.Basic

set_option autoImplicit false

namespace LoxReader

/-! ## Changing one of two lists -/

theorem modify_append_left {α : Type} (change : α → α) {first : List α} {k : Nat}
    (h : k < first.length) (second : List α) :
    (first ++ second).modify k change = first.modify k change ++ second := by
  induction first generalizing k with
  | nil => simp at h
  | cons a rest ih =>
      cases k with
      | zero => rfl
      | succ k => simp [ih (by simpa using h)]

theorem modify_append_right {α : Type} (change : α → α) (first second : List α) {j k : Nat}
    (h : j = first.length + k) :
    (first ++ second).modify j change = first ++ second.modify k change := by
  subst h
  induction first with
  | nil => simp
  | cons a rest ih =>
      rw [List.length_cons, Nat.add_right_comm]
      simp [ih]

namespace Arena

variable {α : Type}

/-! ## New nodes -/

/-- The arena with nodes added at its end. -/
def extend (t : Arena α) (ns : List (Node α)) : Arena α :=
  ⟨t.nodes ++ ns.toArray, t.root⟩

theorem ext_getElem? {t t' : Arena α} (hroot : t.root = t'.root)
    (hnodes : ∀ j : Nat, t.nodes[j]? = t'.nodes[j]?) : t = t' := by
  cases t
  cases t'
  simp only [mk.injEq]
  exact ⟨Array.ext_getElem? hnodes, hroot⟩

theorem getElem?_extend_of_lt (t : Arena α) (ns : List (Node α)) {j : Nat} (h : j < t.size) :
    (t.extend ns).nodes[j]? = t.nodes[j]? :=
  Array.getElem?_append_left h

theorem getElem?_extend (t : Arena α) (ns : List (Node α)) (k : Nat) :
    (t.extend ns).nodes[t.size + k]? = ns[k]? := by
  simp [extend, size, Array.getElem?_append_right]

@[simp] theorem size_extend (t : Arena α) (ns : List (Node α)) :
    (t.extend ns).size = t.size + ns.length := by
  simp [extend, size]

@[simp] theorem extend_nil (t : Arena α) : t.extend [] = t := by
  cases t
  simp [extend]

theorem extend_extend (t : Arena α) (ns ns' : List (Node α)) :
    (t.extend ns).extend ns' = t.extend (ns ++ ns') := by
  simp [extend, Array.append_assoc]

theorem push_extend (t : Arena α) (ns : List (Node α)) (n : Node α) :
    (t.extend ns).push n = t.extend (ns ++ [n]) := by
  simp [extend, push, ← Array.append_singleton, Array.append_assoc]

/-- A change to an old node. -/
theorem update_extend_of_lt (t : Arena α) (ns : List (Node α)) {id : Nat} (h : id < t.size)
    (change : Node α → Node α) :
    (t.extend ns).update id change = (t.update id change).extend ns := by
  refine ext_getElem? (by cases t; rfl) ?_
  intro j
  rw [getElem?_update]
  rcases Nat.lt_or_ge j t.size with hj | hj
  · rw [getElem?_extend_of_lt _ _ hj, getElem?_extend_of_lt _ _ (by simpa using hj),
      getElem?_update]
  · obtain ⟨k, rfl⟩ := Nat.exists_eq_add_of_le hj
    have hne : id ≠ t.size + k := by omega
    rw [if_neg hne, getElem?_extend, ← size_update t id change, getElem?_extend]

/-- A change to a new node. -/
theorem update_extend (t : Arena α) (ns : List (Node α)) {id k : Nat} (h : id = t.size + k)
    (change : Node α → Node α) :
    (t.extend ns).update id change = t.extend (ns.modify k change) := by
  subst h
  refine ext_getElem? (by cases t; rfl) ?_
  intro j
  rw [getElem?_update]
  rcases Nat.lt_or_ge j t.size with hj | hj
  · have hne : t.size + k ≠ j := by omega
    rw [if_neg hne, getElem?_extend_of_lt _ _ hj, getElem?_extend_of_lt _ _ hj]
  · obtain ⟨i, rfl⟩ := Nat.exists_eq_add_of_le hj
    rw [getElem?_extend, getElem?_extend, List.getElem?_modify]
    by_cases heq : k = i
    · simp [heq]
    · have hne : t.size + k ≠ t.size + i := by omega
      simp [heq]

/-- A change at a link that leads to an old node. -/
theorem updateAt_extend_of_lt (t : Arena α) (ns : List (Node α)) {link : Option NodeId}
    (h : ∀ id, link = some id → id < t.size) (change : Node α → Node α) :
    (t.extend ns).updateAt link change = (t.updateAt link change).extend ns := by
  cases link with
  | none => rfl
  | some id => exact update_extend_of_lt t ns (h id rfl) change

/-! ## Listing a child -/

/-- The last child of a node. -/
def lastOf (t : Arena α) (parent : NodeId) : Option NodeId :=
  t.nodes[parent]?.bind (·.children.getLast?)

/-- The arena in which `child` is listed behind the last child of `parent`.  The child
itself does not change. -/
def link (t : Arena α) (parent child : NodeId) : Arena α :=
  (t.updateAt (t.lastOf parent) fun n => { n with next := some child }).update parent
    fun n => { n with children := n.children ++ [child] }

@[simp] theorem size_link (t : Arena α) (parent child : NodeId) :
    (t.link parent child).size = t.size := by
  simp [link]

@[simp] theorem root_link (t : Arena α) (parent child : NodeId) :
    (t.link parent child).root = t.root := by
  simp [link]

/-! ## Looking up -/

/-- Whether looking up from the node ends after fewer than `fuel` steps. -/
def Ascends (t : Arena α) : Nat → NodeId → Prop
  | 0, _ => False
  | fuel + 1, id =>
    ∃ n, t.nodes[id]? = some n ∧ ∀ parent, n.parent = some parent → t.Ascends fuel parent

/-- The nodes of `t` have the same parents in `t'`. -/
def SameParents (t t' : Arena α) : Prop :=
  ∀ (id : NodeId) (n : Node α), t.nodes[id]? = some n →
    ∃ n' : Node α, t'.nodes[id]? = some n' ∧ n'.parent = n.parent

theorem Ascends.mono {t t' : Arena α} (hsame : t.SameParents t') {fuel fuel' : Nat}
    (hle : fuel ≤ fuel') {id : NodeId} (h : t.Ascends fuel id) : t'.Ascends fuel' id := by
  induction fuel generalizing fuel' id with
  | zero => cases h
  | succ fuel ih =>
      obtain ⟨n, hn, hparent⟩ := h
      obtain ⟨n', hn', heq⟩ := hsame id n hn
      cases fuel' with
      | zero => omega
      | succ fuel' =>
          refine ⟨n', hn', ?_⟩
          intro parent hp
          exact ih (Nat.le_of_succ_le_succ hle) (hparent parent (by rw [← heq, hp]))

theorem Ascends.lt_size {t : Arena α} {fuel : Nat} {id : NodeId} (h : t.Ascends fuel id) :
    id < t.size := by
  cases fuel with
  | zero => cases h
  | succ fuel =>
      obtain ⟨n, hn, -⟩ := h
      exact (Array.getElem?_eq_some_iff.mp hn).1

/-- Looking up from an old node does not meet a new one. -/
theorem Ascends.meetsAbove_eq {t t' : Arena α} (hsame : t.SameParents t') {target : NodeId}
    (htarget : t.size ≤ target) {fuel fuel' : Nat} (hle : fuel ≤ fuel') {id : NodeId}
    (h : t.Ascends fuel id) : t'.meetsAbove target fuel' id = .ok false := by
  induction fuel generalizing fuel' id with
  | zero => cases h
  | succ fuel ih =>
      have hne : id ≠ target := Nat.ne_of_lt (Nat.lt_of_lt_of_le h.lt_size htarget)
      obtain ⟨n, hn, hparent⟩ := h
      obtain ⟨n', hn', heq⟩ := hsame id n hn
      cases fuel' with
      | zero => omega
      | succ fuel' =>
          rw [meetsAbove, if_neg hne, node_eq_ok_iff.mpr hn']
          cases hp : n'.parent with
          | none => simp only [hp]
          | some parent =>
              simp only [hp]
              exact ih (Nat.le_of_succ_le_succ hle) (hparent parent (by rw [← heq, hp]))

theorem SameParents.trans {t t' t'' : Arena α} (h : t.SameParents t') (h' : t'.SameParents t'') :
    t.SameParents t'' := by
  intro id n hn
  obtain ⟨n', hn', heq⟩ := h id n hn
  obtain ⟨n'', hn'', heq'⟩ := h' id n' hn'
  exact ⟨n'', hn'', heq'.trans heq⟩

theorem sameParents_update (t : Arena α) (id : NodeId) {change : Node α → Node α}
    (h : ∀ n, (change n).parent = n.parent) : t.SameParents (t.update id change) := by
  intro j n hn
  rw [getElem?_update, hn]
  split
  · exact ⟨change n, rfl, h n⟩
  · exact ⟨n, rfl, rfl⟩

theorem sameParents_updateAt (t : Arena α) (link : Option NodeId) {change : Node α → Node α}
    (h : ∀ n, (change n).parent = n.parent) : t.SameParents (t.updateAt link change) := by
  cases link with
  | none => exact fun _ n hn => ⟨n, hn, rfl⟩
  | some id => exact sameParents_update t id h

theorem sameParents_extend (t : Arena α) (ns : List (Node α)) : t.SameParents (t.extend ns) := by
  intro id n hn
  refine ⟨n, ?_, rfl⟩
  rw [getElem?_extend_of_lt t ns (Array.getElem?_eq_some_iff.mp hn).1, hn]

theorem sameParents_link (t : Arena α) (parent child : NodeId) :
    t.SameParents (t.link parent child) := by
  unfold link
  refine .trans (sameParents_updateAt t _ ?_) (sameParents_update _ parent ?_)
  · exact fun _ => rfl
  · exact fun _ => rfl

/-! ## Moving new nodes -/

section Move

variable {t : Arena α} {ns : List (Node α)} {moved id k i : Nat}

/-- Taking a new node, which has a new node behind it, from below an old one. -/
theorem detach_extend (hmoved : moved = t.size + k) (hid : id = t.size + i) {links : Node α}
    {parent : Nat} (hparent : links.parent = some parent) (hlt : parent < t.size)
    (hprev : ∀ id, links.prev = some id → id < t.size) (hnext : links.next = some id) :
    (t.extend ns).detach moved links =
      ((t.updateAt links.prev fun n => { n with next := some id }).update parent
          fun n => { n with children := eraseLast moved n.children }).extend
        ((ns.modify i fun n => { n with prev := links.prev }).modify k
          fun n => { n with parent := none, prev := none, next := none }) := by
  unfold detach
  rw [updateAt_extend_of_lt t ns hprev, hnext, hparent, updateAt, updateAt,
    update_extend _ _ (by rwa [size_updateAt]),
    update_extend_of_lt _ _ (by rwa [size_updateAt]),
    update_extend _ _ (by rwa [size_update, size_updateAt])]

/-- Putting a new node below a new one without children. -/
theorem attach_extend (hmoved : moved = t.size + k) (hid : id = t.size + i) {n : Node α}
    (hn : ns[i]? = some n) (hchildren : n.children = []) :
    (t.extend ns).attach id moved =
      t.extend ((ns.modify k fun n => { n with parent := some id, prev := none }).modify
        i fun n => { n with children := n.children ++ [moved] }) := by
  have hlast : (t.extend ns).nodes[id]?.bind (·.children.getLast?) = none := by
    rw [hid, getElem?_extend, hn]
    simp [hchildren]
  simp only [attach, hlast, updateAt]
  rw [update_extend _ _ hmoved, update_extend _ _ hid]

end Move

/-! ## Putting nodes below an old one -/

/-- Whether nodes can be put below an old one: looking up from it ends, and its last
child is another old node. -/
structure Ready (t : Arena α) (parent : NodeId) : Prop where
  ascends : t.Ascends t.size parent
  last : ∀ id, t.lastOf parent = some id → id < t.size ∧ id ≠ parent

theorem Ready.addChild_eq {t : Arena α} {parent : NodeId} (h : t.Ready parent) (value : α) :
    t.addChild parent value = .ok (t.size, (t.link parent t.size).extend
      [⟨value, some parent, t.lastOf parent, none, []⟩]) := by
  have hlt := h.ascends.lt_size
  have hnode : t.nodes[parent]? = some t.nodes[parent] := Array.getElem?_eq_getElem hlt
  have hlast : t.lastOf parent = t.nodes[parent].children.getLast? := by
    rw [lastOf, hnode]
    rfl
  rw [addChild, node_eq_ok_iff.mpr hnode]
  simp only
  rw [← hlast, ← extend_nil t, push_extend, extend_nil,
    updateAt_extend_of_lt t _ (fun id hid => (h.last id hid).1),
    update_extend_of_lt _ _ (by rwa [size_updateAt])]
  rfl

theorem lastOf_extend_of_lt (t : Arena α) (ns : List (Node α)) {parent : Nat}
    (h : parent < t.size) : (t.extend ns).lastOf parent = t.lastOf parent := by
  rw [lastOf, getElem?_extend_of_lt t ns h, lastOf]

theorem Ready.lastOf_link {t : Arena α} {parent : NodeId} (h : t.Ready parent) (child : NodeId) :
    (t.link parent child).lastOf parent = some child := by
  have hlt := h.ascends.lt_size
  have hnode : t.nodes[parent]? = some t.nodes[parent] := Array.getElem?_eq_getElem hlt
  have hlast : t.lastOf parent ≠ some parent := fun heq => (h.last parent heq).2 rfl
  rw [lastOf, link, getElem?_update, if_pos rfl, getElem?_updateAt, if_neg hlast, hnode]
  simp

section LinkNew

variable {t : Arena α} {ns : List (Node α)} {id i : Nat} {n : Node α}

theorem lastOf_extend (hid : id = t.size + i) (hn : ns[i]? = some n) :
    (t.extend ns).lastOf id = n.children.getLast? := by
  rw [lastOf, hid, getElem?_extend, hn]
  rfl

/-- The first child of a new node. -/
theorem link_extend_nil (hid : id = t.size + i) (hn : ns[i]? = some n) (hnil : n.children = [])
    (child : NodeId) : (t.extend ns).link id child =
      t.extend (ns.modify i fun n => { n with children := n.children ++ [child] }) := by
  rw [link, lastOf_extend hid hn, hnil, List.getLast?_nil, updateAt, update_extend _ _ hid]

/-- A child of a new node, behind another new one. -/
theorem link_extend_cons (hid : id = t.size + i) (hn : ns[i]? = some n) {last : NodeId} {k : Nat}
    (hlast : n.children.getLast? = some last) (hk : last = t.size + k) (child : NodeId) :
    (t.extend ns).link id child =
      t.extend ((ns.modify k fun n => { n with next := some child }).modify i
        fun n => { n with children := n.children ++ [child] }) := by
  rw [link, lastOf_extend hid hn, hlast, updateAt, update_extend _ _ hk, update_extend _ _ hid]

end LinkNew

/-- Nodes can still be put below the node when new ones have been put there. -/
theorem Ready.extend_link {t : Arena α} {parent : NodeId} (h : t.Ready parent)
    {ns : List (Node α)} {k : Nat} (hk : k < ns.length) :
    ((t.link parent (t.size + k)).extend ns).Ready parent := by
  have hlt := h.ascends.lt_size
  have hlast : ((t.link parent (t.size + k)).extend ns).lastOf parent = some (t.size + k) := by
    rw [lastOf_extend_of_lt _ _ (by rwa [size_link]), h.lastOf_link]
  refine ⟨h.ascends.mono ((sameParents_link t _ _).trans (sameParents_extend _ _)) ?_, ?_⟩
  · rw [size_extend, size_link]
    exact Nat.le_add_right _ _
  · intro id hid
    obtain rfl := Option.some.inj (hlast.symm.trans hid)
    rw [size_extend, size_link]
    exact ⟨Nat.add_lt_add_left hk _, Nat.ne_of_gt (Nat.lt_add_right k hlt)⟩

theorem eraseLast_append (ids : List NodeId) {first id : NodeId} (hne : first ≠ id) :
    eraseLast first (ids ++ [first, id]) = ids ++ [id] := by
  simp [eraseLast, hne.symm]

/-- What is left of a child that has been listed before another and taken out again. -/
theorem Ready.relink {t : Arena α} {parent : NodeId} (h : t.Ready parent) {first id : NodeId}
    (hne : first ≠ id) :
    ((((t.link parent first).update parent fun n => { n with children := n.children ++ [id] }
      ).updateAt (t.lastOf parent) fun n => { n with next := some id }).update parent
        fun n => { n with children := eraseLast first n.children }) = t.link parent id := by
  have hlast : t.lastOf parent ≠ some parent := fun heq => (h.last parent heq).2 rfl
  refine ext_getElem? (by simp) ?_
  intro j
  simp only [link, getElem?_update, getElem?_updateAt]
  by_cases hparent : parent = j
  · subst hparent
    cases t.nodes[parent]? with
    | none => simp
    | some n => simp [hlast, eraseLast_append _ hne]
  · by_cases hj : t.lastOf parent = some j
    · cases t.nodes[j]? <;> simp [hparent, hj]
    · simp [hparent, hj]

/-- Moving a new node below the last one, which stands behind it below an old one. -/
theorem adopt_extend {t : Arena α} {parent : Nat} (h : t.Ascends t.size parent)
    {ns : List (Node α)} {moved id k : Nat} (hmoved : moved = t.size + k)
    (hid : id = t.size + ns.length) {n m : Node α} (hn : ns[k]? = some n)
    (hparent : n.parent = some parent) (hprev : ∀ before, n.prev = some before → before < t.size)
    (hnext : n.next = some id) (hparent' : m.parent = some parent) (hchildren : m.children = []) :
    (t.extend (ns ++ [m])).adopt id moved =
      .ok (((t.updateAt n.prev fun n => { n with next := some id }).update parent
          fun n => { n with children := eraseLast moved n.children }).extend
        (ns.modify k (fun n => { n with parent := some id, prev := none, next := none }) ++
          [{ m with prev := n.prev, children := [moved] }])) := by
  have hk : k < ns.length := (List.getElem?_eq_some_iff.mp hn).1
  have hne : id ≠ moved := by omega
  have hnew : (t.extend (ns ++ [m])).nodes[id]? = some m := by
    rw [hid, getElem?_extend]
    simp
  have hold : (t.extend (ns ++ [m])).nodes[moved]? = some n := by
    rw [hmoved, getElem?_extend, List.getElem?_append_left hk, hn]
  have habove : (t.extend (ns ++ [m])).isAncestorOrSelf moved id = .ok false := by
    rw [isAncestorOrSelf, meetsAbove, if_neg hne, node_eq_ok_iff.mpr hnew]
    simp only [hparent']
    refine h.meetsAbove_eq (sameParents_extend _ _) ?_ ?_
    · rw [hmoved]
      exact Nat.le_add_right _ _
    · rw [size_extend]
      exact Nat.le_add_right _ _
  rw [adopt, habove]
  simp only
  rw [node_eq_ok_iff.mpr hold]
  simp only
  have hlen : (ns.modify k fun n => { n with parent := none, prev := none, next := none }).length =
      ns.length := List.length_modify _ _ _
  have hnone : ({ m with prev := n.prev } : Node α).children = [] := hchildren
  rw [detach_extend hmoved hid hparent h.lt_size hprev hnext,
    modify_append_right _ _ _ (Nat.add_zero _).symm, modify_append_left _ hk,
    List.modify_zero_cons, attach_extend (by simpa using hmoved) (by simpa [hlen] using hid)
      (by simp) hnone, modify_append_left _ (by rwa [hlen]), List.modify_modify_eq,
    modify_append_right _ _ _ (show ns.length = _ + 0 by rw [List.length_modify]; rfl),
    List.modify_zero_cons, hchildren]
  rfl

/-- A new node is put behind other new ones, and the one before it has it as its
neighbour. -/
theorem Ready.addChild_extend {t : Arena α} {parent : NodeId} (h : t.Ready parent)
    {ns : List (Node α)} {k : Nat} (hk : k < ns.length) (value : α) :
    ((t.link parent (t.size + k)).extend ns).addChild parent value =
      .ok (t.size + ns.length, ((t.link parent (t.size + k)).update parent fun n =>
        { n with children := n.children ++ [t.size + ns.length] }).extend
          (ns.modify k (fun n => { n with next := some (t.size + ns.length) }) ++
            [⟨value, some parent, some (t.size + k), none, []⟩])) := by
  have hlast : ((t.link parent (t.size + k)).extend ns).lastOf parent = some (t.size + k) := by
    rw [lastOf_extend_of_lt _ _ (by rw [size_link]; exact h.ascends.lt_size), h.lastOf_link]
  rw [(h.extend_link hk).addChild_eq]
  simp only [hlast, size_extend, size_link]
  rw [link, hlast, updateAt, update_extend _ _ (by rw [size_link]),
    update_extend_of_lt _ _ (by rw [size_link]; exact h.ascends.lt_size), extend_extend]

/-- Put a new node behind other new ones and move one of these below it: an old node comes
to list the last one instead of the one that is moved. -/
theorem Ready.addChild_adopt {t : Arena α} {parent : NodeId} (h : t.Ready parent)
    {ns : List (Node α)} {k : Nat} {n : Node α} (hn : ns[k]? = some n)
    (hparent : n.parent = some parent) (hprev : n.prev = t.lastOf parent) (value : α) :
    ∃ s, ((t.link parent (t.size + k)).extend ns).addChild parent value =
        .ok (t.size + ns.length, s) ∧
      s.adopt (t.size + ns.length) (t.size + k) =
        .ok ((t.link parent (t.size + ns.length)).extend
          (ns.modify k (fun n =>
            { n with parent := some (t.size + ns.length), prev := none, next := none }) ++
              [⟨value, some parent, t.lastOf parent, none, [t.size + k]⟩])) := by
  have hk : k < ns.length := (List.getElem?_eq_some_iff.mp hn).1
  obtain ⟨u, hu⟩ : ∃ u, (t.link parent (t.size + k)).update parent
      (fun n => { n with children := n.children ++ [t.size + ns.length] }) = u := ⟨_, rfl⟩
  have hadd := h.addChild_extend hk value
  rw [hu] at hadd
  have hsize : u.size = t.size := by
    rw [← hu, size_update, size_link]
  have hascends : u.Ascends u.size parent := by
    rw [hsize, ← hu]
    refine h.ascends.mono ((sameParents_link t _ _).trans (sameParents_update _ _ ?_))
      (Nat.le_refl _)
    exact fun _ => rfl
  have hmodify : (ns.modify k fun n => { n with next := some (t.size + ns.length) })[k]? =
      some { n with next := some (t.size + ns.length) } := by
    rw [List.getElem?_modify_eq, hn]
    rfl
  have hold : ∀ before, n.prev = some before → before < u.size := by
    intro before hbefore
    rw [hsize]
    exact (h.last before (hprev ▸ hbefore)).1
  have hne : t.size + k ≠ t.size + ns.length := by omega
  have hrelink := h.relink hne
  refine ⟨_, hadd, ?_⟩
  rw [adopt_extend hascends (by rw [hsize]) (by rw [hsize, List.length_modify]) hmodify hparent
    hold rfl rfl rfl, List.modify_modify_eq]
  simp only [hprev]
  rw [← hu, hrelink]
  rfl

end Arena

end LoxReader
