/-
  `Proofs.Building.Append`: what a rule does to the arena it lays out in.

  On its way a chain moves what it has laid out, again and again.  Of this nothing is left
  in the end: the new nodes are those of an expression, its own node is listed behind the
  last child of the parent, and all other nodes are as they were.  The main statement is
  `Builder.appends_of_run`.
-/
import LoxReader.Proofs.Ast.Complete
import LoxReader.Proofs.Building.Rules

set_option autoImplicit false

namespace LoxReader

/-! ## Arenas with one subtree more -/

namespace Arena

section Append

variable {α : Type} {t t' : Arena α} {parent id : NodeId}

/-- The second arena is the first with one subtree more, of new nodes, behind the last child
of `parent`. -/
structure Appends (t : Arena α) (parent id : NodeId) (t' : Arena α) : Prop where
  root : t'.root = t.root
  /-- The new nodes are those of the subtree. -/
  below_iff : ∀ other, t'.Below id other ↔ t.size ≤ other ∧ other < t'.size
  /-- The top of the subtree stands behind the last child. -/
  placed : ∃ n, t'.nodes[id]? = some n ∧ n.parent = some parent ∧ n.prev = t.lastOf parent ∧
    n.next = none
  /-- The parent lists one child more. -/
  listed : ∀ n, t.nodes[parent]? = some n →
    t'.nodes[parent]? = some { n with children := n.children ++ [id] }
  /-- What was its last child has a neighbour behind it. -/
  followed : ∀ last n, t.lastOf parent = some last → t.nodes[last]? = some n →
    t'.nodes[last]? = some { n with next := some id }
  /-- No other node is changed. -/
  kept : ∀ other n, other ≠ parent → t.lastOf parent ≠ some other → t.nodes[other]? = some n →
    t'.nodes[other]? = some n

/-- The node after another one was listed behind its last child. -/
theorem getElem?_link (t : Arena α) (parent child j : NodeId) :
    (t.link parent child).nodes[j]? = t.nodes[j]?.map fun n =>
      { n with
        next := if t.lastOf parent = some j then some child else n.next
        children := if parent = j then n.children ++ [child] else n.children } := by
  rw [link, getElem?_update, getElem?_updateAt]
  cases t.nodes[j]? with
  | none => simp
  | some n => split <;> split <;> simp

/-- Listing the top of new nodes appends them, if they are its subtree. -/
theorem Ready.appends (h : t.Ready parent) {ns : List (Node α)} {k : Nat} {n : Node α}
    (hn : ns[k]? = some n) (hparent : n.parent = some parent) (hprev : n.prev = t.lastOf parent)
    (hnext : n.next = none)
    (hbelow : ∀ other, ((t.link parent (t.size + k)).extend ns).Below (t.size + k) other ↔
      t.size ≤ other ∧ other < t.size + ns.length) :
    t.Appends parent (t.size + k) ((t.link parent (t.size + k)).extend ns) := by
  -- An old node is changed by the new link only.
  have hold : ∀ {j : NodeId} {m : Node α}, t.nodes[j]? = some m →
      ((t.link parent (t.size + k)).extend ns).nodes[j]? = some
        { m with
          next := if t.lastOf parent = some j then some (t.size + k) else m.next
          children := if parent = j then m.children ++ [t.size + k] else m.children } := by
    intro j m hm
    have hlt : j < t.size := (Array.getElem?_eq_some_iff.mp hm).1
    rw [getElem?_extend_of_lt _ _ (by rwa [size_link]), getElem?_link, hm, Option.map_some]
  refine ⟨root_link t parent _, ?_, ?_, ?_, ?_, ?_⟩
  · intro other
    rw [hbelow, size_extend, size_link]
  · have hnew := getElem?_extend (t.link parent (t.size + k)) ns k
    rw [size_link, hn] at hnew
    exact ⟨n, hnew, hparent, hprev, hnext⟩
  · intro m hm
    have hlast : t.lastOf parent ≠ some parent := fun heq => (h.last parent heq).2 rfl
    rw [hold hm, if_neg hlast, if_pos rfl]
  · intro last m hlast hm
    rw [hold hm, if_pos hlast, if_neg (h.last last hlast).2.symm]
  · intro other m hne hlast hm
    rw [hold hm, if_neg hlast, if_neg hne.symm]

/-! ## Nodes of arenas with a history -/

/-- Looking up from a node ends where the way from it ends at the top. -/
theorem Climbs.ascends {path : List NodeId} (h : t.Climbs (some id) path) {fuel : Nat}
    (hfuel : path.length ≤ fuel) : t.Ascends fuel id := by
  induction path generalizing id fuel with
  | nil => cases h
  | cons first path ih =>
      obtain ⟨hid, n, hn, hpath⟩ := h
      obtain rfl := Option.some.inj hid
      obtain ⟨fuel, rfl⟩ := Nat.exists_eq_add_of_le' (Nat.le_trans (Nat.le_add_left 1 _) hfuel)
      refine ⟨n, hn, fun parent hparent => ?_⟩
      rw [hparent] at hpath
      exact ih hpath (Nat.le_of_succ_le_succ hfuel)

/-- A node from which looking up ends is not its own parent. -/
theorem Ascends.parent_ne {fuel : Nat} (h : t.Ascends fuel id) {n : Node α}
    (hn : t.nodes[id]? = some n) : n.parent ≠ some id := by
  intro hparent
  induction fuel with
  | zero => cases h
  | succ fuel ih =>
      obtain ⟨m, hm, hup⟩ := h
      obtain rfl : n = m := Option.some.inj (hn.symm.trans hm)
      exact ih (hup id hparent)

/-- Nodes can be put below every node of an arena with a history. -/
theorem Reachable.ready (h : t.Reachable) (hparent : parent < t.size) : t.Ready parent := by
  obtain ⟨f, hf⟩ := h.exists_depicts
  have hcarries := hf.carries
  obtain ⟨path, hpath, hlength, -⟩ := hcarries.exists_climbs (hcarries.mem_ids_iff.mpr hparent)
  have hascends := hpath.ascends hlength
  refine ⟨hascends, fun last hlast => ?_⟩
  obtain ⟨m, hm, hmem⟩ := Option.bind_eq_some_iff.mp hlast
  obtain ⟨n, hn, hup⟩ := hcarries.linked.exists_child hm (List.mem_of_getLast? hmem)
  refine ⟨(Array.getElem?_eq_some_iff.mp hn).1, ?_⟩
  rintro rfl
  exact hascends.parent_ne hn hup

end Append

end Arena

/-! ## Expressions that are laid out -/

namespace Expr

variable {t : Arena Entry} {parent : NodeId}

/-- Below a node with one part stand all slots of the part. -/
theorem below_only {inner : Expr} {first : Nat} {n : Node Entry} (hn : t.nodes[first]? = some n)
    (hchildren : n.children = [first + 1 + inner.lead])
    (ih : ∀ {other : Nat}, first + 1 ≤ other ∧ other < first + 1 + inner.size →
      t.Below (first + 1 + inner.lead) other)
    {other : Nat} (hother : first ≤ other ∧ other < first + (inner.size + 1)) :
    t.Below first other := by
  rcases Nat.eq_or_lt_of_le hother.1 with rfl | hlt
  · exact .self
  · have hmem : first + 1 + inner.lead ∈ n.children := by
      rw [hchildren]
      exact List.mem_cons_self
    exact .child hn hmem (ih ⟨hlt, by omega⟩)

/-- All slots of an expression stand below its own. -/
theorem below_of_stores (e : Expr) {first : Nat} {prev next : Option NodeId}
    (h : t.Stores first (e.cells first parent prev next)) {other : Nat}
    (hother : first ≤ other ∧ other < first + e.size) : t.Below (first + e.lead) other := by
  induction e generalizing first parent prev next other with
  | literal loc value =>
      obtain rfl : other = first := Nat.le_antisymm (Nat.le_of_lt_succ hother.2) hother.1
      exact .self
  | group loc inner ih => exact below_only h.head rfl (ih h.tail) hother
  | unary loc op operand ih => exact below_only h.head rfl (ih h.tail) hother
  | binary loc op left right ihl ihr =>
      obtain ⟨hleft, hnode, hright⟩ := stores_binary h
      rw [size] at hother
      rcases Nat.lt_trichotomy other (first + left.size) with hlt | rfl | hgt
      · exact .child hnode List.mem_cons_self (ihl hleft ⟨hother.1, hlt⟩)
      · exact .self
      · exact .child hnode (List.mem_cons_of_mem _ List.mem_cons_self)
          (ihr hright ⟨hgt, by omega⟩)

/-- The nodes of an expression that is laid out are new ones. -/
theorem stores_laid (e : Expr) (t : Arena Entry) (parent : NodeId) :
    (e.laid t parent).Stores t.size (e.cells t.size parent (t.lastOf parent) none) := by
  intro k _
  have hget := Arena.getElem?_extend (t.link parent (t.size + e.lead))
    (e.cells t.size parent (t.lastOf parent) none) k
  rwa [Arena.size_link] at hget

/-- Laying out an expression appends its nodes. -/
theorem appends_laid (e : Expr) (h : t.Ready parent) :
    t.Appends parent (t.size + e.lead) (e.laid t parent) := by
  refine h.appends (e.getElem?_cells _ _ _ _) rfl rfl rfl fun other => ?_
  rw [length_cells]
  have hstores := e.stores_laid t parent
  exact ⟨e.below_bounds hstores, e.below_of_stores hstores⟩

end Expr

/-! ## What is laid out while it is read -/

namespace Builder

/-- What has been laid out, if anything, is an expression behind the last child of the
node. -/
def LaysOut (t : Arena Entry) (parent : NodeId) {bound : Nat} (result : Built bound) : Prop :=
  ∀ id t' c' h, result = .ok ⟨(id, t', c'), h⟩ →
    ∃ e : Expr, id = t.size + e.lead ∧ t' = e.laid t parent

variable {t : Arena Entry} {parent : NodeId} {bound : Nat} {c : Cursor}

namespace LaysOut

theorem error (s : Stop) : LaysOut t parent (.error s : Built bound) :=
  fun _ _ _ _ h => by cases h

theorem ok (e : Expr) {h : c.remaining < bound} :
    LaysOut t parent (.ok ⟨(t.size + e.lead, e.laid t parent, c), h⟩) := by
  intro id t' c' h' heq
  cases heq
  exact ⟨e, rfl, rfl⟩

theorem take {go : (token : Token) → (next : Cursor) → next.remaining < c.remaining → Built bound}
    (h : ∀ token next hnext, LaysOut t parent (go token next hnext)) :
    LaysOut t parent (take c go) := by
  unfold Builder.take
  split
  · exact error _
  · exact h _ _ _

theorem goOn {bound' : Nat} {result : Built bound}
    {go : NodeId → Arena Entry → (c : Cursor) → c.remaining < bound → Built bound'}
    (h : LaysOut t parent result)
    (hgo : ∀ (e : Expr) c hless,
      LaysOut t parent (go (t.size + e.lead) (e.laid t parent) c hless)) :
    LaysOut t parent (goOn go result) := by
  cases result with
  | error s => exact error s
  | ok result =>
      obtain ⟨⟨id, t', c'⟩, hless⟩ := result
      obtain ⟨e, rfl, rfl⟩ := h _ _ _ _ rfl
      exact hgo e c' hless

end LaysOut

/-- A node is put unless there is no index left. -/
theorem put_eq_or {value : Entry} {result : NodeId × Arena Entry}
    (hadd : t.addChild parent value = .ok result) :
    put t parent value = .error .full ∨ put t parent value = .ok result := by
  unfold put
  split
  · rw [hadd]
    exact .inr rfl
  · exact .inl rfl

/-- An operator comes to stand where its left operand stood. -/
theorem laysOut_foldBinary (h : t.Ready parent) (left : Expr) (op : BinaryOp) {operand : Rule}
    (hoperand : ∀ {t : Arena Entry} {parent : NodeId}, t.Ready parent → ∀ c' : Cursor,
      c'.remaining < c.remaining → LaysOut t parent (operand.build t parent c')) :
    LaysOut t parent
      (foldBinary operand op parent (t.size + left.lead) (left.laid t parent) c) := by
  rw [foldBinary]
  refine .take fun token next hnext => ?_
  obtain ⟨s, s', hadd, hadopt, hready, hlaid⟩ := Expr.exists_addChild_adopt h left token.loc op
  rcases put_eq_or hadd with hfull | hput
  · simp only [hfull]
    exact .error _
  · simp only [hput, hadopt]
    cases hright : operand.build s' (t.size + left.size) next with
    | error stop => exact .error stop
    | ok result =>
        obtain ⟨⟨id, t', c'⟩, hless⟩ := result
        obtain ⟨right, -, rfl⟩ := hoperand hready next hnext _ _ _ _ hright
        rw [hlaid]
        exact .ok (.binary token.loc op left right)

-- The induction is along the recursion of the reading functions.  It carries that nodes can
-- be put below `parent`; whether there is an index for them is left open, since a function
-- that is refused one lays out nothing.
mutual

theorem laysOut_chain {level : Nat} {t : Arena Entry} {parent : NodeId} (h : t.Ready parent)
    (c : Cursor) : LaysOut t parent (chain level t parent c) := by
  rw [chain_eq_goOn]
  exact (laysOut_unary h c).goOn fun left c' hless => laysOut_chainTail h left c' hless
termination_by (c.remaining, 3)

theorem laysOut_chainTail {level : Nat} {t : Arena Entry} {parent : NodeId} (h : t.Ready parent)
    (left : Expr) {bound : Nat} (c : Cursor) (hbound : c.remaining < bound) :
    LaysOut t parent
      (chainTail level (left.laid t parent) parent (t.size + left.lead) c hbound) := by
  cases hop : c.binaryOp? level with
  | none =>
      rw [chainTail_of_none hop]
      exact .ok left
  | some op =>
      rw [chainTail_of_some hop]
      refine (laysOut_foldBinary h left op fun hready c' hless => ?_).goOn
        fun e c' hless => laysOut_chainTail h e c' _
      rw [build_ofLevel (Nat.le_trans (Nat.sub_le _ _) op.precedence_le)]
      exact laysOut_chain hready c'
termination_by (c.remaining, 0)

theorem laysOut_unary {t : Arena Entry} {parent : NodeId} (h : t.Ready parent) (c : Cursor) :
    LaysOut t parent (unary t parent c) := by
  rw [unary]
  split
  · exact laysOut_primary h c
  · rename_i op _
    refine .take fun token next hnext => ?_
    obtain ⟨s, hadd, hready⟩ := Expr.exists_addChild h ⟨.unary op, token.loc⟩
    rcases put_eq_or hadd with hfull | hput
    · simp only [hfull]
      exact .error _
    · simp only [hput]
      cases hoperand : unary s t.size next with
      | error stop => exact .error stop
      | ok result =>
          obtain ⟨⟨id, t', c'⟩, hless⟩ := result
          obtain ⟨operand, -, rfl⟩ := laysOut_unary hready next _ _ _ _ hoperand
          rw [Expr.laid_unary h hadd hready]
          exact .ok (.unary token.loc op operand)
termination_by (c.remaining, 2)

theorem laysOut_primary {t : Arena Entry} {parent : NodeId} (h : t.Ready parent) (c : Cursor) :
    LaysOut t parent (primary t parent c) := by
  rw [primary]
  split
  · rename_i value _
    refine .take fun token next hnext => ?_
    rcases put_eq_or (h.addChild_eq ⟨.literal value, token.loc⟩) with hfull | hput
    · simp only [hfull]
      exact .error _
    · simp only [hput]
      exact .ok (.literal token.loc value)
  · split
    · exact laysOut_group h c
    · exact .error _
termination_by (c.remaining, 1)

theorem laysOut_group {t : Arena Entry} {parent : NodeId} (h : t.Ready parent) (c : Cursor) :
    LaysOut t parent (group t parent c) := by
  rw [group]
  refine .take fun token next hnext => ?_
  obtain ⟨s, hadd, hready⟩ := Expr.exists_addChild h ⟨.paren, token.loc⟩
  rcases put_eq_or hadd with hfull | hput
  · simp only [hfull]
    exact .error _
  · simp only [hput]
    cases hinner : chain loosest s t.size next with
    | error stop => exact .error stop
    | ok result =>
        obtain ⟨⟨id, t', c'⟩, hless⟩ := result
        obtain ⟨inner, -, rfl⟩ := laysOut_chain hready next _ _ _ _ hinner
        simp only
        split
        · rw [Expr.laid_group h hadd hready]
          exact .take fun _ next' hnext' => .ok (.group token.loc inner)
        · exact .error _
termination_by (c.remaining, 0)

end

/-- The functions that lay out while they read: one for each rule, and one for an expression
between parentheses. -/
inductive Reader where
  | rule (rule : Rule)
  | group
deriving DecidableEq

/-- Lay out what is read at the cursor behind the last child of `parent`. -/
def Reader.run : Reader → Arena Entry → NodeId → (c : Cursor) → Built c.remaining
  | .rule r, t, parent, c => r.build t parent c
  | .group, t, parent, c => Builder.group t parent c

theorem laysOut_run (h : t.Ready parent) (reader : Reader) (c : Cursor) :
    LaysOut t parent (reader.run t parent c) := by
  cases reader with
  | group => exact laysOut_group h c
  | rule rule =>
      cases rule with
      | primary => exact laysOut_primary h c
      | unary => exact laysOut_unary h c
      | _ => exact laysOut_chain h c

/-- Wherever a rule is read, the arena stays one with a history. -/
theorem reachable_of_run (h : t.Reachable) (hparent : parent < t.size) {reader : Reader}
    {id : NodeId} {t' : Arena Entry} {c' : Cursor} {hless : c'.remaining < c.remaining}
    (hrun : reader.run t parent c = .ok ⟨(id, t', c'), hless⟩) : t'.Reachable := by
  have hready := h.ready hparent
  obtain ⟨e, -, rfl⟩ := laysOut_run hready reader c _ _ _ _ hrun
  exact h.layOut (e.layOut_eq_laid hready)

/-- What a rule answers is the top of new nodes, which it has appended as one subtree behind
the last child of the parent; it has not changed the arena otherwise. -/
theorem appends_of_run (h : t.Reachable) (hparent : parent < t.size) {reader : Reader}
    {id : NodeId} {t' : Arena Entry} {c' : Cursor} {hless : c'.remaining < c.remaining}
    (hrun : reader.run t parent c = .ok ⟨(id, t', c'), hless⟩) : t.Appends parent id t' := by
  have hready := h.ready hparent
  obtain ⟨e, rfl, rfl⟩ := laysOut_run hready reader c _ _ _ _ hrun
  exact e.appends_laid hready

/-- Both differences of `nil - nil - (nil)` are put behind the only child of a top node, and
the second one is left there. -/
theorem appends_of_run_differences :
    ∃ c, Cursor.ofTokens differences.tokens.toList = .ok c ∧
      ∃ t : Arena Entry, t = Arena.empty.afterAll
          [.addRoot ⟨.root, ⟨1, 1, 0⟩⟩, .addChild 0 ⟨.literal .nil, ⟨1, 1, 0⟩⟩] ∧
        ∃ t' c' hless, (Reader.rule .term).run t 0 c = .ok ⟨(5, t', c'), hless⟩ ∧
          t.Appends 0 5 t' := by
  refine ⟨_, rfl, _, rfl, ?_⟩
  generalize hresult : (Reader.rule .term).run _ 0 _ = result
  have hid : result.toOption.map (·.1.1) = some 5 := by
    rw [← hresult]
    cbv
  cases result with
  | error s => cases hid
  | ok result =>
      obtain ⟨⟨id, t', c'⟩, hless⟩ := result
      obtain rfl : id = 5 := Option.some.inj hid
      exact ⟨t', c', hless, rfl, appends_of_run ⟨_, rfl⟩ (by decide) hresult⟩

end Builder

end LoxReader
