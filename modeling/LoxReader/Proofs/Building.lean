/-
  `Proofs.Building`: laying out an expression while it is read.

  Reading first and laying out afterwards could be done in one go: every rule puts its nodes
  into the arena as it takes their tokens, and the left operand of an operator moves below
  it before the right one is read.  Here a token is taken, a node put and a node moved by
  operations that could refuse, also on the way to an error.  They never do as long as there
  are no more tokens than indices, and the result is the same (`build_eq_of_parse`).
-/
import LoxReader.Analysis
import LoxReader.Proofs.Ast.Layout
import LoxReader.Proofs.Expr.Order
import LoxReader.Proofs.Expr.Soundness

set_option autoImplicit false

namespace LoxReader

/-! ## Reading into an arena -/

/-- Why reading into an arena stops early: at the first error, or because an operation
refuses. -/
inductive Stop where
  | error (e : ParseError)
  | cursor (f : CursorFault)
  | arena (f : ArenaFault)
  /-- There is no index left for a node. -/
  | full
deriving DecidableEq

/-- The node that was laid out, the arena with it and the cursor behind, with less than
`bound` tokens left; or why there is none. -/
abbrev Built (bound : Nat) : Type :=
  Except Stop { result : NodeId × Arena Entry × Cursor // result.2.2.remaining < bound }

namespace Builder

/-- Put a node behind the last child of `parent`, if there is an index left for it. -/
def put (t : Arena Entry) (parent : NodeId) (value : Entry) :
    Except Stop (NodeId × Arena Entry) :=
  if t.size < Location.fieldLimit then
    match t.addChild parent value with
    | .error f => .error (.arena f)
    | .ok result => .ok result
  else
    .error .full

/-- Take the current token and go on at the next. -/
def take {bound : Nat} (c : Cursor)
    (go : (token : Token) → (next : Cursor) → next.remaining < c.remaining → Built bound) :
    Built bound :=
  match h : c.advance with
  | .error f => .error (.cursor f)
  | .ok (token, next) => go token next (Cursor.remaining_of_advance h)

/-- A token is taken unless it marks the end. -/
theorem take_eq {bound : Nat} {c : Cursor} (h : c.kind ≠ .eof)
    (go : (token : Token) → (next : Cursor) → next.remaining < c.remaining → Built bound) :
    take c go = go c.current (c.next h) (c.remaining_next_lt h) := by
  unfold take
  split
  · rename_i f hadvance
    simp [Cursor.advance_eq_ok h] at hadvance
  · rename_i token next hadvance
    rw [Cursor.advance_eq_ok h] at hadvance
    obtain ⟨rfl, rfl⟩ := Prod.mk.inj (Except.ok.inj hadvance)
    rfl

mutual

/-- Lay out an operand and the operators after it that bind at least as tightly as `level`,
with their right operands, behind the last child of `parent`. -/
def chain (level : Nat) (t : Arena Entry) (parent : NodeId) (c : Cursor) : Built c.remaining :=
  match unary t parent c with
  | .error s => .error s
  | .ok ⟨(left, t, c'), h⟩ => chainTail level t parent left c' h
termination_by (c.remaining, 3)

/-- Lay out the rest of a chain of which the node `left` has been laid out. -/
def chainTail (level : Nat) (t : Arena Entry) (parent left : NodeId) {bound : Nat} (c : Cursor)
    (h : c.remaining < bound) : Built bound :=
  match c.binaryOp? level with
  | none => .ok ⟨(left, t, c), h⟩
  | some op =>
    take c fun token next hnext =>
      match put t parent ⟨.binary op, token.loc⟩ with
      | .error s => .error s
      | .ok (id, t) =>
        match t.adopt id left with
        | .error f => .error (.arena f)
        | .ok t =>
          match chain (op.precedence - 1) t id next with
          | .error s => .error s
          | .ok ⟨(_, t, c'), hright⟩ =>
            have hless : c'.remaining < c.remaining := Nat.lt_trans hright hnext
            chainTail level t parent id c' (Nat.lt_trans hless h)
termination_by (c.remaining, 0)

/-- Lay out an operand, with the operators before it. -/
def unary (t : Arena Entry) (parent : NodeId) (c : Cursor) : Built c.remaining :=
  match c.unaryOp? with
  | none => primary t parent c
  | some op =>
    take c fun token next hnext =>
      match put t parent ⟨.unary op, token.loc⟩ with
      | .error s => .error s
      | .ok (id, t) =>
        match unary t id next with
        | .error s => .error s
        | .ok ⟨(_, t, c'), h⟩ => .ok ⟨(id, t, c'), Nat.lt_trans h hnext⟩
termination_by (c.remaining, 2)

/-- Lay out a literal, or an expression between parentheses. -/
def primary (t : Arena Entry) (parent : NodeId) (c : Cursor) : Built c.remaining :=
  match Literal.ofToken? c.kind with
  | some value =>
    take c fun token next hnext =>
      match put t parent ⟨.literal value, token.loc⟩ with
      | .error s => .error s
      | .ok (id, t) => .ok ⟨(id, t, next), hnext⟩
  | none =>
    if c.kind = .symbol .leftParen then
      group t parent c
    else
      .error (.error (c.error .expectedExpression))
termination_by (c.remaining, 1)

/-- Lay out an expression between the parenthesis at the cursor and the one that closes
it. -/
def group (t : Arena Entry) (parent : NodeId) (c : Cursor) : Built c.remaining :=
  take c fun token next hnext =>
    match put t parent ⟨.paren, token.loc⟩ with
    | .error s => .error s
    | .ok (id, t) =>
      match chain loosest t id next with
      | .error s => .error s
      | .ok ⟨(_, t, c'), h⟩ =>
        if c'.kind = .symbol .rightParen then
          take c' fun _ next' hnext' =>
            .ok ⟨(id, t, next'), Nat.lt_trans hnext' (Nat.lt_trans h hnext)⟩
        else
          .error (.error (c'.error (.unclosedParen token.loc)))
termination_by (c.remaining, 0)

end

end Builder

/-- Why a source cannot be laid out while it is read. -/
inductive BuildFault where
  | cursor (f : CursorFault)
  | arena (f : ArenaFault)
  | full
  | entry (f : EntryFault)
deriving DecidableEq

/-- Lay out the expression that tokens hold while it is read. -/
def Tokenization.build (t : Tokenization) : Except BuildFault (Except ParseError Ast) :=
  match Cursor.ofTokens t.tokens.toList with
  | .error f => .error (.cursor f)
  | .ok c =>
    match Arena.empty.addRoot ⟨.root, c.loc⟩ with
    | (root, arena) =>
      match Builder.chain loosest arena root c with
      | .error (.error e) => .ok (.error e)
      | .error (.cursor f) => .error (.cursor f)
      | .error (.arena f) => .error (.arena f)
      | .error .full => .error .full
      | .ok ⟨(expr, arena, c'), _⟩ =>
        if c'.atEnd then
          match Ast.ofArena arena root expr with
          | .error f => .error (.entry f)
          | .ok a => .ok (.ok a)
        else
          .ok (.error (c'.error .expectedEndOfInput))

/-! ## Steps of laying out -/

namespace Expr

/-- The arena with an expression laid out behind the last child of a node. -/
def laid (e : Expr) (t : Arena Entry) (parent : NodeId) : Arena Entry :=
  (t.link parent (t.size + e.lead)).extend (e.cells t.size parent (t.lastOf parent) none)

@[simp] theorem size_laid (e : Expr) (t : Arena Entry) (parent : NodeId) :
    (e.laid t parent).size = t.size + e.size := by
  rw [laid, Arena.size_extend, Arena.size_link, length_cells]

variable {t : Arena Entry} {parent : NodeId}

theorem layOut_eq_laid (e : Expr) (h : t.Ready parent) :
    e.layOut t parent = .ok (t.size + e.lead, e.laid t parent) :=
  e.layOut_eq h

/-- A node that stands before its only part is put where the part can be put below it. -/
theorem exists_addChild (h : t.Ready parent) (value : Entry) :
    ∃ s, t.addChild parent value = .ok (t.size, s) ∧ s.Ready t.size := by
  have hready : ((t.link parent t.size).extend
      [⟨value, some parent, t.lastOf parent, none, []⟩]).Ready t.size :=
    h.below (i := 0) rfl rfl (by simp)
  exact ⟨_, h.addChild_eq value, hready⟩

theorem eq_laid_of_layOut {e : Expr} (h : t.Ready parent) {id : NodeId} {s : Arena Entry}
    (hlayout : e.layOut t parent = .ok (id, s)) : s = e.laid t parent :=
  (Prod.mk.inj (Except.ok.inj (hlayout.symm.trans (e.layOut_eq_laid h)))).2

theorem laid_unary (h : t.Ready parent) {loc : Location} {op : UnaryOp} {s : Arena Entry}
    (hadd : t.addChild parent ⟨.unary op, loc⟩ = .ok (t.size, s)) (hready : s.Ready t.size)
    (operand : Expr) : operand.laid s t.size = (unary loc op operand).laid t parent := by
  apply eq_laid_of_layOut h
  simp only [layOut, hadd, operand.layOut_eq_laid hready]
  rfl

theorem laid_group (h : t.Ready parent) {loc : Location} {s : Arena Entry}
    (hadd : t.addChild parent ⟨.paren, loc⟩ = .ok (t.size, s)) (hready : s.Ready t.size)
    (inner : Expr) : inner.laid s t.size = (group loc inner).laid t parent := by
  apply eq_laid_of_layOut h
  simp only [layOut, hadd, inner.layOut_eq_laid hready]
  rfl

/-- An operator is put behind its left operand, the operand moves below it, and the right
operand can be put behind that. -/
theorem exists_addChild_adopt (h : t.Ready parent) (left : Expr) (loc : Location)
    (op : BinaryOp) :
    ∃ s s', (left.laid t parent).addChild parent ⟨.binary op, loc⟩ =
        .ok (t.size + left.size, s) ∧
      s.adopt (t.size + left.size) (t.size + left.lead) = .ok s' ∧
        s'.Ready (t.size + left.size) ∧
          ∀ right : Expr, right.laid s' (t.size + left.size) =
            (binary loc op left right).laid t parent := by
  have hcell := left.getElem?_cells t.size parent (t.lastOf parent) none
  obtain ⟨s, hadd, hadopt⟩ := h.addChild_adopt hcell rfl rfl ⟨.binary op, loc⟩
  rw [length_cells] at hadd hadopt
  rw [left.modify_cells fun _ _ => rfl] at hadopt
  have hready := left.ready_concat h ⟨.binary op, loc⟩
  refine ⟨s, _, hadd, hadopt, hready, fun right => ?_⟩
  have hleft : left.layOut t parent = .ok (t.size + left.lead,
      (t.link parent (t.size + left.lead)).extend
        (left.cells t.size parent (t.lastOf parent) none)) := left.layOut_eq h
  apply eq_laid_of_layOut h
  simp only [layOut, hleft, hadd, hadopt, right.layOut_eq_laid hready]
  rfl

end Expr

/-! ## Room for the nodes -/

/-- What is taken makes room for the nodes of what is read. -/
theorem Cursor.Spans.size_le {c c' : Cursor} {rule : Rule} {e : Expr} (h : c.Spans rule e c') :
    e.size + c'.remaining ≤ c.remaining := by
  obtain ⟨ts, htakes, hderives⟩ := h
  have hsize := hderives.size_le
  have hlength := congrArg List.length htakes.tokens_eq
  simp only [tokens, List.length_append, List.length_cons] at hlength
  simp only [remaining]
  omega

/-- Whether there are indices for as many nodes as tokens are left. -/
def Arena.HasRoom (t : Arena Entry) (c : Cursor) : Prop :=
  t.size + c.remaining ≤ Location.fieldLimit

namespace Arena.HasRoom

variable {t t' : Arena Entry} {c : Cursor} {parent id : NodeId} {value : Entry}

/-- There is an index for the node of the token that is taken. -/
theorem put_eq (h : t.HasRoom c) (hkind : c.kind ≠ .eof)
    (hadd : t.addChild parent value = .ok (id, t')) :
    Builder.put t parent value = .ok (id, t') := by
  have hroom : t.size < Location.fieldLimit := by
    have hnext := c.remaining_next hkind
    rw [HasRoom] at h
    omega
  rw [Builder.put, if_pos hroom, hadd]

/-- Then there are indices for what is left. -/
theorem next (h : t.HasRoom c) (hkind : c.kind ≠ .eof)
    (hadd : t.addChild parent value = .ok (id, t')) : t'.HasRoom (c.next hkind) := by
  have hnext := c.remaining_next hkind
  have hsize := (size_of_addChild hadd).2
  rw [HasRoom] at h ⊢
  omega

theorem of_size_eq (h : t.HasRoom c) (hsize : t'.size = t.size) : t'.HasRoom c := by
  rw [HasRoom, hsize]
  exact h

/-- There are indices for what is left behind an expression. -/
theorem laid {c' : Cursor} {rule : Rule} {e : Expr} (h : t.HasRoom c) (hspans : c.Spans rule e c') :
    (e.laid t parent).HasRoom c' := by
  have hsize := hspans.size_le
  rw [HasRoom] at h ⊢
  rw [Expr.size_laid]
  omega

end Arena.HasRoom

/-! ## Reading first and laying out afterwards -/

/-- What was read, laid out behind the last child of a node. -/
def Parsed.layOut {bound : Nat} (t : Arena Entry) (parent : NodeId) :
    Parsed bound → Built bound
  | .error e => .error (.error e)
  | .ok ⟨(e, c), h⟩ => .ok ⟨(t.size + e.lead, e.laid t parent, c), h⟩

namespace Builder

-- The induction is along the recursion of the reading functions.  It carries that nodes can
-- be put below `parent` and that there is room for one per token left.  The left operand of a
-- chain is the exception: it has been laid out already.
mutual

/-- Laying out a chain while it is read is reading it and laying it out. -/
theorem chain_eq {level : Nat} (hlevel : level ≤ 4) {t : Arena Entry} {parent : NodeId}
    (h : t.Ready parent) {c : Cursor} (hroom : t.HasRoom c) :
    chain level t parent c = (Parser.chain level c).layOut t parent := by
  rw [chain, Parser.chain, unary_eq h hroom]
  cases hread : Parser.unary c with
  | error e => rfl
  | ok result =>
      obtain ⟨⟨left, c'⟩, hless⟩ := result
      exact chainTail_eq hlevel h left (hroom.laid (Parser.unary_sound hread)) hless
termination_by (c.remaining, 3)

theorem chainTail_eq {level : Nat} (hlevel : level ≤ 4) {t : Arena Entry} {parent : NodeId}
    (h : t.Ready parent) (left : Expr) {bound : Nat} {c : Cursor}
    (hroom : (left.laid t parent).HasRoom c) (hbound : c.remaining < bound) :
    chainTail level (left.laid t parent) parent (t.size + left.lead) c hbound =
      (Parser.chainTail level left c hbound).layOut t parent := by
  rw [Parser.chainTail]
  split
  · rename_i hnone
    rw [chainTail]
    simp only [hnone]
    rfl
  · rename_i op hop
    have hkind := Cursor.kind_ne_eof_of_binaryOp? hop
    have hnext := c.remaining_next_lt hkind
    have htight : op.precedence - 1 ≤ 4 := by
      have hle := op.precedence_le
      omega
    obtain ⟨s, s', hadd, hadopt, hready, hlaid⟩ := Expr.exists_addChild_adopt h left c.loc op
    have hput := hroom.put_eq hkind hadd
    have hroom' := (hroom.next hkind hadd).of_size_eq (Arena.size_of_adopt hadopt)
    rw [chainTail]
    simp only [hop, take_eq hkind, c.loc_current, hput, hadopt,
      chain_eq htight hready hroom']
    cases hread : Parser.chain (op.precedence - 1) (c.next hkind) with
    | error e => rfl
    | ok result =>
        obtain ⟨⟨right, c'⟩, hright⟩ := result
        have hless : c'.remaining < c.remaining := Nat.lt_trans hright hnext
        have hroom'' : (right.laid s' (t.size + left.size)).HasRoom c' :=
          hroom'.laid (Parser.chain_sound htight hread).1
        simp only [Parsed.layOut]
        rw [hlaid] at hroom'' ⊢
        exact chainTail_eq hlevel h (.binary c.loc op left right) hroom'' _
termination_by (c.remaining, 0)

theorem unary_eq {t : Arena Entry} {parent : NodeId} (h : t.Ready parent) {c : Cursor}
    (hroom : t.HasRoom c) : unary t parent c = (Parser.unary c).layOut t parent := by
  rw [Parser.unary]
  split
  · rename_i hnone
    rw [unary]
    simp only [hnone]
    exact primary_eq h hroom
  · rename_i op hop
    have hkind := Cursor.kind_ne_eof_of_unaryOp? hop
    have hnext := c.remaining_next_lt hkind
    obtain ⟨s, hadd, hready⟩ := Expr.exists_addChild h ⟨.unary op, c.loc⟩
    rw [unary]
    simp only [hop, take_eq hkind, c.loc_current,
      hroom.put_eq hkind hadd, unary_eq hready (hroom.next hkind hadd)]
    cases hread : Parser.unary (c.next hkind) with
    | error e => rfl
    | ok result =>
        obtain ⟨⟨operand, c'⟩, hless⟩ := result
        simp only [Parsed.layOut, Expr.laid_unary h hadd hready]
        rfl
termination_by (c.remaining, 2)

theorem primary_eq {t : Arena Entry} {parent : NodeId} (h : t.Ready parent) {c : Cursor}
    (hroom : t.HasRoom c) : primary t parent c = (Parser.primary c).layOut t parent := by
  rw [Parser.primary]
  split
  · rename_i value hvalue
    have hkind := Cursor.kind_ne_eof_of_literal hvalue
    have hput := hroom.put_eq hkind (h.addChild_eq ⟨.literal value, c.loc⟩)
    rw [primary]
    simp only [hvalue, take_eq hkind, c.loc_current, hput]
    rfl
  · rename_i hnone
    rw [primary]
    simp only [hnone]
    split
    · rename_i hopen
      exact group_eq h hroom hopen
    · rfl
termination_by (c.remaining, 1)

theorem group_eq {t : Arena Entry} {parent : NodeId} (h : t.Ready parent) {c : Cursor}
    (hroom : t.HasRoom c) (hopen : c.kind = .symbol .leftParen) :
    group t parent c = (Parser.group c hopen).layOut t parent := by
  have hkind := Cursor.kind_ne_eof_of_symbol hopen
  have hnext := c.remaining_next_lt hkind
  obtain ⟨s, hadd, hready⟩ := Expr.exists_addChild h ⟨.paren, c.loc⟩
  rw [group, Parser.group]
  simp only [take_eq hkind, c.loc_current, hroom.put_eq hkind hadd,
    chain_eq (Nat.le_refl loosest) hready (hroom.next hkind hadd)]
  cases hread : Parser.chain loosest (c.next hkind) with
  | error e => rfl
  | ok result =>
      obtain ⟨⟨inner, c'⟩, hless⟩ := result
      simp only [Parsed.layOut, Expr.laid_group h hadd hready]
      split
      · rename_i hclose
        rw [take_eq (Cursor.kind_ne_eof_of_symbol hclose)]
        rfl
      · rfl
termination_by (c.remaining, 0)

end

end Builder

/-- Reading and laying out in one go is never refused on the way to what reading first and
laying out afterwards gives, if there are no more tokens than indices. -/
theorem build_eq_of_parse {t : Tokenization} (h : t.tokens.size ≤ Location.fieldLimit)
    {result : Except ParseError Ast} (hparse : t.parse = .ok result) : t.build = .ok result := by
  unfold Tokenization.parse at hparse
  split at hparse
  · cases hparse
  · rename_i c hcursor
    obtain ⟨top, htop, hready, hsize⟩ : ∃ top,
        Arena.empty.addRoot (⟨.root, c.loc⟩ : Entry) = (0, top) ∧ top.Ready 0 ∧ top.size = 1 :=
      ⟨_, rfl, Arena.ready_top _, rfl⟩
    have hroom : top.HasRoom c := by
      have hlength := congrArg List.length (Cursor.tokens_of_ofTokens hcursor)
      simp only [Cursor.tokens, List.length_cons, Array.length_toList] at hlength
      rw [Arena.HasRoom, hsize, Cursor.remaining]
      omega
    unfold Tokenization.build
    simp only [hcursor, htop, Builder.chain_eq (Nat.le_refl loosest) hready hroom]
    simp only [Parser.expression, Ast.ofExpr, htop] at hparse
    cases hread : Parser.chain loosest c with
    | error e =>
        rw [hread] at hparse
        obtain rfl := Except.ok.inj hparse
        rfl
    | ok read =>
        obtain ⟨⟨e, c'⟩, hless⟩ := read
        simp only [hread] at hparse
        simp only [Parsed.layOut]
        split
        · rename_i hend
          simp only [hend, if_true, e.layOut_eq_laid hready] at hparse
          cases hast : Ast.ofArena (e.laid top 0) 0 (top.size + e.lead) with
          | error f =>
              rw [hast] at hparse
              cases hparse
          | ok a =>
              rw [hast] at hparse
              obtain rfl := Except.ok.inj hparse
              rfl
        · rename_i hend
          simp only [hend] at hparse
          obtain rfl := Except.ok.inj hparse
          rfl

end LoxReader
