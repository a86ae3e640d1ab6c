/-
  `Proofs.Expr.Order`: the nodes that tokens give, in the order of the tokens.

  Every token of an expression but a closing parenthesis gives one node, at its place.
  Which node it gives depends, besides the token, only on whether an operand is due there,
  and that can be told from the token before.
-/
import LoxReader.Ast.Basic
import LoxReader.Proofs.Expr.Grammar

set_option autoImplicit false

namespace LoxReader

/-! ## One token -/

/-- Whether an operand is due behind a token. -/
def TokenKind.leadsOperand : TokenKind → Bool
  | .symbol .leftParen => true
  | .symbol s => (BinaryOp.ofSymbol? s).isSome || (UnaryOp.ofSymbol? s).isSome
  | _ => false

/-- What the node of a token is, if the token gives one; `due` tells whether an operand is
due where it stands. -/
def Form.ofToken? (due : Bool) : TokenKind → Option Form
  | .symbol .leftParen => some .paren
  | .symbol s =>
    if due then (UnaryOp.ofSymbol? s).map .unary else (BinaryOp.ofSymbol? s).map .binary
  | kind => (Literal.ofToken? kind).map .literal

namespace Form

theorem ofToken?_unaryOp (op : UnaryOp) : ofToken? true (.symbol op.symbol) = some (.unary op) := by
  cases op <;> rfl

theorem ofToken?_binaryOp (op : BinaryOp) :
    ofToken? false (.symbol op.symbol) = some (.binary op) := by
  cases op <;> rfl

theorem ofToken?_literal (value : Literal) : ofToken? true value.kind = some (.literal value) := by
  rcases value with id | id | value | _
  · rfl
  · rfl
  · cases value <;> rfl
  · rfl

end Form

theorem TokenKind.leadsOperand_unaryOp (op : UnaryOp) :
    (TokenKind.symbol op.symbol).leadsOperand = true := by
  cases op <;> rfl

theorem TokenKind.leadsOperand_binaryOp (op : BinaryOp) :
    (TokenKind.symbol op.symbol).leadsOperand = true := by
  cases op <;> rfl

theorem TokenKind.leadsOperand_literal (value : Literal) : value.kind.leadsOperand = false := by
  rcases value with id | id | value | _
  · rfl
  · rfl
  · cases value <;> rfl
  · rfl

/-! ## Tokens one behind the other -/

/-- The tokens give these nodes if `due` tells whether an operand is due before them, and
`due'` tells it behind them. -/
inductive Gives : Bool → List Token → List Entry → Bool → Prop
  | nil {due : Bool} : Gives due [] [] due
  | close {due due' : Bool} {token : Token} {ts : List Token} {entries : List Entry} :
      token.kind = .symbol .rightParen → Gives false ts entries due' →
        Gives due (token :: ts) entries due'
  | node {due due' : Bool} {token : Token} {form : Form} {ts : List Token}
      {entries : List Entry} :
      Form.ofToken? due token.kind = some form →
        Gives token.kind.leadsOperand ts entries due' →
          Gives due (token :: ts) (⟨form, token.loc⟩ :: entries) due'

/-- Whether an operand is due behind tokens: at the start, and behind a parenthesis that
opens or an operator. -/
def operandDue (before : List Token) : Bool :=
  before.getLast?.all (·.kind.leadsOperand)

namespace Gives

variable {due due' due'' : Bool} {ts ts' : List Token} {es es' : List Entry}

theorem append (h : Gives due ts es due') (h' : Gives due' ts' es' due'') :
    Gives due (ts ++ ts') (es ++ es') due'' := by
  induction h with
  | nil => exact h'
  | close hclose _ ih => exact .close hclose (ih h')
  | node hform _ ih => exact .node hform (ih h')

/-- Tokens in two parts give nodes in two parts. -/
theorem exists_of_append (h : Gives due (ts ++ ts') es due'') :
    ∃ first second due', es = first ++ second ∧ Gives due ts first due' ∧
      Gives due' ts' second due'' := by
  induction ts generalizing due es with
  | nil => exact ⟨[], es, due, rfl, .nil, h⟩
  | cons token ts ih =>
      cases h with
      | close hclose hrest =>
          obtain ⟨first, second, due', rfl, hfirst, hsecond⟩ := ih hrest
          exact ⟨first, second, due', rfl, .close hclose hfirst, hsecond⟩
      | node hform hrest =>
          obtain ⟨first, second, due', rfl, hfirst, hsecond⟩ := ih hrest
          exact ⟨_ :: first, second, due', rfl, .node hform hfirst, hsecond⟩

/-- There are as many nodes as tokens that close no parenthesis. -/
theorem length_eq (h : Gives due ts es due') :
    es.length = ts.countP fun token => token.kind ≠ .symbol .rightParen := by
  induction h with
  | nil => rfl
  | close hclose _ ih => simp [hclose, ih]
  | @node due due' token form ts es hform _ ih =>
      have hopen : token.kind ≠ .symbol .rightParen := by
        intro hkind
        rw [hkind] at hform
        cases due <;> cases hform
      simp [hopen, ih]

/-- Whether an operand is due behind tokens can be told from the last of them. -/
theorem due_eq (h : Gives due ts es due') :
    due' = (ts.getLast?.map (·.kind.leadsOperand)).getD due := by
  induction h with
  | nil => rfl
  | @close due due' token ts es hclose _ ih =>
      rw [ih, List.getLast?_cons]
      cases ts.getLast? with
      | none => simp [hclose, TokenKind.leadsOperand, BinaryOp.ofSymbol?, UnaryOp.ofSymbol?]
      | some last => rfl
  | @node due due' token form ts es _ _ ih =>
      rw [ih, List.getLast?_cons]
      cases ts.getLast? <;> rfl

/-- The node that a token gives stands behind those of the tokens before it. -/
theorem getElem?_eq (h : Gives true ts es due') {before after : List Token} {token : Token}
    (hts : ts = before ++ token :: after) (hopen : token.kind ≠ .symbol .rightParen) :
    ∃ form, Form.ofToken? (operandDue before) token.kind = some form ∧
      es[before.countP fun token => token.kind ≠ .symbol .rightParen]? =
        some ⟨form, token.loc⟩ := by
  subst hts
  obtain ⟨first, second, mid, rfl, hfirst, hsecond⟩ := h.exists_of_append
  have hmid : mid = operandDue before := by
    rw [hfirst.due_eq, operandDue]
    cases before.getLast? <;> rfl
  cases hsecond with
  | close hclose _ => exact absurd hclose hopen
  | @node _ _ _ form _ entries hform _ =>
      refine ⟨form, hmid ▸ hform, ?_⟩
      rw [← hfirst.length_eq, List.getElem?_append_right (Nat.le_refl _), Nat.sub_self]
      rfl

end Gives

/-! ## Derived tokens -/

/-- The entries of the nodes of an expression, from the left to the right. -/
def Expr.entries : Expr → List Entry
  | .literal loc value => [⟨.literal value, loc⟩]
  | .group loc inner => ⟨.paren, loc⟩ :: inner.entries
  | .unary loc op operand => ⟨.unary op, loc⟩ :: operand.entries
  | .binary loc op left right => left.entries ++ ⟨.binary op, loc⟩ :: right.entries

/-- The entries of the nodes of a round. -/
def Round.entries (round : Round) : List Entry :=
  ⟨.binary round.op, round.loc⟩ :: round.right.entries

theorem entries_foldRounds (first : Expr) (rounds : List Round) :
    (foldRounds first rounds).entries = first.entries ++ rounds.flatMap Round.entries := by
  induction rounds generalizing first with
  | nil => simp [foldRounds]
  | cons round rounds ih =>
      have hfold : foldRounds first (round :: rounds) =
          foldRounds (.binary round.loc round.op first round.right) rounds := rfl
      rw [hfold, ih, List.flatMap_cons, ← List.append_assoc]
      rfl

mutual

/-- Derived tokens give the nodes of their expression, from the left to the right. -/
theorem Derives.gives : ∀ {rule : Rule} {ts : List Token} {e : Expr}, Derives rule ts e →
    Gives true ts e.entries false
  | _, _, _, .expression h => h.gives
  | _, _, _, .chain _ hfirst hrest => by
      rw [entries_foldRounds]
      exact hfirst.gives.append hrest.gives
  | _, _, _, @Derives.operator token op ts e hop h => by
      refine .node (by rw [hop, Form.ofToken?_unaryOp]) ?_
      rw [hop, TokenKind.leadsOperand_unaryOp]
      exact h.gives
  | _, _, _, .operand h => h.gives
  | _, _, _, @Derives.literal token value h => by
      refine .node (by rw [h, Form.ofToken?_literal]) ?_
      rw [h, TokenKind.leadsOperand_literal]
      exact .nil
  | _, _, _, @Derives.group opening closing ts e hopen h hclose => by
      refine .node (by rw [hopen]; rfl) ?_
      have hgives := h.gives.append (.close hclose .nil)
      rw [List.append_nil] at hgives
      rw [hopen]
      exact hgives

/-- Derived rounds give their nodes, from the left to the right. -/
theorem Repeats.gives : ∀ {ops : List BinaryOp} {operand : Rule} {ts : List Token}
    {rounds : List Round}, Repeats ops operand ts rounds →
      Gives false ts (rounds.flatMap Round.entries) false
  | _, _, _, _, .done => .nil
  | _, _, _, _, @Repeats.round ops operand token op ts rest right rounds _ htoken hright hrest => by
      refine .node (by rw [htoken, Form.ofToken?_binaryOp]) ?_
      rw [htoken, TokenKind.leadsOperand_binaryOp]
      exact hright.gives.append hrest.gives

end

/-- An expression has one node for each of its tokens that closes no parenthesis. -/
theorem Expr.length_entries (e : Expr) : e.entries.length = e.size := by
  induction e with
  | literal loc value => rfl
  | group loc inner ih => simp [entries, size, ih]
  | unary loc op operand ih => simp [entries, size, ih]
  | binary loc op left right ihl ihr => simp [entries, size, ihl, ihr, Nat.add_assoc]

/-- An expression has no more nodes than tokens. -/
theorem Derives.size_le {rule : Rule} {ts : List Token} {e : Expr} (h : Derives rule ts e) :
    e.size ≤ ts.length := by
  rw [← e.length_entries, h.gives.length_eq]
  exact List.countP_le_length

end LoxReader
