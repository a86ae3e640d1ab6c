/-
  `Proofs.Expr.Completeness`: what is derived as an expression is read as that expression.

  A chain of a level is read as a chain of any tighter level that goes on with the looser
  operators (`Parser.chain_eq`).  So the reader can be followed along a derivation, in
  which every rule is one level looser than its operands.
-/
import LoxReader.Proofs.Expr.Soundness

set_option autoImplicit false

namespace LoxReader

/-! ## Chains that go on -/

namespace Parser

/-- What is left of a chain, after an attempt to read its left operand. -/
def goOn (level : Nat) {bound : Nat} : Parsed bound → Parsed bound
  | .error e => .error e
  | .ok ⟨(left, c), h⟩ => chainTail level left c h

theorem chain_eq_goOn (level : Nat) (c : Cursor) : chain level c = goOn level (unary c) := by
  rw [chain]
  cases unary c with
  | error e => rfl
  | ok result => rfl

/-- Without an operator at the cursor, a chain ends. -/
theorem chainTail_of_none {level : Nat} {left : Expr} {bound : Nat} {c : Cursor}
    {h : c.remaining < bound} (hnone : c.binaryOp? level = none) :
    chainTail level left c h = .ok ⟨(left, c), h⟩ := by
  rw [chainTail]
  split
  · rfl
  · rename_i op hop
    simp [hnone] at hop

/-- With an operator at the cursor and an operand behind it, a chain goes on behind the
two. -/
theorem chainTail_of_some {level : Nat} (left : Expr) {right : Expr} {bound : Nat}
    {c c' : Cursor} (h : c.remaining < bound) {op : BinaryOp}
    (hop : c.binaryOp? level = some op)
    {h' : c'.remaining < (c.next (Cursor.kind_ne_eof_of_binaryOp? hop)).remaining}
    (hright : chain (op.precedence - 1) (c.next (Cursor.kind_ne_eof_of_binaryOp? hop)) =
      .ok ⟨(right, c'), h'⟩) :
    ∃ hless : c'.remaining < bound,
      chainTail level left c h = chainTail level (.binary c.loc op left right) c' hless := by
  have hnext := c.remaining_next_lt (Cursor.kind_ne_eof_of_binaryOp? hop)
  refine ⟨Nat.lt_trans (Nat.lt_trans h' hnext) h, ?_⟩
  rw [chainTail]
  split
  · rename_i hnone
    simp [hop] at hnone
  · rename_i op' hop'
    obtain rfl : op = op' := Option.some.inj (hop.symm.trans hop')
    simp only [hright]

/-- The rest of a chain is the rest of a tighter one, and what goes on behind it. -/
theorem chainTail_eq {tight loose : Nat} (hle : tight ≤ loose) {left : Expr} {bound : Nat}
    {c : Cursor} (h : c.remaining < bound) :
    chainTail loose left c h = goOn loose (chainTail tight left c h) := by
  rw [chainTail.eq_def tight]
  split
  · rfl
  · rename_i op hop
    have hnext := c.remaining_next_lt (Cursor.kind_ne_eof_of_binaryOp? hop)
    have hloose := Cursor.binaryOp?_mono hle hop
    simp only
    split
    · rename_i err herror
      rw [chainTail]
      split
      · rename_i hnone
        simp [hloose] at hnone
      · rename_i op' hop'
        obtain rfl : op = op' := Option.some.inj (hloose.symm.trans hop')
        simp only [herror, goOn]
    · rename_i right c₁ hright' hright
      have hless : c₁.remaining < c.remaining := Nat.lt_trans hright' hnext
      obtain ⟨hbound, hchain⟩ := chainTail_of_some left h hloose hright
      rw [hchain]
      exact chainTail_eq hle hbound
termination_by c.remaining

/-- A chain is a tighter one, and what goes on behind it. -/
theorem chain_eq {tight loose : Nat} (hle : tight ≤ loose) (c : Cursor) :
    chain loose c = goOn loose (chain tight c) := by
  rw [chain_eq_goOn, chain_eq_goOn]
  cases unary c with
  | error e => rfl
  | ok result =>
      obtain ⟨⟨left, c'⟩, h⟩ := result
      exact chainTail_eq hle h

/-- No operator between operands is tight enough for the tightest level. -/
theorem binaryOp?_zero (c : Cursor) : c.binaryOp? 0 = none := by
  cases h : c.binaryOp? 0 with
  | none => rfl
  | some op =>
      have hle := (Cursor.binaryOp?_eq_some_iff.mp h).2
      have hpos := op.precedence_pos
      omega

theorem chain_zero (c : Cursor) : chain 0 c = unary c := by
  rw [chain_eq_goOn]
  cases unary c with
  | error e => rfl
  | ok result =>
      obtain ⟨⟨left, c'⟩, h⟩ := result
      exact chainTail_of_none (binaryOp?_zero c')

end Parser

/-! ## Rules at a cursor -/

namespace Parser

theorem unary_of_some {c c' : Cursor} {op : UnaryOp} (hop : c.unaryOp? = some op)
    {operand : Expr} {h : c'.remaining < (c.next (Cursor.kind_ne_eof_of_unaryOp? hop)).remaining}
    (hoperand : unary (c.next (Cursor.kind_ne_eof_of_unaryOp? hop)) = .ok ⟨(operand, c'), h⟩) :
    ∃ h', unary c = .ok ⟨(.unary c.loc op operand, c'), h'⟩ := by
  refine ⟨Nat.lt_trans h (c.remaining_next_lt _), ?_⟩
  rw [unary]
  split
  · rename_i hnone
    simp [hop] at hnone
  · rename_i op' hop'
    obtain rfl : op = op' := Option.some.inj (hop.symm.trans hop')
    simp only [hoperand]

/-- What is read without operators before it does not start with one. -/
theorem unary_of_primary {c : Cursor} {result : { result : Expr × Cursor //
    result.2.remaining < c.remaining }} (h : primary c = .ok result) : unary c = .ok result := by
  rw [unary]
  split
  · exact h
  · rename_i op hop
    have hkind := Cursor.unaryOp?_eq_some_iff.mp hop
    have hliteral : Literal.ofToken? c.kind = none := by
      rw [hkind]
      rfl
    have hopen : ¬c.kind = .symbol .leftParen := by
      rw [hkind]
      cases op <;> simp [UnaryOp.symbol]
    rw [primary] at h
    split at h
    · rename_i value hvalue
      simp [hliteral] at hvalue
    · rw [dif_neg hopen] at h
      cases h

theorem primary_of_literal {c : Cursor} {value : Literal}
    (h : Literal.ofToken? c.kind = some value) :
    ∃ h', primary c =
      .ok ⟨(.literal c.loc value, c.next (Cursor.kind_ne_eof_of_literal h)), h'⟩ := by
  refine ⟨c.remaining_next_lt _, ?_⟩
  rw [primary]
  split
  · rename_i value' hvalue'
    obtain rfl : value = value' := Option.some.inj (h.symm.trans hvalue')
    rfl
  · rename_i hnone
    simp [h] at hnone

theorem primary_of_group {c c' : Cursor} (hopen : c.kind = .symbol .leftParen) {inner : Expr}
    {h : c'.remaining < (c.next (Cursor.kind_ne_eof_of_symbol hopen)).remaining}
    (hinner : chain loosest (c.next (Cursor.kind_ne_eof_of_symbol hopen)) =
      .ok ⟨(inner, c'), h⟩)
    (hclose : c'.kind = .symbol .rightParen) :
    ∃ h', primary c =
      .ok ⟨(.group c.loc inner, c'.next (Cursor.kind_ne_eof_of_symbol hclose)), h'⟩ := by
  refine ⟨Nat.lt_trans (c'.remaining_next_lt _) (Nat.lt_trans h (c.remaining_next_lt _)), ?_⟩
  rw [primary]
  split
  · rename_i value hvalue
    simp [hopen, Literal.ofToken?] at hvalue
  · rw [dif_pos hopen, group]
    simp only [hinner, dif_pos hclose]

end Parser

/-- How loosely the operators bind that a rule takes outside of parentheses. -/
def Rule.level : Rule → Nat
  | .expression => 4
  | .equality => 4
  | .comparison => 3
  | .term => 2
  | .factor => 1
  | .unary => 0
  | .primary => 0

/-- What is read where a rule is expected. -/
def Rule.read : Rule → (c : Cursor) → Parsed c.remaining
  | .primary, c => Parser.primary c
  | rule, c => Parser.chain rule.level c

theorem Rule.level_ofLevel {level : Nat} (h : level ≤ 4) : (Rule.ofLevel level).level = level := by
  have hlevel : level = 0 ∨ level = 1 ∨ level = 2 ∨ level = 3 ∨ level = 4 := by omega
  rcases hlevel with rfl | rfl | rfl | rfl | rfl <;> rfl

theorem Rule.read_ofLevel {level : Nat} (h : level ≤ 4) (c : Cursor) :
    (Rule.ofLevel level).read c = Parser.chain level c := by
  have hlevel : level = 0 ∨ level = 1 ∨ level = 2 ∨ level = 3 ∨ level = 4 := by omega
  rcases hlevel with rfl | rfl | rfl | rfl | rfl <;> rfl

/-- The rule takes the tokens between two cursors, as this expression. -/
def Rule.Accepts (rule : Rule) (c : Cursor) (e : Expr) (c' : Cursor) : Prop :=
  ∃ h, rule.read c = .ok ⟨(e, c'), h⟩

/-! ## Reading along a derivation -/

/-- No operator is of two precedences. -/
theorem Cursor.binaryOp?_eq_none_of_lt {c : Cursor} {level : Nat} {op : BinaryOp}
    (hop : c.kind = .symbol op.symbol) (hlt : level < op.precedence) :
    c.binaryOp? level = none := by
  cases h : c.binaryOp? level with
  | none => rfl
  | some op' =>
      obtain ⟨hop', hle⟩ := binaryOp?_eq_some_iff.mp h
      have hsymbol : op.symbol = op'.symbol := TokenKind.symbol.inj (hop.symm.trans hop')
      have heq := (BinaryOp.ofSymbol?_eq_some_iff.mpr hsymbol).symm.trans
        (BinaryOp.ofSymbol?_eq_some_iff.mpr rfl)
      obtain rfl : op = op' := Option.some.inj heq
      omega

/-- A symbol of no operator is none. -/
theorem Cursor.binaryOp?_eq_none_of_symbol {c : Cursor} {level : Nat} {s : Symbol}
    (hkind : c.kind = .symbol s) (hs : BinaryOp.ofSymbol? s = none) :
    c.binaryOp? level = none := by
  simp [binaryOp?, hkind, hs]

mutual

/-- Derived tokens are read as their expression, if no operator behind them could go on
with it. -/
theorem Derives.accepts : ∀ {rule : Rule} {ts : List Token} {e : Expr}, Derives rule ts e →
    ∀ {c c' : Cursor}, c.Takes ts c' → c'.binaryOp? rule.level = none → rule.Accepts c e c'
  | _, _, _, .expression h, _, _, htakes, hnone => h.accepts htakes hnone
  | _, _, _, .chain hrule hfirst hrest, c, c', htakes, hnone => by
      have hfirst' := @Derives.accepts _ _ _ hfirst
      have hrest' := @Repeats.accepts _ _ _ _ hrest
      obtain ⟨level, hlevel, rfl, rfl, hops⟩ := Rule.exists_level hrule
      rw [Rule.level_ofLevel (by omega)] at hfirst' hnone
      obtain ⟨c₁, htakes₁, htakes₂⟩ := htakes.split
      obtain ⟨hnone₁, hrounds⟩ := hrest' hlevel rfl hops htakes₂ hnone
      obtain ⟨hless, hread⟩ := hfirst' htakes₁ hnone₁
      rw [Rule.read_ofLevel (by omega)] at hread
      unfold Rule.Accepts
      rw [Rule.read_ofLevel (by omega), Parser.chain_eq (Nat.le_succ level), hread]
      exact hrounds _ hless
  | _, _, _, .operator hop h, c, c', htakes, hnone => by
      obtain rfl := htakes.current_eq
      have hunary := Cursor.unaryOp?_eq_some_iff.mpr hop
      have hread := h.accepts (htakes.of_cons (Cursor.kind_ne_eof_of_unaryOp? hunary)) hnone
      simp only [Rule.Accepts, Rule.read, Rule.level, Parser.chain_zero] at hread ⊢
      exact Parser.unary_of_some hunary hread.2
  | _, _, _, .operand h, c, c', htakes, hnone => by
      obtain ⟨hless, hread⟩ := h.accepts htakes hnone
      refine ⟨hless, ?_⟩
      simp only [Rule.read, Rule.level, Parser.chain_zero] at hread ⊢
      exact Parser.unary_of_primary hread
  | _, _, _, .literal h, c, c', htakes, _ => by
      obtain rfl := htakes.current_eq
      have hvalue := Literal.ofToken?_eq_some_iff.mpr h
      obtain rfl := (htakes.of_cons (Cursor.kind_ne_eof_of_literal hvalue)).eq_of_nil
      exact Parser.primary_of_literal hvalue
  | _, _, _, .group hopen h hclose, c, c', htakes, _ => by
      obtain rfl := htakes.current_eq
      obtain ⟨c₁, htakes₁, htakes₂⟩ :=
        (htakes.of_cons (Cursor.kind_ne_eof_of_symbol hopen)).split
      obtain rfl := htakes₂.current_eq
      obtain rfl := (htakes₂.of_cons (Cursor.kind_ne_eof_of_symbol hclose)).eq_of_nil
      obtain ⟨hless, hread⟩ := h.accepts htakes₁ (Cursor.binaryOp?_eq_none_of_symbol hclose rfl)
      exact Parser.primary_of_group hopen hread hclose

/-- Rounds that are derived are read, one by one, as rounds of the chain. -/
theorem Repeats.accepts : ∀ {ops : List BinaryOp} {operand : Rule} {rest : List Token}
    {rounds : List Round}, Repeats ops operand rest rounds → ∀ {level : Nat}, level < 4 →
      operand = Rule.ofLevel level → (∀ op ∈ ops, op.precedence = level + 1) →
        ∀ {c c' : Cursor}, c.Takes rest c' → c'.binaryOp? (level + 1) = none →
          c.binaryOp? level = none ∧
            ∀ (left : Expr) {bound : Nat} (hc : c.remaining < bound), ∃ h,
              Parser.chainTail (level + 1) left c hc = .ok ⟨(foldRounds left rounds, c'), h⟩
  | _, _, _, _, .done, level, hlevel, hoperand, hops, c, c', htakes, hnone => by
      obtain rfl := htakes.eq_of_nil
      refine ⟨Cursor.binaryOp?_eq_none_of_le (Nat.le_succ level) hnone, ?_⟩
      intro left bound hc
      exact ⟨hc, Parser.chainTail_of_none hnone⟩
  | _, _, _, _, @Repeats.round _ _ _ op _ _ _ _ hop htoken hright hrest, level, hlevel,
      hoperand, hops, c, c', htakes, hnone => by
      have hright' := @Derives.accepts _ _ _ hright
      have hrest' := @Repeats.accepts _ _ _ _ hrest
      subst hoperand
      rw [Rule.level_ofLevel (by omega)] at hright'
      obtain rfl := htakes.current_eq
      have hprecedence := hops _ hop
      refine ⟨Cursor.binaryOp?_eq_none_of_lt htoken (by omega), ?_⟩
      intro left bound hc
      have hsome := Cursor.binaryOp?_eq_some_iff.mpr ⟨htoken, Nat.le_of_eq hprecedence⟩
      obtain ⟨c₁, htakes₁, htakes₂⟩ :=
        (htakes.of_cons (Cursor.kind_ne_eof_of_binaryOp? hsome)).split
      obtain ⟨hnone₁, hrounds⟩ := hrest' hlevel rfl hops htakes₂ hnone
      obtain ⟨hless, hread⟩ := hright' htakes₁ hnone₁
      rw [Rule.read_ofLevel (by omega)] at hread
      have htight : Parser.chain (op.precedence - 1)
          (c.next (Cursor.kind_ne_eof_of_binaryOp? hsome)) = .ok ⟨(_, c₁), hless⟩ := by
        rw [hprecedence]
        exact hread
      obtain ⟨hless', hchain⟩ := Parser.chainTail_of_some left hc hsome htight
      rw [hchain]
      exact hrounds _ hless'

end

/-! ## Whole expressions -/

section Expression

variable {c : Cursor} {ts : List Token} {eof : Token}

/-- All tokens up to the end are read as an expression if they are derived as it, and
only then. -/
theorem Parser.expression_eq_ok_iff (htokens : c.tokens = ts ++ [eof]) (heof : eof.kind = .eof)
    (hts : ∀ token ∈ ts, token.kind ≠ .eof) {e : Expr} :
    expression c = .ok e ↔ Derives .expression ts e := by
  constructor
  · intro h
    unfold expression at h
    split at h
    · cases h
    · rename_i e' c' hless hread
      split at h
      · rename_i hend
        cases h
        obtain ⟨ts', htakes, hderives⟩ := (chain_sound (Nat.le_refl 4) hread).1.expression
        rwa [htakes.eq_of_eof htokens hts (Cursor.atEnd_iff.mp hend)] at hderives
      · cases h
  · intro h
    obtain ⟨c', htakes, hc'⟩ := Cursor.Takes.exists_of_tokens_eq htokens
    have hkind : c'.kind = .eof := by
      rw [Cursor.kind, (List.cons.inj hc').1, heof]
    have hnone : c'.binaryOp? 4 = none := by
      simp [Cursor.binaryOp?, hkind]
    obtain ⟨hless, hread⟩ := h.accepts htakes hnone
    have hchain : chain loosest c = .ok ⟨(e, c'), hless⟩ := hread
    unfold expression
    rw [hchain]
    simp only [Cursor.atEnd_iff.mpr hkind, if_true]

end Expression

/-- Tokens have one expression at most. -/
theorem Derives.unique {ts : List Token} {e e' : Expr} (hts : ∀ token ∈ ts, token.kind ≠ .eof)
    (h : Derives .expression ts e) (h' : Derives .expression ts e') : e = e' := by
  let eof : Token := ⟨.eof, .start⟩
  have heof : eof.kind = .eof := rfl
  obtain ⟨c, -, htokens, -⟩ := Cursor.exists_ofTokens heof ts
  have hread := (Parser.expression_eq_ok_iff htokens heof hts).mpr h
  have hread' := (Parser.expression_eq_ok_iff htokens heof hts).mpr h'
  exact Except.ok.inj (hread.symm.trans hread')

end LoxReader
