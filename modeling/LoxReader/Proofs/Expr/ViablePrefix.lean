/-
  `Proofs.Expr.ViablePrefix`: an error is at the first token that cannot stand there.

  The tokens before the one that an error names are those with which an expression can
  start, as many of them as possible, and the kind of the error tells what could have
  come instead.  Both follow from the stance behind these tokens: every stance can be
  completed to an expression, and the one of an error has no next one.
-/
import LoxReader.Analysis
import LoxReader.Proofs.Expr.Stance

set_option autoImplicit false

namespace LoxReader

/-! ## Completing tokens to an expression -/

namespace Stance

/-- Tokens that close the open parentheses. -/
def closings (openings : List Location) : List Token :=
  openings.map fun opening => ⟨.symbol .rightParen, opening⟩

/-- Tokens that lead to the end of an expression. -/
def completion : Stance → List Token
  | .operand openings => ⟨.keyword .nil, .start⟩ :: closings openings
  | .operator openings => closings openings

theorem run_closings (openings : List Location) :
    (operator openings).run (closings openings) = some (.operator []) := by
  induction openings with
  | nil => rfl
  | cons opening outer ih =>
      rw [closings, List.map_cons, run_cons_of_step (step_rightParen rfl)]
      exact ih

/-- From every stance an expression can be completed. -/
theorem run_completion (s : Stance) : s.run s.completion = some (.operator []) := by
  cases s with
  | operand openings =>
      have hnil : (⟨.keyword .nil, .start⟩ : Token).kind = Literal.kind .nil := rfl
      rw [completion, run_cons_of_step (step_literal hnil)]
      exact run_closings openings
  | operator openings => exact run_closings openings

end Stance

/-- An error is inside of the tokens or at their end, behind tokens that lead to a stance
without a next one. -/
theorem Cursor.Stuck.exists_take {c : Cursor} {ts : List Token} {eof : Token} {s : Stance}
    {err : ParseError} (htokens : c.tokens = ts ++ [eof]) (hposition : c.position = 0)
    (h : c.Stuck s err) :
    err.position ≤ ts.length ∧ ∃ token s', (ts ++ [eof])[err.position]? = some token ∧
      s.run (ts.take err.position) = some s' ∧ s'.step token = none ∧
        (token.kind = .eof → s' ≠ .operator []) ∧
          err = ⟨s'.need, err.position, token.tag, token.loc⟩ := by
  obtain ⟨ts', c', s', htakes, hrun, hstep, hend, herr⟩ := h
  have hlength : err.position = ts'.length := by
    rw [herr, Cursor.error, htakes.position_eq, hposition, Nat.zero_add]
  have heq : ts ++ [eof] = ts' ++ c'.current :: c'.upcoming :=
    htokens.symm.trans htakes.tokens_eq
  have hle : ts'.length ≤ ts.length := by
    have hlengths := congrArg List.length heq
    simp only [List.length_append, List.length_cons, List.length_nil] at hlengths
    omega
  have htake : ts.take err.position = ts' := by
    have htakes' := congrArg (List.take ts'.length) heq
    rwa [List.take_append_of_le_length hle, List.take_left, ← hlength] at htakes'
  refine ⟨hlength ▸ hle, c'.current, s', ?_, ?_, hstep, hend, ?_⟩
  · rw [heq, hlength]
    simp
  · rw [htake, hrun]
  · rw [herr]
    rfl

/-- Tokens are a whole expression if they lead from before an operand to behind one,
outside of all parentheses. -/
theorem sentence_iff_run {ts : List Token} :
    Sentence ts ↔ (Stance.operand []).run ts = some (.operator []) := by
  constructor
  · rintro ⟨e, h⟩
    exact h.run []
  · intro hrun
    have hts := Stance.kind_ne_eof_of_run hrun
    let eof : Token := ⟨.eof, .start⟩
    have heof : eof.kind = .eof := rfl
    obtain ⟨c, -, htokens, hposition⟩ := Cursor.exists_ofTokens heof ts
    cases hread : Parser.expression c with
    | ok e => exact ⟨e, (Parser.expression_eq_ok_iff htokens heof hts).mp hread⟩
    | error err =>
        obtain ⟨hle, token, s, htoken, hrun', hstep, hend, -⟩ :=
          (Parser.expression_stuck hread).exists_take htokens hposition
        rcases Nat.lt_or_eq_of_le hle with hlt | heq
        · have hdrop := Stance.run_append_of_run hrun' (ts.drop err.position)
          rw [List.getElem?_append_left hlt] at htoken
          rw [List.take_append_drop, hrun, List.drop_eq_getElem?_toList_append, htoken] at hdrop
          simp [Stance.run, hstep] at hdrop
        · rw [heq, List.take_length, hrun] at hrun'
          rw [heq, List.getElem?_concat_length] at htoken
          obtain rfl := Option.some.inj htoken
          exact absurd (Option.some.inj hrun').symm (hend heof)

/-- An expression can start with tokens that lead to any stance. -/
theorem viable_iff_run {ts : List Token} :
    Viable ts ↔ ∃ s, (Stance.operand []).run ts = some s := by
  constructor
  · rintro ⟨more, hsentence⟩
    have hrun := sentence_iff_run.mp hsentence
    rw [Stance.run_append] at hrun
    obtain ⟨s, hs, -⟩ := Option.bind_eq_some_iff.mp hrun
    exact ⟨s, hs⟩
  · rintro ⟨s, hs⟩
    refine ⟨s.completion, sentence_iff_run.mpr ?_⟩
    rw [Stance.run_append_of_run hs]
    exact s.run_completion

/-! ## What is missing -/

/-- Whether an operand has to come behind the token: behind an opening parenthesis and
behind an operator. -/
def Token.CallsForOperand (token : Token) : Prop :=
  token.kind = .symbol .leftParen ∨ (∃ op : BinaryOp, token.kind = .symbol op.symbol) ∨
    ∃ op : UnaryOp, token.kind = .symbol op.symbol

/-- Whether an operand has to come behind the tokens: at the start, and behind a token
that calls for one. -/
def OperandDue (ts : List Token) : Prop :=
  ∀ token, ts.getLast? = some token → token.CallsForOperand

/-- The open parentheses behind a token. -/
def openingsAfter (openings : List Location) (token : Token) : List Location :=
  match token.kind with
  | .symbol .leftParen => token.loc :: openings
  | .symbol .rightParen => openings.tail
  | _ => openings

/-- The places of the opening parentheses that have no closing one, the innermost
first. -/
def unmatched (ts : List Token) : List Location :=
  ts.foldl openingsAfter []

theorem openingsAfter_unaryOp {token : Token} {op : UnaryOp} (h : token.kind = .symbol op.symbol)
    (openings : List Location) : openingsAfter openings token = openings := by
  cases op <;> simp [openingsAfter, h, UnaryOp.symbol]

theorem openingsAfter_binaryOp {token : Token} {op : BinaryOp}
    (h : token.kind = .symbol op.symbol) (openings : List Location) :
    openingsAfter openings token = openings := by
  cases op <;> simp [openingsAfter, h, BinaryOp.symbol]

theorem openingsAfter_literal {token : Token} {value : Literal} (h : token.kind = value.kind)
    (openings : List Location) : openingsAfter openings token = openings := by
  rcases value with id | id | value | _
  · simp [openingsAfter, h, Literal.kind]
  · simp [openingsAfter, h, Literal.kind]
  · cases value <;> simp [openingsAfter, h, Literal.kind]
  · simp [openingsAfter, h, Literal.kind]

theorem not_callsForOperand_literal {token : Token} {value : Literal}
    (h : token.kind = value.kind) : ¬token.CallsForOperand := by
  rintro (hkind | ⟨op, hkind⟩ | ⟨op, hkind⟩)
  all_goals
    rw [hkind] at h
    rcases value with id | id | value | _
    case bool => cases value <;> cases h
    all_goals cases h

theorem not_callsForOperand_rightParen {token : Token} (h : token.kind = .symbol .rightParen) :
    ¬token.CallsForOperand := by
  rintro (hkind | ⟨op, hkind⟩ | ⟨op, hkind⟩)
  · simp [h] at hkind
  · cases op <;> simp [h, BinaryOp.symbol] at hkind
  · cases op <;> simp [h, UnaryOp.symbol] at hkind

namespace Stance

/-- A step keeps track of the open parentheses. -/
theorem openings_of_step {s s' : Stance} {token : Token} (h : s.step token = some s') :
    s'.openings = openingsAfter s.openings token := by
  cases s with
  | operand openings =>
      rcases step_operand_cases h with ⟨hkind, rfl⟩ | ⟨op, hkind, rfl⟩ | ⟨value, hkind, rfl⟩
      · simp [openingsAfter, hkind, Stance.openings]
      · exact (openingsAfter_unaryOp hkind openings).symm
      · exact (openingsAfter_literal hkind openings).symm
  | operator openings =>
      rcases step_operator_cases h with ⟨opening, outer, hkind, rfl, rfl⟩ | ⟨op, hkind, rfl⟩
      · simp [openingsAfter, hkind, Stance.openings]
      · exact (openingsAfter_binaryOp hkind openings).symm

theorem openings_of_run {s s' : Stance} {ts : List Token} (h : s.run ts = some s') :
    s'.openings = ts.foldl openingsAfter s.openings := by
  induction ts generalizing s with
  | nil =>
      obtain rfl := Option.some.inj h
      rfl
  | cons token rest ih =>
      obtain ⟨s₁, hstep, hrest⟩ := Option.bind_eq_some_iff.mp h
      rw [ih hrest, openings_of_step hstep]
      rfl

/-- A step leads before an operand if its token calls for one. -/
theorem callsForOperand_iff {s s' : Stance} {token : Token} (h : s.step token = some s') :
    token.CallsForOperand ↔ s' = .operand s'.openings := by
  cases s with
  | operand openings =>
      rcases step_operand_cases h with ⟨hkind, rfl⟩ | ⟨op, hkind, rfl⟩ | ⟨value, hkind, rfl⟩
      · exact iff_of_true (.inl hkind) rfl
      · exact iff_of_true (.inr (.inr ⟨op, hkind⟩)) rfl
      · exact iff_of_false (not_callsForOperand_literal hkind) (fun h => by cases h)
  | operator openings =>
      rcases step_operator_cases h with ⟨opening, outer, hkind, rfl, rfl⟩ | ⟨op, hkind, rfl⟩
      · exact iff_of_false (not_callsForOperand_rightParen hkind) (fun h => by cases h)
      · exact iff_of_true (.inr (.inl ⟨op, hkind⟩)) rfl

theorem operandDue_iff {s : Stance} {ts : List Token}
    (h : (operand []).run ts = some s) : OperandDue ts ↔ s = .operand s.openings := by
  rcases List.eq_nil_or_concat ts with rfl | ⟨front, last, rfl⟩
  · obtain rfl := Option.some.inj h
    exact iff_of_true (fun token htoken => by simp at htoken) rfl
  · rw [List.concat_eq_append] at h ⊢
    rw [run_append] at h
    obtain ⟨s₁, -, hlast⟩ := Option.bind_eq_some_iff.mp h
    obtain ⟨s₂, hstep, hs₂⟩ := Option.bind_eq_some_iff.mp hlast
    obtain rfl := Option.some.inj hs₂
    rw [← callsForOperand_iff hstep]
    simp [OperandDue]

end Stance

/-! ## The place and the kind of an error -/

/-- The error is at the first token that no expression has there, where `eof` stands for
the end of an expression, and its kind tells what could have come instead. -/
structure ParseError.IsFirst (err : ParseError) (ts : List Token) (eof : Token) : Prop where
  /-- The error is at one of the tokens or at their end. -/
  position_le : err.position ≤ ts.length
  /-- An expression can start with the tokens before the error, and with no more. -/
  viable_iff : ∀ k ≤ ts.length, Viable (ts.take k) ↔ k ≤ err.position
  /-- Where the error is at the end, the tokens are not a whole expression. -/
  not_sentence : err.position = ts.length → ¬Sentence ts
  /-- The error tells the token that it is at. -/
  token : ∃ token, (ts ++ [eof])[err.position]? = some token ∧ err.found = token.tag ∧
    err.loc = token.loc
  expectedExpression_iff : err.kind = .expectedExpression ↔ OperandDue (ts.take err.position)
  unclosedParen_iff : ∀ opening, err.kind = .unclosedParen opening ↔
    ¬OperandDue (ts.take err.position) ∧
      (unmatched (ts.take err.position)).head? = some opening
  expectedEndOfInput_iff : err.kind = .expectedEndOfInput ↔
    ¬OperandDue (ts.take err.position) ∧ unmatched (ts.take err.position) = []

/-- Where the next token leads to no stance, an expression can start with the tokens before
it, and with no more. -/
theorem viable_take_iff {ts : List Token} {eof token : Token} {s : Stance} {position k : Nat}
    (htoken : (ts ++ [eof])[position]? = some token)
    (hrun : (Stance.operand []).run (ts.take position) = some s) (hstep : s.step token = none)
    (hk : k ≤ ts.length) : Viable (ts.take k) ↔ k ≤ position := by
  constructor
  · intro hviable
    apply Nat.le_of_not_lt
    intro hlt
    have hlt' : position < ts.length := Nat.lt_of_lt_of_le hlt hk
    rw [List.getElem?_append_left hlt'] at htoken
    have hsplit : ts.take (position + 1) = ts.take position ++ [token] := by
      rw [List.take_add_one, htoken]
      rfl
    have hviable' : Viable (ts.take (position + 1)) := by
      rw [← Nat.add_sub_cancel' (Nat.succ_le_of_lt hlt), List.take_add] at hviable
      exact hviable.of_append
    obtain ⟨s', hs'⟩ := viable_iff_run.mp hviable'
    rw [hsplit, Stance.run_append_of_run hrun, Stance.run, hstep] at hs'
    cases hs'
  · intro hk'
    have hviable := viable_iff_run.mpr ⟨s, hrun⟩
    rw [← Nat.add_sub_cancel' hk', List.take_add] at hviable
    exact hviable.of_append

/-- Reading gets stuck at the first token that no expression has there. -/
theorem Cursor.Stuck.isFirst {c : Cursor} {ts : List Token} {eof : Token} {err : ParseError}
    (htokens : c.tokens = ts ++ [eof]) (hposition : c.position = 0) (heof : eof.kind = .eof)
    (h : c.Stuck (.operand []) err) : err.IsFirst ts eof := by
  obtain ⟨hle, token, s, htoken, hrun, hstep, hend, herr⟩ := h.exists_take htokens hposition
  have hdue := Stance.operandDue_iff hrun
  have hopenings : s.openings = unmatched (ts.take err.position) := Stance.openings_of_run hrun
  have hkind : err.kind = s.need := congrArg ParseError.kind herr
  refine ⟨hle, ?_, ?_, ⟨token, htoken, ?_, ?_⟩, ?_, ?_, ?_⟩
  · intro k hk
    exact viable_take_iff htoken hrun hstep hk
  · intro heq hsentence
    have hrun' := sentence_iff_run.mp hsentence
    rw [heq, List.take_length, hrun'] at hrun
    rw [heq, List.getElem?_concat_length] at htoken
    obtain rfl := Option.some.inj htoken
    exact hend heof (Option.some.inj hrun).symm
  · rw [herr]
  · rw [herr]
  · rw [hkind, hdue]
    rcases s with openings | (_ | ⟨opening, outer⟩) <;> simp [Stance.need, Stance.openings]
  · intro opening
    rw [hkind, hdue, ← hopenings]
    rcases s with openings | (_ | ⟨opening', outer⟩) <;> simp [Stance.need, Stance.openings]
  · rw [hkind, hdue, ← hopenings]
    rcases s with openings | (_ | ⟨opening, outer⟩) <;> simp [Stance.need, Stance.openings]

/-- Where tokens cannot be parsed, the error is at the first token that no expression has
there: it tells this token, and by its kind what could have come instead. -/
theorem parse_error_isFirst {t : Tokenization} {ts : List Token} {eof : Token}
    {err : ParseError} (htokens : t.tokens.toList = ts ++ [eof]) (heof : eof.kind = .eof)
    (hparse : t.parse = .ok (.error err)) : err.IsFirst ts eof := by
  obtain ⟨c, hcursor, hc, hposition⟩ := Cursor.exists_ofTokens heof ts
  unfold Tokenization.parse at hparse
  rw [htokens, hcursor] at hparse
  simp only at hparse
  split at hparse
  · rename_i err' hread
    cases hparse
    exact (Parser.expression_stuck hread).isFirst hc hposition heof
  · split at hparse <;> cases hparse

/-- The tokens of `(-nil nil`. -/
def openGroup : Tokenization where
  source := "(-nil nil"
  tokens := #[⟨.symbol .leftParen, ⟨1, 1, 0⟩⟩, ⟨.symbol .minus, ⟨1, 2, 1⟩⟩,
    ⟨.keyword .nil, ⟨1, 3, 2⟩⟩, ⟨.keyword .nil, ⟨1, 7, 6⟩⟩, ⟨.eof, ⟨1, 10, 9⟩⟩]
  tables := .empty
  errors := #[]

/-- Behind `(-nil` only an operator or the closing parenthesis can stand. -/
theorem parse_error_isFirst_openGroup :
    openGroup.parse = .ok (.error ⟨.unclosedParen ⟨1, 1, 0⟩, 3, .keyword .nil, ⟨1, 7, 6⟩⟩) ∧
      ParseError.IsFirst ⟨.unclosedParen ⟨1, 1, 0⟩, 3, .keyword .nil, ⟨1, 7, 6⟩⟩
        (openGroup.tokens.toList.take 4) ⟨.eof, ⟨1, 10, 9⟩⟩ := by
  have hparse : openGroup.parse =
      .ok (.error ⟨.unclosedParen ⟨1, 1, 0⟩, 3, .keyword .nil, ⟨1, 7, 6⟩⟩) := by
    simp [openGroup, Tokenization.parse, Cursor.ofTokens, endsWithEof, Token.isEof,
      Parser.expression, Parser.chain, Parser.chainTail, Parser.unary, Parser.primary,
      Parser.group, loosest, Cursor.unaryOp?, Cursor.binaryOp?, UnaryOp.ofSymbol?,
      Literal.ofToken?, Cursor.next, Cursor.kind, Cursor.error, Cursor.tag, Cursor.loc,
      Token.tag, TokenKind.tag]
  exact ⟨hparse, parse_error_isFirst rfl rfl hparse⟩

end LoxReader
