/-
  `Proofs.Expr.Stance`: reading tokens without building anything.

  What may come next depends on little: whether an operand is needed, and which
  parentheses are open.  A stance is just that.  Tokens of the kinds of an expression
  lead from before an operand to behind it, whatever is open around them, and where
  reading fails the stance has no next one.
-/
import LoxReader.Proofs.Expr.Completeness
import LoxReader.Proofs.Expr.Kinds

set_option autoImplicit false

namespace LoxReader

/-- Before an operand or behind one, with the places of the open parentheses, the
innermost first. -/
inductive Stance where
  | operand (openings : List Location)
  | operator (openings : List Location)
deriving DecidableEq

namespace Stance

/-- The open parentheses, the innermost first. -/
def openings : Stance → List Location
  | .operand openings => openings
  | .operator openings => openings

/-- The stance behind a token that can stand here. -/
def step : Stance → Token → Option Stance
  | .operand openings, token =>
    match token.kind with
    | .symbol .leftParen => some (.operand (token.loc :: openings))
    | .symbol s => (UnaryOp.ofSymbol? s).map fun _ => .operand openings
    | kind => (Literal.ofToken? kind).map fun _ => .operator openings
  | .operator openings, token =>
    match token.kind, openings with
    | .symbol .rightParen, _ :: outer => some (.operator outer)
    | .symbol s, openings => (BinaryOp.ofSymbol? s).map fun _ => .operand openings
    | _, _ => none

/-- The stance behind tokens that can stand here one behind the other. -/
def run (s : Stance) : List Token → Option Stance
  | [] => some s
  | token :: rest => (s.step token).bind fun s' => s'.run rest

/-- What is missing where nothing can stand. -/
def need : Stance → ParseErrorKind
  | .operand _ => .expectedExpression
  | .operator (opening :: _) => .unclosedParen opening
  | .operator [] => .expectedEndOfInput

/-! ## Steps -/

section Step

variable {openings : List Location} {token : Token}

theorem step_leftParen (h : token.kind = .symbol .leftParen) :
    (operand openings).step token = some (.operand (token.loc :: openings)) := by
  simp [step, h]

theorem step_unaryOp {op : UnaryOp} (h : token.kind = .symbol op.symbol) :
    (operand openings).step token = some (.operand openings) := by
  cases op <;> simp [step, h, UnaryOp.symbol, UnaryOp.ofSymbol?]

theorem step_literal {value : Literal} (h : token.kind = value.kind) :
    (operand openings).step token = some (.operator openings) := by
  have hvalue := Literal.ofToken?_eq_some_iff.mpr h
  simp only [step]
  split
  · rename_i hkind
    simp [hkind, Literal.ofToken?] at hvalue
  · rename_i s _ hkind
    simp [hkind, Literal.ofToken?] at hvalue
  · rw [hvalue]
    rfl

theorem step_rightParen {opening : Location} (h : token.kind = .symbol .rightParen) :
    (operator (opening :: openings)).step token = some (.operator openings) := by
  simp [step, h]

theorem step_binaryOp {op : BinaryOp} (h : token.kind = .symbol op.symbol) :
    (operator openings).step token = some (.operand openings) := by
  cases op <;> simp [step, h, BinaryOp.symbol, BinaryOp.ofSymbol?]

/-- Before an operand there is nothing but a parenthesis, an operator and a literal. -/
theorem step_operand_cases {s : Stance} (h : (operand openings).step token = some s) :
    (token.kind = .symbol .leftParen ∧ s = .operand (token.loc :: openings)) ∨
      (∃ op : UnaryOp, token.kind = .symbol op.symbol ∧ s = .operand openings) ∨
        ∃ value : Literal, token.kind = value.kind ∧ s = .operator openings := by
  simp only [step] at h
  split at h
  · rename_i hkind
    exact .inl ⟨hkind, (Option.some.inj h).symm⟩
  · rename_i symbol _ hkind
    obtain ⟨op, hop, rfl⟩ := Option.map_eq_some_iff.mp h
    exact .inr (.inl ⟨op, by rw [hkind, UnaryOp.ofSymbol?_eq_some_iff.mp hop], rfl⟩)
  · obtain ⟨value, hvalue, rfl⟩ := Option.map_eq_some_iff.mp h
    exact .inr (.inr ⟨value, Literal.ofToken?_eq_some_iff.mp hvalue, rfl⟩)

/-- Behind an operand there is nothing but a parenthesis and an operator. -/
theorem step_operator_cases {s : Stance} (h : (operator openings).step token = some s) :
    (∃ opening outer, token.kind = .symbol .rightParen ∧ openings = opening :: outer ∧
        s = .operator outer) ∨
      ∃ op : BinaryOp, token.kind = .symbol op.symbol ∧ s = .operand openings := by
  simp only [step] at h
  split at h
  · rename_i opening outer hkind
    exact .inl ⟨opening, outer, hkind, rfl, (Option.some.inj h).symm⟩
  · rename_i symbol hkind _
    obtain ⟨op, hop, rfl⟩ := Option.map_eq_some_iff.mp h
    exact .inr ⟨op, by rw [hkind, BinaryOp.ofSymbol?_eq_some_iff.mp hop], rfl⟩
  · cases h

theorem step_operand_eq_none (hopen : token.kind ≠ .symbol .leftParen)
    (hop : ∀ op : UnaryOp, token.kind ≠ .symbol op.symbol)
    (hvalue : ∀ value : Literal, token.kind ≠ value.kind) :
    (operand openings).step token = none := by
  cases hstep : (operand openings).step token with
  | none => rfl
  | some s =>
      rcases step_operand_cases hstep with ⟨hkind, -⟩ | ⟨op, hkind, -⟩ | ⟨value, hkind, -⟩
      · exact absurd hkind hopen
      · exact absurd hkind (hop op)
      · exact absurd hkind (hvalue value)

theorem step_operator_eq_none (hclose : token.kind = .symbol .rightParen → openings = [])
    (hop : ∀ op : BinaryOp, token.kind ≠ .symbol op.symbol) :
    (operator openings).step token = none := by
  cases hstep : (operator openings).step token with
  | none => rfl
  | some s =>
      rcases step_operator_cases hstep with ⟨opening, outer, hkind, rfl, -⟩ | ⟨op, hkind, -⟩
      · cases hclose hkind
      · exact absurd hkind (hop op)

/-- The mark of the end can stand nowhere. -/
theorem step_eof (s : Stance) (h : token.kind = .eof) : s.step token = none := by
  cases s <;> simp [step, h, Literal.ofToken?]

end Step

/-! ## Runs -/

theorem run_append (s : Stance) (first second : List Token) :
    s.run (first ++ second) = (s.run first).bind fun s' => s'.run second := by
  induction first generalizing s with
  | nil => rfl
  | cons token rest ih =>
      simp only [List.cons_append, run]
      cases s.step token with
      | none => rfl
      | some s' => exact ih s'

theorem run_cons_of_step {s s' : Stance} {token : Token} (h : s.step token = some s')
    (rest : List Token) : s.run (token :: rest) = s'.run rest := by
  rw [run, h]
  rfl

theorem run_append_of_run {s s' : Stance} {first : List Token} (h : s.run first = some s')
    (second : List Token) : s.run (first ++ second) = s'.run second := by
  rw [run_append, h]
  rfl

/-- No run goes over the mark of the end. -/
theorem kind_ne_eof_of_run {s s' : Stance} {ts : List Token} (h : s.run ts = some s') :
    ∀ token ∈ ts, token.kind ≠ .eof := by
  induction ts generalizing s with
  | nil => simp
  | cons token rest ih =>
      obtain ⟨s₁, hstep, hrest⟩ := Option.bind_eq_some_iff.mp h
      intro token' hmem
      rcases List.mem_cons.mp hmem with rfl | hmem
      · intro heof
        simp [step_eof s heof] at hstep
      · exact ih hrest token' hmem

end Stance

/-! ## The tokens of an expression -/

/-- The tokens of an expression lead from before an operand to behind one, wherever its
operators stand. -/
theorem Expr.run_eq (e : Expr) {ts : List Token} (hkinds : ts.map Token.kind = e.kinds)
    (openings : List Location) :
    (Stance.operand openings).run ts = some (.operator openings) := by
  induction e generalizing ts openings with
  | literal loc lit =>
      obtain ⟨token, rest, rfl, htoken, hrest⟩ := List.map_eq_cons_iff.mp hkinds
      obtain rfl := List.map_eq_nil_iff.mp hrest
      rw [Stance.run_cons_of_step (Stance.step_literal htoken)]
      rfl
  | group loc inner ih =>
      obtain ⟨opening, rest, rfl, hopening, hrest⟩ := List.map_eq_cons_iff.mp hkinds
      obtain ⟨ts, closings, rfl, hts, hclosings⟩ := List.map_eq_append_iff.mp hrest
      obtain ⟨closing, nothing, rfl, hclosing, hnothing⟩ := List.map_eq_cons_iff.mp hclosings
      obtain rfl := List.map_eq_nil_iff.mp hnothing
      rw [Stance.run_cons_of_step (Stance.step_leftParen hopening),
        Stance.run_append_of_run (ih hts _),
        Stance.run_cons_of_step (Stance.step_rightParen hclosing)]
      rfl
  | unary loc op operand ih =>
      obtain ⟨token, ts, rfl, htoken, hts⟩ := List.map_eq_cons_iff.mp hkinds
      rw [Stance.run_cons_of_step (Stance.step_unaryOp htoken), ih hts]
  | binary loc op left right ihl ihr =>
      obtain ⟨first, rest, rfl, hfirst, hrest⟩ := List.map_eq_append_iff.mp hkinds
      obtain ⟨token, second, rfl, htoken, hsecond⟩ := List.map_eq_cons_iff.mp hrest
      rw [Stance.run_append_of_run (ihl hfirst _),
        Stance.run_cons_of_step (Stance.step_binaryOp htoken), ihr hsecond]

theorem Derives.run {rule : Rule} {ts : List Token} {e : Expr} (h : Derives rule ts e)
    (openings : List Location) :
    (Stance.operand openings).run ts = some (.operator openings) :=
  e.run_eq h.map_kind openings

/-! ## Where reading fails -/

/-- From this stance at the cursor, the error is where the first token stands that has no
place: neither is there a stance behind it, nor does it end a whole expression. -/
def Cursor.Stuck (c : Cursor) (s : Stance) (err : ParseError) : Prop :=
  ∃ ts c' s', c.Takes ts c' ∧ s.run ts = some s' ∧ s'.step c'.current = none ∧
    (c'.kind = .eof → s' ≠ .operator []) ∧ err = c'.error s'.need

namespace Cursor.Stuck

variable {c c' : Cursor} {s s' : Stance} {err : ParseError}

/-- The first token can have no place. -/
theorem here (hstep : s.step c.current = none) (hend : c.kind = .eof → s ≠ .operator []) :
    c.Stuck s (c.error s.need) :=
  ⟨[], c, s, .refl c, rfl, hstep, hend, rfl⟩

/-- The first token without a place can come later. -/
theorem later {ts : List Token} (htakes : c.Takes ts c') (hrun : s.run ts = some s')
    (h : c'.Stuck s' err) : c.Stuck s err := by
  obtain ⟨ts', c'', s'', htakes', hrun', hstep, hend, herr⟩ := h
  refine ⟨ts ++ ts', c'', s'', htakes.trans htakes', ?_, hstep, hend, herr⟩
  rw [Stance.run_append_of_run hrun, hrun']

theorem next (hkind : c.kind ≠ .eof) (hstep : s.step c.current = some s')
    (h : (c.next hkind).Stuck s' err) : c.Stuck s err :=
  later (.next hkind) (Stance.run_cons_of_step hstep []) h

/-- The first token without a place can come behind an operand. -/
theorem behind {rule : Rule} {e : Expr} {openings : List Location} (hspans : c.Spans rule e c')
    (h : c'.Stuck (.operator openings) err) : c.Stuck (.operand openings) err := by
  obtain ⟨ts, htakes, hderives⟩ := hspans
  exact later htakes (hderives.run openings) h

end Cursor.Stuck

namespace Parser

open Cursor

mutual

theorem chain_stuck {level : Nat} (hlevel : level ≤ 4) {c : Cursor} {err : ParseError}
    (hread : chain level c = .error err) (openings : List Location) :
    c.Stuck (.operand openings) err := by
  rw [chain] at hread
  split at hread
  · rename_i err' hleft
    cases hread
    exact unary_stuck hleft openings
  · rename_i left c₁ hless hleft
    exact (chainTail_stuck hlevel hread openings).behind (unary_sound hleft)
termination_by (c.remaining, 3)

theorem chainTail_stuck {level : Nat} (hlevel : level ≤ 4) {c : Cursor} {left : Expr}
    {bound : Nat} {hc : c.remaining < bound} {err : ParseError}
    (hread : chainTail level left c hc = .error err) (openings : List Location) :
    c.Stuck (.operator openings) err := by
  rw [chainTail] at hread
  split at hread
  · cases hread
  · rename_i op hop
    have hkind := kind_ne_eof_of_binaryOp? hop
    have hnext := c.remaining_next_lt hkind
    obtain ⟨hsymbol, hprecedence⟩ := binaryOp?_eq_some_iff.mp hop
    have htight : op.precedence - 1 ≤ 4 := by omega
    refine .next hkind (Stance.step_binaryOp hsymbol) ?_
    simp only at hread
    split at hread
    · rename_i err' hright
      cases hread
      exact chain_stuck htight hright openings
    · rename_i right c₁ hright' hright
      have hless : c₁.remaining < c.remaining := Nat.lt_trans hright' hnext
      exact (chainTail_stuck hlevel hread openings).behind (chain_sound htight hright).1
termination_by (c.remaining, 0)

theorem unary_stuck {c : Cursor} {err : ParseError} (hread : unary c = .error err)
    (openings : List Location) : c.Stuck (.operand openings) err := by
  rw [unary] at hread
  split at hread
  · rename_i hnone
    exact primary_stuck hread hnone openings
  · rename_i op hop
    have hkind := kind_ne_eof_of_unaryOp? hop
    have hnext := c.remaining_next_lt hkind
    simp only at hread
    split at hread
    · rename_i err' hoperand
      cases hread
      exact .next hkind (Stance.step_unaryOp (unaryOp?_eq_some_iff.mp hop))
        (unary_stuck hoperand openings)
    · cases hread
termination_by (c.remaining, 2)

theorem primary_stuck {c : Cursor} {err : ParseError} (hread : primary c = .error err)
    (hnone : c.unaryOp? = none) (openings : List Location) :
    c.Stuck (.operand openings) err := by
  rw [primary] at hread
  split at hread
  · cases hread
  · rename_i hliteral
    split at hread
    · exact group_stuck hread openings
    · rename_i hopen
      cases hread
      refine .here (Stance.step_operand_eq_none hopen ?_ ?_) (fun _ h => by cases h)
      · intro op hkind
        have hop : c.unaryOp? = some op := unaryOp?_eq_some_iff.mpr hkind
        simp [hnone] at hop
      · intro value hkind
        have hvalue : Literal.ofToken? c.kind = some value :=
          Literal.ofToken?_eq_some_iff.mpr hkind
        simp [hliteral] at hvalue
termination_by (c.remaining, 1)

theorem group_stuck {c : Cursor} {hopen : c.kind = .symbol .leftParen} {err : ParseError}
    (hread : group c hopen = .error err) (openings : List Location) :
    c.Stuck (.operand openings) err := by
  have hkind := kind_ne_eof_of_symbol hopen
  have hnext := c.remaining_next_lt hkind
  refine .next hkind (Stance.step_leftParen hopen) ?_
  rw [group] at hread
  simp only at hread
  split at hread
  · rename_i err' hinner
    cases hread
    exact chain_stuck (Nat.le_refl 4) hinner _
  · rename_i inner c₁ hless hinner
    obtain ⟨hspans, hnone⟩ := chain_sound (Nat.le_refl 4) hinner
    split at hread
    · cases hread
    · rename_i hclose
      cases hread
      refine .behind hspans (.here (Stance.step_operator_eq_none ?_ ?_) (fun _ h => by cases h))
      · intro hkind
        exact absurd hkind hclose
      · intro op hkind
        have hop := binaryOp?_eq_some_iff.mpr ⟨hkind, op.precedence_le⟩
        simp [hnone] at hop
termination_by (c.remaining, 0)

end

/-- Where no expression can be read, the error is where the first token stands that has
no place in one. -/
theorem expression_stuck {c : Cursor} {err : ParseError} (hread : expression c = .error err) :
    c.Stuck (.operand []) err := by
  unfold expression at hread
  split at hread
  · rename_i err' hchain
    cases hread
    exact chain_stuck (Nat.le_refl 4) hchain []
  · rename_i e c' hless hchain
    obtain ⟨hspans, hnone⟩ := chain_sound (Nat.le_refl 4) hchain
    split at hread
    · cases hread
    · rename_i hend
      cases hread
      refine .behind hspans (.here (Stance.step_operator_eq_none (fun _ => rfl) ?_) ?_)
      · intro op hkind
        have hop := binaryOp?_eq_some_iff.mpr ⟨hkind, op.precedence_le⟩
        simp [hnone] at hop
      · intro hkind
        exact absurd (atEnd_iff.mpr hkind) hend

end Parser

end LoxReader
