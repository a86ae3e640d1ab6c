/-
  `Proofs.Expr.Soundness`: what is read as an expression is derived as that expression.

  The rules of the grammar have a repetition each, and the reader has one loop for all
  of them.  What carries the loop is that the expression read so far belongs to a level
  that every operator at the cursor reaches, so that each operator finds its left operand
  whole.
-/
import LoxReader.Expr.Parser
import LoxReader.Proofs.Cursor
import LoxReader.Proofs.Expr.Grammar

set_option autoImplicit false

namespace LoxReader

/-! ## Operators and literals at a cursor -/

theorem Cursor.binaryOp?_eq_some_iff {c : Cursor} {level : Nat} {op : BinaryOp} :
    c.binaryOp? level = some op ↔ c.kind = .symbol op.symbol ∧ op.precedence ≤ level := by
  unfold binaryOp?
  split
  · rename_i s hkind
    rw [Option.filter_eq_some_iff, BinaryOp.ofSymbol?_eq_some_iff, hkind]
    simp [eq_comm]
  · rename_i hkind
    simp only [reduceCtorEq, false_iff, not_and]
    intro h
    exact absurd h (hkind _)

theorem Cursor.unaryOp?_eq_some_iff {c : Cursor} {op : UnaryOp} :
    c.unaryOp? = some op ↔ c.kind = .symbol op.symbol := by
  unfold unaryOp?
  split
  · rename_i s hkind
    rw [UnaryOp.ofSymbol?_eq_some_iff, hkind]
    simp [eq_comm]
  · rename_i hkind
    simp only [reduceCtorEq, false_iff]
    exact hkind _

/-- An operator between operands that is there at a level is there at every looser one. -/
theorem Cursor.binaryOp?_mono {c : Cursor} {tight loose : Nat} {op : BinaryOp}
    (hle : tight ≤ loose) (h : c.binaryOp? tight = some op) : c.binaryOp? loose = some op := by
  rw [binaryOp?_eq_some_iff] at h ⊢
  exact ⟨h.1, Nat.le_trans h.2 hle⟩

/-- Where there is no operator of a level, there is none of a tighter one. -/
theorem Cursor.binaryOp?_eq_none_of_le {c : Cursor} {tight loose : Nat}
    (hle : tight ≤ loose) (h : c.binaryOp? loose = none) : c.binaryOp? tight = none := by
  cases htight : c.binaryOp? tight with
  | none => rfl
  | some op => exact absurd (binaryOp?_mono hle htight) (by simp [h])

/-- An operator where there is none of a level binds more loosely than that. -/
theorem Cursor.lt_precedence {c : Cursor} {tight loose : Nat} {op : BinaryOp}
    (hnone : c.binaryOp? tight = none) (h : c.binaryOp? loose = some op) :
    tight < op.precedence := by
  apply Nat.lt_of_not_le
  intro hle
  have hsome := binaryOp?_eq_some_iff.mpr ⟨(binaryOp?_eq_some_iff.mp h).1, hle⟩
  simp [hnone] at hsome

theorem Literal.ofToken?_eq_some_iff {kind : TokenKind} {value : Literal} :
    ofToken? kind = some value ↔ kind = value.kind := by
  constructor
  · intro h
    unfold ofToken? at h
    split at h
    all_goals
      first
        | cases h
          rfl
        | cases h
  · rintro rfl
    cases value with
    | bool value => cases value <;> rfl
    | _ => rfl

/-! ## Derivations between cursors -/

namespace Cursor

/-- The tokens between two cursors are derived from the rule. -/
def Spans (c : Cursor) (rule : Rule) (e : Expr) (c' : Cursor) : Prop :=
  ∃ ts, c.Takes ts c' ∧ Derives rule ts e

namespace Spans

variable {c c' c'' : Cursor}

theorem literal {value : Literal} (h : Literal.ofToken? c.kind = some value) :
    c.Spans .primary (.literal c.loc value) (c.next (kind_ne_eof_of_literal h)) :=
  ⟨_, .next _, .literal (Literal.ofToken?_eq_some_iff.mp h)⟩

/-- Parentheses around an expression. -/
theorem group {inner : Expr} (hopen : c.kind = .symbol .leftParen)
    (h : (c.next (kind_ne_eof_of_symbol hopen)).Spans .expression inner c')
    (hclose : c'.kind = .symbol .rightParen) :
    c.Spans .primary (.group c.loc inner) (c'.next (kind_ne_eof_of_symbol hclose)) := by
  obtain ⟨ts, htakes, hderives⟩ := h
  exact ⟨_, .cons _ (htakes.trans (.next _)), .group hopen hderives hclose⟩

/-- An operator before an operand. -/
theorem operator {op : UnaryOp} {operand : Expr} (hop : c.unaryOp? = some op)
    (h : (c.next (kind_ne_eof_of_unaryOp? hop)).Spans .unary operand c') :
    c.Spans .unary (.unary c.loc op operand) c' := by
  obtain ⟨ts, htakes, hderives⟩ := h
  exact ⟨_, .cons _ htakes, .operator (unaryOp?_eq_some_iff.mp hop) hderives⟩

/-- An operand without operators before it. -/
theorem operand {e : Expr} (h : c.Spans .primary e c') : c.Spans .unary e c' := by
  obtain ⟨ts, htakes, hderives⟩ := h
  exact ⟨ts, htakes, .operand hderives⟩

/-- A chain of the loosest operators is a whole expression. -/
theorem expression {e : Expr} (h : c.Spans (Rule.ofLevel loosest) e c') :
    c.Spans .expression e c' := by
  obtain ⟨ts, htakes, hderives⟩ := h
  exact ⟨ts, htakes, .expression hderives⟩

theorem lift {tight loose : Nat} {e : Expr} (hle : tight ≤ loose) (hloose : loose ≤ 4)
    (h : c.Spans (Rule.ofLevel tight) e c') : c.Spans (Rule.ofLevel loose) e c' := by
  obtain ⟨ts, htakes, hderives⟩ := h
  exact ⟨ts, htakes, hderives.lift hle hloose⟩

/-- An operator between two operands, of which the left one reaches it and the right
one does not. -/
theorem snoc {level : Nat} {op : BinaryOp} {left right : Expr}
    (hleft : c.Spans (Rule.ofLevel op.precedence) left c')
    (hop : c'.binaryOp? level = some op)
    (hright : (c'.next (kind_ne_eof_of_binaryOp? hop)).Spans
      (Rule.ofLevel (op.precedence - 1)) right c'') :
    c.Spans (Rule.ofLevel op.precedence) (.binary c'.loc op left right) c'' := by
  obtain ⟨ts, htakes, hderives⟩ := hleft
  obtain ⟨rest, htakes', hderives'⟩ := hright
  exact ⟨_, htakes.trans (.cons _ htakes'),
    hderives.snoc (binaryOp?_eq_some_iff.mp hop).1 hderives'⟩

end Spans

end Cursor

/-! ## Reading -/

namespace Parser

mutual

/-- What a chain takes is derived at its level, and no operator of the level is left
behind it. -/
theorem chain_sound {level : Nat} (hlevel : level ≤ 4) {c : Cursor} {e : Expr} {c' : Cursor}
    {h : c'.remaining < c.remaining} (hread : chain level c = .ok ⟨(e, c'), h⟩) :
    c.Spans (Rule.ofLevel level) e c' ∧ c'.binaryOp? level = none := by
  rw [chain] at hread
  split at hread
  · cases hread
  · rename_i left c₁ hless hleft
    have hspans := unary_sound hleft
    exact chainTail_sound (Nat.zero_le level) hlevel hspans (fun _ _ => Nat.zero_le _) hread
termination_by (c.remaining, 3)

/-- The loop keeps that what is read is derived at a level which every operator at the
cursor reaches. -/
theorem chainTail_sound {tight level : Nat} (hle : tight ≤ level) (hlevel : level ≤ 4)
    {start c : Cursor} {left : Expr} {bound : Nat} {hc : c.remaining < bound} {e : Expr}
    {c' : Cursor} {h : c'.remaining < bound}
    (hleft : start.Spans (Rule.ofLevel tight) left c)
    (hreach : ∀ op, c.binaryOp? level = some op → tight ≤ op.precedence)
    (hread : chainTail level left c hc = .ok ⟨(e, c'), h⟩) :
    start.Spans (Rule.ofLevel level) e c' ∧ c'.binaryOp? level = none := by
  rw [chainTail] at hread
  split at hread
  · rename_i hnone
    cases hread
    exact ⟨hleft.lift hle hlevel, hnone⟩
  · rename_i op hop
    have hnext := c.remaining_next_lt (Cursor.kind_ne_eof_of_binaryOp? hop)
    have hprecedence : op.precedence ≤ level := (Cursor.binaryOp?_eq_some_iff.mp hop).2
    simp only at hread
    split at hread
    · cases hread
    · rename_i right c₁ hright' hright
      obtain ⟨hspans, hnone⟩ :=
        chain_sound (Nat.le_trans (Nat.sub_le _ 1) (Nat.le_trans hprecedence hlevel)) hright
      have hwhole := (hleft.lift (hreach op hop) op.precedence_le).snoc hop hspans
      have hless : c₁.remaining < c.remaining := Nat.lt_trans hright' hnext
      refine chainTail_sound hprecedence hlevel hwhole ?_ hread
      intro op' hop'
      have hlt := Cursor.lt_precedence hnone hop'
      omega
termination_by (c.remaining, 0)

/-- What is taken as an operand is derived as one. -/
theorem unary_sound {c : Cursor} {e : Expr} {c' : Cursor} {h : c'.remaining < c.remaining}
    (hread : unary c = .ok ⟨(e, c'), h⟩) : c.Spans .unary e c' := by
  rw [unary] at hread
  split at hread
  · exact (primary_sound hread).operand
  · rename_i op hop
    have hnext := c.remaining_next_lt (Cursor.kind_ne_eof_of_unaryOp? hop)
    simp only at hread
    split at hread
    · cases hread
    · rename_i operand c₁ hless hoperand
      have hspans := unary_sound hoperand
      cases hread
      exact .operator hop hspans
termination_by (c.remaining, 2)

/-- What is taken as an operand without operators before it is derived as one. -/
theorem primary_sound {c : Cursor} {e : Expr} {c' : Cursor} {h : c'.remaining < c.remaining}
    (hread : primary c = .ok ⟨(e, c'), h⟩) : c.Spans .primary e c' := by
  rw [primary] at hread
  split at hread
  · rename_i value hvalue
    cases hread
    exact .literal hvalue
  · split at hread
    · exact group_sound hread
    · cases hread
termination_by (c.remaining, 1)

/-- What is taken with parentheses is derived with them. -/
theorem group_sound {c : Cursor} {hopen : c.kind = .symbol .leftParen} {e : Expr} {c' : Cursor}
    {h : c'.remaining < c.remaining} (hread : group c hopen = .ok ⟨(e, c'), h⟩) :
    c.Spans .primary e c' := by
  have hnext := c.remaining_next_lt (Cursor.kind_ne_eof_of_symbol hopen)
  rw [group] at hread
  simp only at hread
  split at hread
  · cases hread
  · rename_i inner c₁ hless hinner
    have hspans := (chain_sound (Nat.le_refl 4) hinner).1
    split at hread
    · rename_i hclose
      cases hread
      exact .group hopen hspans.expression hclose
    · cases hread
termination_by (c.remaining, 0)

end

end Parser

end LoxReader
