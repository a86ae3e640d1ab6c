/-
  `Proofs.Expr.Grammar`: the grammar of expressions, stated apart from the reading of
  tokens.

    expression -> equality
    equality   -> comparison ( ( "!=" | "==" ) comparison )*
    comparison -> term ( ( ">" | ">=" | "<" | "<=" ) term )*
    term       -> factor ( ( "-" | "+" ) factor )*
    factor     -> unary ( ( "/" | "*" ) unary )*
    unary      -> ( "!" | "-" ) unary | primary
    primary    -> NUMBER | STRING | "true" | "false" | "nil" | "(" expression ")"

  A derivation has an expression, in which every repetition is folded to the left.
  Neither looks at precedences: those of the operators are read off the rules by
  `Rule.chain?_ofLevel`.
-/
import LoxReader.Expr.Basic

set_option autoImplicit false

namespace LoxReader

/-! ## Rules -/

/-- The rules of the grammar. -/
inductive Rule where
  | expression
  | equality
  | comparison
  | term
  | factor
  | unary
  | primary
deriving DecidableEq

/-- The operators and the operands of a rule `x ( op x )*`. -/
def Rule.chain? : Rule → Option (List BinaryOp × Rule)
  | .equality => some ([.notEqual, .equal], .comparison)
  | .comparison => some ([.greater, .greaterEqual, .less, .lessEqual], .term)
  | .term => some ([.subtract, .add], .factor)
  | .factor => some ([.divide, .multiply], .unary)
  | _ => none

/-- The kind of token that a literal is written as. -/
def Literal.kind : Literal → TokenKind
  | .number id => .number id
  | .string id => .string id
  | .bool true => .keyword .true
  | .bool false => .keyword .false
  | .nil => .keyword .nil

/-- One round `op x` of a repetition `( op x )*`. -/
structure Round where
  loc : Location
  op : BinaryOp
  right : Expr

/-- An operand and the rounds after it, folded to the left. -/
def foldRounds (first : Expr) (rounds : List Round) : Expr :=
  rounds.foldl (fun left round => .binary round.loc round.op left round.right) first

/-! ## Derivations -/

mutual

/-- The tokens can be derived from the rule, and have this expression. -/
inductive Derives : Rule → List Token → Expr → Prop
  | expression {ts : List Token} {e : Expr} : Derives .equality ts e → Derives .expression ts e
  | chain {rule operand : Rule} {ops : List BinaryOp} {ts rest : List Token} {first : Expr}
      {rounds : List Round} :
      rule.chain? = some (ops, operand) → Derives operand ts first →
        Repeats ops operand rest rounds → Derives rule (ts ++ rest) (foldRounds first rounds)
  | operator {token : Token} {op : UnaryOp} {ts : List Token} {e : Expr} :
      token.kind = .symbol op.symbol → Derives .unary ts e →
        Derives .unary (token :: ts) (.unary token.loc op e)
  | operand {ts : List Token} {e : Expr} : Derives .primary ts e → Derives .unary ts e
  | literal {token : Token} {value : Literal} :
      token.kind = value.kind → Derives .primary [token] (.literal token.loc value)
  | group {opening closing : Token} {ts : List Token} {e : Expr} :
      opening.kind = .symbol .leftParen → Derives .expression ts e →
        closing.kind = .symbol .rightParen →
          Derives .primary (opening :: (ts ++ [closing])) (.group opening.loc e)

/-- The tokens are rounds of a repetition with these operators and operands. -/
inductive Repeats : List BinaryOp → Rule → List Token → List Round → Prop
  | done {ops : List BinaryOp} {operand : Rule} : Repeats ops operand [] []
  | round {ops : List BinaryOp} {operand : Rule} {token : Token} {op : BinaryOp}
      {ts rest : List Token} {right : Expr} {rounds : List Round} :
      op ∈ ops → token.kind = .symbol op.symbol → Derives operand ts right →
        Repeats ops operand rest rounds →
          Repeats ops operand (token :: (ts ++ rest)) (⟨token.loc, op, right⟩ :: rounds)

end

/-- Tokens that are a whole expression. -/
def Sentence (ts : List Token) : Prop :=
  ∃ e, Derives .expression ts e

/-- Tokens with which a whole expression can start. -/
def Viable (ts : List Token) : Prop :=
  ∃ more, Sentence (ts ++ more)

/-- What an expression can start with, it can start with up to any point. -/
theorem Viable.of_append {first second : List Token} (h : Viable (first ++ second)) :
    Viable first := by
  obtain ⟨more, hmore⟩ := h
  exact ⟨second ++ more, by rwa [← List.append_assoc]⟩

/-! ## Rules by the precedence of their operators -/

/-- The rule whose operators, and those of its operands, bind at least as tightly as
the level. -/
def Rule.ofLevel : Nat → Rule
  | 0 => .unary
  | 1 => .factor
  | 2 => .term
  | 3 => .comparison
  | _ => .equality

/-- The operators of a rule are those of one precedence, and its operands those of the
rule that is one level tighter. -/
theorem Rule.chain?_ofLevel {level : Nat} (h : level < 4) :
    ∃ ops, (Rule.ofLevel (level + 1)).chain? = some (ops, Rule.ofLevel level) ∧
      ∀ op : BinaryOp, op ∈ ops ↔ op.precedence = level + 1 := by
  have hlevel : level = 0 ∨ level = 1 ∨ level = 2 ∨ level = 3 := by omega
  rcases hlevel with rfl | rfl | rfl | rfl
  all_goals
    refine ⟨_, rfl, ?_⟩
    intro op
    cases op <;> simp [BinaryOp.precedence]

/-- Every rule with a repetition is the rule of a level. -/
theorem Rule.exists_level {rule operand : Rule} {ops : List BinaryOp}
    (h : rule.chain? = some (ops, operand)) :
    ∃ level, level < 4 ∧ rule = Rule.ofLevel (level + 1) ∧ operand = Rule.ofLevel level ∧
      ∀ op ∈ ops, op.precedence = level + 1 := by
  have hlevel : ∃ level, level < 4 ∧ rule = Rule.ofLevel (level + 1) := by
    cases rule with
    | equality => exact ⟨3, by omega, rfl⟩
    | comparison => exact ⟨2, by omega, rfl⟩
    | term => exact ⟨1, by omega, rfl⟩
    | factor => exact ⟨0, by omega, rfl⟩
    | _ => cases h
  obtain ⟨level, hlt, rfl⟩ := hlevel
  obtain ⟨ops', hchain, hops⟩ := Rule.chain?_ofLevel hlt
  rw [hchain] at h
  obtain ⟨rfl, rfl⟩ := Prod.mk.inj (Option.some.inj h)
  exact ⟨level, hlt, rfl, rfl, fun op hop => (hops op).mp hop⟩

/-! ## Building derivations -/

/-- A repetition can have one more round at its end. -/
theorem Repeats.snoc {ops : List BinaryOp} {operand : Rule} {token : Token} {op : BinaryOp}
    {ts : List Token} {right : Expr} (hop : op ∈ ops) (htoken : token.kind = .symbol op.symbol)
    (hright : Derives operand ts right) :
    ∀ {rest : List Token} {rounds : List Round}, Repeats ops operand rest rounds →
      Repeats ops operand (rest ++ token :: ts) (rounds ++ [⟨token.loc, op, right⟩])
  | _, _, .done => by
      have h := Repeats.round hop htoken hright .done
      rwa [List.append_nil] at h
  | _, _, .round hop' htoken' hright' hrest => by
      have h := Repeats.round hop' htoken' hright' (hrest.snoc hop htoken hright)
      rwa [← List.append_assoc] at h

/-- An operand of a rule is derived from the rule, without a round. -/
theorem Derives.lift_succ {level : Nat} (hlevel : level < 4) {ts : List Token} {e : Expr}
    (h : Derives (Rule.ofLevel level) ts e) : Derives (Rule.ofLevel (level + 1)) ts e := by
  obtain ⟨ops, hchain, -⟩ := Rule.chain?_ofLevel hlevel
  have hlift := Derives.chain hchain h .done
  rwa [List.append_nil] at hlift

/-- What is derived at a tight level is derived at every looser one. -/
theorem Derives.lift {tight loose : Nat} (hle : tight ≤ loose) (hloose : loose ≤ 4)
    {ts : List Token} {e : Expr} (h : Derives (Rule.ofLevel tight) ts e) :
    Derives (Rule.ofLevel loose) ts e := by
  induction hle with
  | refl => exact h
  | step hle ih => exact (ih (by omega)).lift_succ (by omega)

/-- An expression of a level, an operator of that level and an operand behind it are an
expression of that level. -/
theorem Derives.snoc {op : BinaryOp} {token : Token} {ts rest : List Token}
    {left right : Expr} (htoken : token.kind = .symbol op.symbol)
    (hleft : Derives (Rule.ofLevel op.precedence) ts left)
    (hright : Derives (Rule.ofLevel (op.precedence - 1)) rest right) :
    Derives (Rule.ofLevel op.precedence) (ts ++ token :: rest)
      (.binary token.loc op left right) := by
  have hpos := op.precedence_pos
  have hle := op.precedence_le
  obtain ⟨ops, hchain, hops⟩ := Rule.chain?_ofLevel (show op.precedence - 1 < 4 by omega)
  have hsucc : op.precedence - 1 + 1 = op.precedence := by omega
  rw [hsucc] at hchain hops
  generalize hrule : Rule.ofLevel op.precedence = rule at hleft hchain ⊢
  cases hleft with
  | @chain _ _ _ first more e rounds hchain' hfirst hrounds =>
      rw [hchain] at hchain'
      obtain ⟨rfl, rfl⟩ := Prod.mk.inj (Option.some.inj hchain')
      have h := Derives.chain hchain hfirst
        (hrounds.snoc ((hops op).mpr rfl) htoken hright)
      rw [List.append_assoc]
      simpa [foldRounds] using h
  | expression _ => cases hchain
  | operator _ _ => cases hchain
  | operand _ => cases hchain
  | literal _ => cases hchain
  | group _ _ _ => cases hchain

end LoxReader
