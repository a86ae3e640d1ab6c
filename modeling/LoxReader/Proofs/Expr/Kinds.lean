/-
  `Proofs.Expr.Kinds`: an expression without the places of its parts.

  How tokens are derived depends on their kinds only.  So tokens of the same kinds have
  expressions that differ in places only, and the kinds can be read off the expression.
-/
import LoxReader.Proofs.Expr.Grammar

set_option autoImplicit false

namespace LoxReader

/-! ## Kinds -/

/-- The kinds of the tokens that an expression is derived from. -/
def Expr.kinds : Expr → List TokenKind
  | .literal _ value => [value.kind]
  | .group _ inner => .symbol .leftParen :: (inner.kinds ++ [.symbol .rightParen])
  | .unary _ op operand => .symbol op.symbol :: operand.kinds
  | .binary _ op left right => left.kinds ++ .symbol op.symbol :: right.kinds

/-- The kinds of the tokens of a round. -/
def Round.kinds (round : Round) : List TokenKind :=
  .symbol round.op.symbol :: round.right.kinds

theorem kinds_foldRounds (first : Expr) (rounds : List Round) :
    (foldRounds first rounds).kinds = first.kinds ++ rounds.flatMap Round.kinds := by
  induction rounds generalizing first with
  | nil => simp [foldRounds]
  | cons round rounds ih =>
      have hfold : foldRounds first (round :: rounds) =
          foldRounds (.binary round.loc round.op first round.right) rounds := rfl
      rw [hfold, ih, List.flatMap_cons, ← List.append_assoc]
      rfl

mutual

/-- The kinds of derived tokens are those of their expression. -/
theorem Derives.map_kind : ∀ {rule : Rule} {ts : List Token} {e : Expr}, Derives rule ts e →
    ts.map Token.kind = e.kinds
  | _, _, _, .expression h => h.map_kind
  | _, _, _, .chain _ hfirst hrest => by
      rw [List.map_append, kinds_foldRounds, hfirst.map_kind, hrest.map_kind]
  | _, _, _, .operator hop h => by
      rw [List.map_cons, hop, h.map_kind]
      rfl
  | _, _, _, .operand h => h.map_kind
  | _, _, _, .literal h => by
      rw [List.map_cons, h]
      rfl
  | _, _, _, .group hopen h hclose => by
      rw [List.map_cons, List.map_append, List.map_cons, hopen, h.map_kind, hclose]
      rfl

/-- The kinds of derived rounds are those of their tokens. -/
theorem Repeats.map_kind : ∀ {ops : List BinaryOp} {operand : Rule} {ts : List Token}
    {rounds : List Round}, Repeats ops operand ts rounds →
      ts.map Token.kind = rounds.flatMap Round.kinds
  | _, _, _, _, .done => rfl
  | _, _, _, _, .round _ htoken hright hrest => by
      rw [List.map_cons, List.map_append, htoken, hright.map_kind, hrest.map_kind]
      rfl

end

/-! ## Places -/

/-- The expression without places. -/
def Expr.bare : Expr → Expr
  | .literal _ value => .literal .unset value
  | .group _ inner => .group .unset inner.bare
  | .unary _ op operand => .unary .unset op operand.bare
  | .binary _ op left right => .binary .unset op left.bare right.bare

/-- The round without places. -/
def Round.bare (round : Round) : Round :=
  ⟨.unset, round.op, round.right.bare⟩

theorem bare_foldRounds (first : Expr) (rounds : List Round) :
    (foldRounds first rounds).bare = foldRounds first.bare (rounds.map Round.bare) := by
  induction rounds generalizing first with
  | nil => rfl
  | cons round rounds ih => exact ih (.binary round.loc round.op first round.right)

mutual

/-- Tokens of the same kinds are derived alike. -/
theorem Derives.of_kinds : ∀ {rule : Rule} {ts : List Token} {e : Expr}, Derives rule ts e →
    ∀ {ts' : List Token}, ts'.map Token.kind = ts.map Token.kind →
      ∃ e', Derives rule ts' e' ∧ e'.bare = e.bare
  | _, _, _, .expression h, _, hkinds => by
      obtain ⟨e', he', hbare⟩ := h.of_kinds hkinds
      exact ⟨e', .expression he', hbare⟩
  | _, _, _, .chain hrule hfirst hrest, _, hkinds => by
      rw [List.map_append] at hkinds
      obtain ⟨ts, rest, rfl, hts, hrest'⟩ := List.map_eq_append_iff.mp hkinds
      obtain ⟨first', hfirst', hbare⟩ := hfirst.of_kinds hts
      obtain ⟨rounds', hrounds', hbares⟩ := hrest.of_kinds hrest'
      refine ⟨_, .chain hrule hfirst' hrounds', ?_⟩
      rw [bare_foldRounds, bare_foldRounds, hbare, hbares]
  | _, _, _, .operator hop h, _, hkinds => by
      obtain ⟨token, ts, rfl, htoken, hts⟩ := List.map_eq_cons_iff.mp hkinds
      obtain ⟨e', he', hbare⟩ := h.of_kinds hts
      exact ⟨_, .operator (htoken.trans hop) he', by simp only [Expr.bare, hbare]⟩
  | _, _, _, .operand h, _, hkinds => by
      obtain ⟨e', he', hbare⟩ := h.of_kinds hkinds
      exact ⟨e', .operand he', hbare⟩
  | _, _, _, .literal h, _, hkinds => by
      obtain ⟨token, ts, rfl, htoken, hts⟩ := List.map_eq_cons_iff.mp hkinds
      obtain rfl := List.map_eq_nil_iff.mp hts
      exact ⟨_, .literal (htoken.trans h), rfl⟩
  | _, _, _, .group hopen h hclose, _, hkinds => by
      obtain ⟨opening, ts, rfl, hopening, hts⟩ := List.map_eq_cons_iff.mp hkinds
      rw [List.map_append] at hts
      obtain ⟨inner, ts, rfl, hinner, hts⟩ := List.map_eq_append_iff.mp hts
      obtain ⟨closing, ts, rfl, hclosing, hts⟩ := List.map_eq_cons_iff.mp hts
      obtain rfl := List.map_eq_nil_iff.mp hts
      obtain ⟨e', he', hbare⟩ := h.of_kinds hinner
      exact ⟨_, .group (hopening.trans hopen) he' (hclosing.trans hclose),
        by simp only [Expr.bare, hbare]⟩

/-- Tokens of the same kinds are derived as rounds alike. -/
theorem Repeats.of_kinds : ∀ {ops : List BinaryOp} {operand : Rule} {ts : List Token}
    {rounds : List Round}, Repeats ops operand ts rounds →
      ∀ {ts' : List Token}, ts'.map Token.kind = ts.map Token.kind →
        ∃ rounds', Repeats ops operand ts' rounds' ∧
          rounds'.map Round.bare = rounds.map Round.bare
  | _, _, _, _, .done, _, hkinds => by
      obtain rfl := List.map_eq_nil_iff.mp hkinds
      exact ⟨[], .done, rfl⟩
  | _, _, _, _, .round hop htoken hright hrest, _, hkinds => by
      obtain ⟨token, ts, rfl, htoken', hts⟩ := List.map_eq_cons_iff.mp hkinds
      rw [List.map_append] at hts
      obtain ⟨ts, rest, rfl, hts, hrest'⟩ := List.map_eq_append_iff.mp hts
      obtain ⟨right', hright', hbare⟩ := hright.of_kinds hts
      obtain ⟨rounds', hrounds', hbares⟩ := hrest.of_kinds hrest'
      refine ⟨_, .round hop (htoken'.trans htoken) hright' hrounds', ?_⟩
      simp only [List.map_cons, Round.bare, hbare, hbares]

end

end LoxReader
