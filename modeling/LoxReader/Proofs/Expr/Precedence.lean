/-
  `Proofs.Expr.Precedence`: expressions whose operators stand where their precedences
  have them.

  The grammar has one rule for each precedence and does not look at precedences.  What
  is derived from it is canonical all the same (`Derives.canonical`), and each canonical
  expression is derived from its own tokens (`Expr.Canonical.exists_derives`).
-/
import LoxReader.Proofs.Expr.Completeness
import LoxReader.Proofs.Expr.Kinds

set_option autoImplicit false

namespace LoxReader

namespace Expr

/-- The precedence of the operator at the top of an expression, and 0 if none stands
there between two operands. -/
def level : Expr → Nat
  | .binary _ op _ _ => op.precedence
  | _ => 0

/-- A left operand binds no more loosely than the operator behind it, a right operand
more tightly than the operator before it, and the operand of a prefix operator is none
of an operator between two operands. -/
def Canonical : Expr → Prop
  | .literal _ _ => True
  | .group _ inner => inner.Canonical
  | .unary _ _ operand => operand.level = 0 ∧ operand.Canonical
  | .binary _ op left right =>
    left.level ≤ op.precedence ∧ right.level < op.precedence ∧ left.Canonical ∧ right.Canonical

theorem level_le (e : Expr) : e.level ≤ 4 := by
  cases e with
  | binary loc op left right => exact op.precedence_le
  | _ => exact Nat.zero_le 4

end Expr

/-! ## What is derived is canonical -/

/-- Rounds with operators of one precedence keep an expression canonical. -/
theorem canonical_foldRounds {level : Nat} {rounds : List Round}
    (h : ∀ round ∈ rounds, round.op.precedence = level + 1 ∧ round.right.Canonical ∧
      round.right.level ≤ level) {first : Expr} (hfirst : first.Canonical)
    (hlevel : first.level ≤ level + 1) :
    (foldRounds first rounds).Canonical ∧ (foldRounds first rounds).level ≤ level + 1 := by
  induction rounds generalizing first with
  | nil => exact ⟨hfirst, hlevel⟩
  | cons round rounds ih =>
      obtain ⟨⟨hop, hright, hrightLevel⟩, hrounds⟩ := List.forall_mem_cons.mp h
      refine ih hrounds ⟨?_, ?_, hfirst, hright⟩ (Nat.le_of_eq hop)
      · rwa [hop]
      · rw [hop]
        exact Nat.lt_succ_of_le hrightLevel

mutual

/-- A derived expression is canonical, and at its top stands no operator that binds more
loosely than its rule. -/
theorem Derives.canonical : ∀ {rule : Rule} {ts : List Token} {e : Expr}, Derives rule ts e →
    e.Canonical ∧ e.level ≤ rule.level
  | _, _, _, .expression h => h.canonical
  | _, _, _, .chain hrule hfirst hrest => by
      have hfirst' := hfirst.canonical
      have hrest' := hrest.canonical
      obtain ⟨level, hlevel, rfl, rfl, hops⟩ := Rule.exists_level hrule
      rw [Rule.level_ofLevel (by omega)] at hfirst' hrest' ⊢
      refine canonical_foldRounds (fun round hround => ?_) hfirst'.1 (Nat.le_succ_of_le hfirst'.2)
      obtain ⟨hop, hright⟩ := hrest' round hround
      exact ⟨hops _ hop, hright⟩
  | _, _, _, .operator _ h =>
      ⟨⟨Nat.le_zero.mp h.canonical.2, h.canonical.1⟩, Nat.le_refl 0⟩
  | _, _, _, .operand h => h.canonical
  | _, _, _, .literal _ => ⟨trivial, Nat.le_refl 0⟩
  | _, _, _, .group _ h _ => ⟨h.canonical.1, Nat.le_refl 0⟩

/-- The right operands of derived rounds are canonical. -/
theorem Repeats.canonical : ∀ {ops : List BinaryOp} {operand : Rule} {ts : List Token}
    {rounds : List Round}, Repeats ops operand ts rounds →
      ∀ round ∈ rounds, round.op ∈ ops ∧ round.right.Canonical ∧
        round.right.level ≤ operand.level
  | _, _, _, _, .done => fun _ hround => by cases hround
  | _, _, _, _, .round hop _ hright hrest =>
      List.forall_mem_cons.mpr ⟨⟨hop, hright.canonical⟩, hrest.canonical⟩

end

/-! ## What is canonical is derived -/

/-- Tokens of the kinds of a canonical expression are derived as this expression, in their
own places. -/
theorem Expr.Canonical.exists_derives {e : Expr} (h : e.Canonical) {ts : List Token}
    (hkinds : ts.map Token.kind = e.kinds) :
    ∃ e', Derives (Rule.ofLevel e.level) ts e' ∧ e'.bare = e.bare := by
  induction e generalizing ts with
  | literal loc value =>
      obtain ⟨token, rest, rfl, htoken, hrest⟩ := List.map_eq_cons_iff.mp hkinds
      obtain rfl := List.map_eq_nil_iff.mp hrest
      exact ⟨_, .operand (.literal htoken), rfl⟩
  | group loc inner ih =>
      obtain ⟨opening, rest, rfl, hopening, hrest⟩ := List.map_eq_cons_iff.mp hkinds
      obtain ⟨ts, closings, rfl, hts, hclosings⟩ := List.map_eq_append_iff.mp hrest
      obtain ⟨closing, nothing, rfl, hclosing, hnothing⟩ := List.map_eq_cons_iff.mp hclosings
      obtain rfl := List.map_eq_nil_iff.mp hnothing
      obtain ⟨inner', hinner, hbare⟩ := ih h hts
      have hwhole := Derives.expression (hinner.lift inner.level_le (Nat.le_refl 4))
      exact ⟨_, .operand (.group hopening hwhole hclosing), by simp only [bare, hbare]⟩
  | unary loc op operand ih =>
      obtain ⟨hlevel, hoperand⟩ := h
      obtain ⟨token, ts, rfl, htoken, hts⟩ := List.map_eq_cons_iff.mp hkinds
      obtain ⟨operand', hderives, hbare⟩ := ih hoperand hts
      rw [hlevel] at hderives
      exact ⟨_, .operator htoken hderives, by simp only [bare, hbare]⟩
  | binary loc op left right ihl ihr =>
      obtain ⟨hleftLevel, hrightLevel, hleft, hright⟩ := h
      obtain ⟨first, rest, rfl, hfirst, hrest⟩ := List.map_eq_append_iff.mp hkinds
      obtain ⟨token, second, rfl, htoken, hsecond⟩ := List.map_eq_cons_iff.mp hrest
      obtain ⟨left', hderives, hbare⟩ := ihl hleft hfirst
      obtain ⟨right', hderives', hbare'⟩ := ihr hright hsecond
      have hle := op.precedence_le
      have hwhole := (hderives.lift hleftLevel hle).snoc htoken
        (hderives'.lift (Nat.le_sub_one_of_lt hrightLevel) (by omega))
      exact ⟨_, hwhole, by simp only [bare, hbare, hbare']⟩

end LoxReader
