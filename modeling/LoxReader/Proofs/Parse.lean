/-
  `Proofs.Parse`: parsing tokens is finding out how they are derived.

  Reading the tokens gives their expression, if they have one, and laying it out gives
  an arena that holds just this expression.
-/
import LoxReader.Analysis
import LoxReader.Proofs.Ast.Reading
import LoxReader.Proofs.Expr.Completeness
import LoxReader.Proofs.Expr.Order

set_option autoImplicit false

namespace LoxReader

section Tokens

variable {t : Tokenization} {ts : List Token} {eof : Token}

/-- Derived tokens are parsed, and their expression is laid out below a top node that has the
place of the first token. -/
theorem parse_eq_of_derives (htokens : t.tokens.toList = ts ++ [eof]) (heof : eof.kind = .eof)
    (hts : ∀ token ∈ ts, token.kind ≠ .eof) {e : Expr} (h : Derives .expression ts e) :
    ∃ first a, ts.head? = some first ∧ t.parse = .ok (.ok a) ∧ a.arena = e.arena first.loc ∧
      a.root = 0 ∧ a.expr = 1 + e.lead := by
  obtain ⟨c, hcursor, hc, -⟩ := Cursor.exists_ofTokens heof ts
  obtain ⟨a, hofExpr, hfields⟩ := Ast.exists_ofExpr c.loc e
  have hfirst : ts.head? = some c.current := by
    cases ts with
    | nil =>
        have hgives := h.gives.length_eq
        rw [e.length_entries] at hgives
        exact absurd hgives (Nat.ne_of_gt (Nat.zero_lt_of_lt e.lead_lt_size))
    | cons token ts => exact congrArg some (List.cons.inj hc).1.symm
  refine ⟨c.current, a, hfirst, ?_, hfields⟩
  unfold Tokenization.parse
  rw [htokens, hcursor]
  simp only [(Parser.expression_eq_ok_iff hc heof hts).mpr h, hofExpr]

/-- Derived tokens are parsed, and their expression is laid out. -/
theorem parse_of_derives (htokens : t.tokens.toList = ts ++ [eof]) (heof : eof.kind = .eof)
    (hts : ∀ token ∈ ts, token.kind ≠ .eof) {e : Expr} (h : Derives .expression ts e) :
    ∃ a loc, t.parse = .ok (.ok a) ∧ a.arena = e.arena loc ∧ a.root = 0 ∧
      a.expr = 1 + e.lead := by
  obtain ⟨first, a, -, hparse, hfields⟩ := parse_eq_of_derives htokens heof hts h
  exact ⟨a, first.loc, hparse, hfields⟩

/-- Tokens that are not derived are refused, with an error. -/
theorem parse_of_not_sentence (htokens : t.tokens.toList = ts ++ [eof]) (heof : eof.kind = .eof)
    (hts : ∀ token ∈ ts, token.kind ≠ .eof) (h : ¬Sentence ts) :
    ∃ err, t.parse = .ok (.error err) := by
  obtain ⟨c, hcursor, hc, -⟩ := Cursor.exists_ofTokens heof ts
  cases hread : Parser.expression c with
  | ok e => exact absurd ⟨e, (Parser.expression_eq_ok_iff hc heof hts).mp hread⟩ h
  | error err =>
      refine ⟨err, ?_⟩
      unfold Tokenization.parse
      rw [htokens, hcursor]
      simp only [hread]

/-- What is parsed is derived. -/
theorem sentence_of_parse (htokens : t.tokens.toList = ts ++ [eof]) (heof : eof.kind = .eof)
    (hts : ∀ token ∈ ts, token.kind ≠ .eof) {a : Ast} (h : t.parse = .ok (.ok a)) :
    Sentence ts := by
  refine Classical.byContradiction fun hnot => ?_
  obtain ⟨err, herr⟩ := parse_of_not_sentence htokens heof hts hnot
  rw [h] at herr
  cases herr

/-- The arena holds the expression, below its top node, and nothing else. -/
structure Ast.IsTree (a : Ast) (e : Expr) : Prop where
  root : a.arena.root = some a.root
  /-- The top node has one child, the expression. -/
  top : ∃ loc, a.arena.Lists a.root ⟨.root, loc⟩ [a.expr]
  holds : a.arena.Holds a.expr e
  size : a.size = e.size + 1

theorem Ast.isTree_of_arena {a : Ast} {loc : Location} {e : Expr} (harena : a.arena = e.arena loc)
    (hroot : a.root = 0) (hexpr : a.expr = 1 + e.lead) : a.IsTree e := by
  refine ⟨a.root_eq, ⟨loc, ?_⟩, ?_, ?_⟩
  · rw [harena, hroot, hexpr]
    exact ⟨_, rfl, rfl, rfl⟩
  · rw [harena, hexpr]
    exact e.holds_arena loc
  · rw [Ast.size, harena, e.size_arena]

/-- Folding that passes the top node on is folding over the expression. -/
theorem Ast.IsTree.foldAt_root {β : Type} {a : Ast} {e : Expr} (h : a.IsTree e)
    {combine : Location → Shape β → Except AstFault β}
    (hcombine : ∀ loc expr, combine loc (.root expr) = .ok expr) :
    a.foldAt combine a.root = e.fold combine := by
  obtain ⟨loc, htop⟩ := h.top
  have hsize : e.size ≤ a.size := by
    rw [h.size]
    exact Nat.le_succ _
  rw [Ast.foldAt_root combine htop h.holds hsize]
  cases e.fold combine with
  | error f => rfl
  | ok expr => exact hcombine loc expr

/-- Tokens are parsed exactly if they can be derived, and the arena is the tree of the
derivation: a repetition is folded to the left, parentheses have a node, and literals
keep the index of their payload. -/
theorem parse_iff_derives (htokens : t.tokens.toList = ts ++ [eof]) (heof : eof.kind = .eof)
    (hts : ∀ token ∈ ts, token.kind ≠ .eof) :
    ((∃ a, t.parse = .ok (.ok a)) ↔ ∃ e, Derives .expression ts e) ∧
      ((∃ err, t.parse = .ok (.error err)) ↔ ¬∃ e, Derives .expression ts e) ∧
        ∀ a e, t.parse = .ok (.ok a) → Derives .expression ts e → a.IsTree e := by
  have hparsed : ∀ e, Derives .expression ts e → ∃ a, t.parse = .ok (.ok a) ∧ a.IsTree e := by
    intro e he
    obtain ⟨a, loc, hparse, harena, hroot, hexpr⟩ := parse_of_derives htokens heof hts he
    exact ⟨a, hparse, Ast.isTree_of_arena harena hroot hexpr⟩
  refine ⟨⟨?_, ?_⟩, ⟨?_, parse_of_not_sentence htokens heof hts⟩, ?_⟩
  · rintro ⟨a, ha⟩
    exact sentence_of_parse htokens heof hts ha
  · rintro ⟨e, he⟩
    obtain ⟨a, ha, -⟩ := hparsed e he
    exact ⟨a, ha⟩
  · rintro ⟨err, herr⟩ ⟨e, he⟩
    obtain ⟨a, ha, -⟩ := hparsed e he
    rw [ha] at herr
    cases herr
  · intro a e ha he
    obtain ⟨a', ha', htree⟩ := hparsed e he
    rw [ha] at ha'
    cases ha'
    exact htree

end Tokens

/-- The tokens of `nil - nil - (nil)`. -/
def differences : Tokenization where
  source := "nil - nil - (nil)"
  tokens := #[⟨.keyword .nil, ⟨1, 1, 0⟩⟩, ⟨.symbol .minus, ⟨1, 5, 4⟩⟩,
    ⟨.keyword .nil, ⟨1, 7, 6⟩⟩, ⟨.symbol .minus, ⟨1, 11, 10⟩⟩,
    ⟨.symbol .leftParen, ⟨1, 13, 12⟩⟩, ⟨.keyword .nil, ⟨1, 14, 13⟩⟩,
    ⟨.symbol .rightParen, ⟨1, 17, 16⟩⟩, ⟨.eof, ⟨1, 18, 17⟩⟩]
  tables := .empty
  errors := #[]

/-- The left difference is the left operand of the right one. -/
theorem parse_iff_derives_differences :
    ∃ a, differences.parse = .ok (.ok a) ∧
      a.IsTree (.binary ⟨1, 11, 10⟩ .subtract
        (.binary ⟨1, 5, 4⟩ .subtract (.literal ⟨1, 1, 0⟩ .nil) (.literal ⟨1, 7, 6⟩ .nil))
        (.group ⟨1, 13, 12⟩ (.literal ⟨1, 14, 13⟩ .nil))) := by
  have hnil : ∀ loc, Derives .primary [⟨.keyword .nil, loc⟩] (.literal loc .nil) :=
    fun _ => @Derives.literal ⟨.keyword .nil, _⟩ .nil rfl
  have hterm : ∀ {level ts e}, level ≤ 4 → Derives .primary ts e →
      Derives (Rule.ofLevel level) ts e :=
    fun hlevel h => .lift (Nat.zero_le _) hlevel (.operand h)
  have hgroup : Derives .primary (⟨.symbol .leftParen, ⟨1, 13, 12⟩⟩ ::
      ([⟨.keyword .nil, ⟨1, 14, 13⟩⟩] ++ [⟨.symbol .rightParen, ⟨1, 17, 16⟩⟩]))
        (.group ⟨1, 13, 12⟩ (.literal ⟨1, 14, 13⟩ .nil)) :=
    .group rfl (.expression (hterm (Nat.le_refl 4) (hnil _))) rfl
  have hleft := @Derives.snoc .subtract ⟨.symbol .minus, ⟨1, 5, 4⟩⟩ _ _ _ _ rfl
    (hterm (by decide) (hnil ⟨1, 1, 0⟩)) (hterm (by decide) (hnil ⟨1, 7, 6⟩))
  have hwhole := @Derives.snoc .subtract ⟨.symbol .minus, ⟨1, 11, 10⟩⟩ _ _ _ _ rfl hleft
    (hterm (by decide) hgroup)
  have hderives : Derives .expression (differences.tokens.toList.take 7) _ :=
    .expression (hwhole.lift (show 2 ≤ 4 by decide) (Nat.le_refl 4))
  obtain ⟨hparse, -, htree⟩ := @parse_iff_derives differences
    (differences.tokens.toList.take 7) ⟨.eof, ⟨1, 18, 17⟩⟩ rfl rfl (by decide)
  obtain ⟨a, ha⟩ := hparse.mpr ⟨_, hderives⟩
  exact ⟨a, ha, htree a _ ha hderives⟩

end LoxReader
