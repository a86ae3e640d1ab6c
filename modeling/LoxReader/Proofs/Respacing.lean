/-
  `Proofs.Respacing`: the same tokens written out with other trivia between them.

  Reading a source that spells tokens out gives back just these tokens, whatever trivia
  separates them, and what is read apart from places depends on the tokens only.  So all such
  sources hold the same expression, or are refused at the same token for the same reason.
  The main statement is `lex_spells`.
-/
import LoxReader.Proofs.Diagnosis
import LoxReader.Proofs.Expr.Relocation
import LoxReader.Proofs.Tokenization.Spelling

set_option autoImplicit false

namespace LoxReader

/-! ## Reading what is spelled out -/

/-- The tokens are those of the lexemes: there is no error, each lexeme gives the one token
that it denotes, and then there is the end.  The kinds of the tokens with their indices, and
the tables, are determined by the lexemes. -/
structure Tokenization.IsReading (t : Tokenization) (ls : List Lexeme) : Prop where
  errors : t.errors = #[]
  tokens : ∃ ts eof, t.tokens.toList = ts ++ [eof] ∧ eof.kind = .eof ∧
    List.Forall₂ (Denotes t.tables) ls (ts.map Token.kind) ∧ .error ∉ ts.map Token.kind
  gist : t.gist = Gist.ofLexemes ls

/-- A source that spells tokens out is read as these. -/
theorem Spells.isReading {ls : List Lexeme} {source : String} (h : Spells ls source.toList)
    (hls : ∀ l ∈ ls, l.IsToken) : (tokenize source).IsReading ls := by
  have hcut := h.proper_lexemes hls
  have hgist := gist_tokenize source
  obtain ⟨ts, eof, htokens, heof, -, hdenotes⟩ := tokenize_denotes source
  rw [hcut] at hgist hdenotes
  have hkinds := error_not_mem_of_denotes hdenotes hls
  have hnone := Tokenization.errorTokens_eq_nil htokens heof hkinds
  exact ⟨(tokenize_paired source).errorTokens_eq_nil_iff.mp hnone,
    ⟨ts, eof, htokens, heof, hdenotes, hkinds⟩, hgist⟩

/-! ## Analyses of sources with the same tokens -/

/-- Both sources hold the same expression, or both are refused at the same token for the same
reason. -/
inductive Analysis.Agrees (a b : Analysis) : Prop
  | expression {text : String} : a.diagnostics = [] → b.diagnostics = [] →
      a.sexp = .ok (some text) → b.sexp = .ok (some text) → Agrees a b
  | error {err err' : ParseError} : a.diagnostics = [err.diagnostic] →
      b.diagnostics = [err'.diagnostic] → a.tokens.parse = .ok (.error err) →
        b.tokens.parse = .ok (.error err') →
          err.Alike err' a.tokens.tokens.toList b.tokens.tokens.toList → Agrees a b

/-- Both sources have analyses of their tokens, and these agree. -/
def AnalysedAlike (source other : String) : Prop :=
  ∃ a b, Analysis.ofSource source = .ok a ∧ Analysis.ofSource other = .ok b ∧
    a.tokens = tokenize source ∧ b.tokens = tokenize other ∧ a.Agrees b

/-- The tokens of sources with the same gist have the same kinds. -/
theorem map_kind_eq_of_gist {source other : String} {ts ts' : List Token} {eof eof' : Token}
    (hgist : (tokenize other).gist = (tokenize source).gist)
    (htokens : (tokenize source).tokens.toList = ts ++ [eof])
    (htokens' : (tokenize other).tokens.toList = ts' ++ [eof']) :
    ts'.map Token.kind = ts.map Token.kind := by
  have hkinds : (ts' ++ [eof']).map Token.kind = (ts ++ [eof]).map Token.kind := by
    rw [← htokens, ← htokens']
    exact congrArg Gist.kinds hgist
  rw [List.map_append, List.map_append] at hkinds
  exact (List.append_inj' hkinds rfl).1

section SameGist

variable {source other : String} (hlex : lex source = .ok (tokenize source))
  (hother : lex other = .ok (tokenize other)) (herrors : (tokenize source).errors = #[])
  (hgist : (tokenize other).gist = (tokenize source).gist)

include hlex hother herrors hgist

/-- A source with the gist of one that is parsed has the same expression. -/
theorem analysedAlike_of_parse {ast : Ast} (hparse : (tokenize source).parse = .ok (.ok ast)) :
    AnalysedAlike source other := by
  have ha := Analysis.ofSource_of_parse hlex herrors hparse
  obtain ⟨b, hb, hclean, halike⟩ := Analysis.exists_alike ha rfl hgist hother
  obtain ⟨-, -, htokens, -⟩ := Analysis.finds_of_clean hb hclean
  obtain ⟨sexp, hsexp, hsome⟩ := @Analysis.exists_sexp ⟨tokenize source, some ast, []⟩
    fun ast' hast => backed_of_parse (Option.some.inj hast ▸ hparse)
  obtain ⟨text, rfl⟩ := Option.isSome_iff_exists.mp hsome
  exact ⟨_, b, ha, hb, rfl, htokens, .expression rfl hclean hsexp (halike.sexp.trans hsexp)⟩

/-- A source with the gist of one that is refused is refused alike. -/
theorem analysedAlike_of_parse_error {err : ParseError}
    (hparse : (tokenize source).parse = .ok (.error err)) : AnalysedAlike source other := by
  obtain ⟨ts, eof, htokens, heof, hne, -⟩ := tokenize_denotes source
  obtain ⟨ts', eof', htokens', heof', hne', -⟩ := tokenize_denotes other
  have hkinds := map_kind_eq_of_gist hgist htokens htokens'
  have hrefused : ¬Sentence ts' := by
    intro hsentence
    obtain ⟨e, he⟩ := hsentence.of_kinds hkinds.symm
    obtain ⟨ast, loc, hast, -⟩ := parse_of_derives htokens heof hne he
    rw [hparse] at hast
    cases hast
  obtain ⟨err', hparse'⟩ := parse_of_not_sentence htokens' heof' hne' hrefused
  have herrors' := Tokenization.errors_eq_of_gist hgist herrors
  have hfirst := parse_error_isFirst htokens heof hparse
  have hfirst' := parse_error_isFirst htokens' heof' hparse'
  have halike := hfirst.alike hfirst' hkinds (heof'.trans heof.symm)
  rw [← htokens, ← htokens'] at halike
  exact ⟨_, _, Analysis.ofSource_of_parse_error hlex herrors hparse,
    Analysis.ofSource_of_parse_error hother herrors' hparse', rfl, rfl,
    .error rfl rfl hparse hparse' halike⟩

/-- Sources without lexical errors that have the same gist are analysed alike. -/
theorem analysedAlike_of_gist : AnalysedAlike source other := by
  obtain ⟨result, hparse⟩ := exists_parse source
  cases result with
  | ok ast => exact analysedAlike_of_parse hlex hother herrors hgist hparse
  | error err => exact analysedAlike_of_parse_error hlex hother herrors hgist hparse

end SameGist

/-! ## Tokens with any trivia -/

/-- A source that spells tokens out is read as these, and is read whenever it has fewer bytes
than the largest offset.  Sources that spell the same tokens out have the same expression, or
are refused at the same token for the same reason. -/
theorem lex_spells {ls : List Lexeme} (hls : ∀ l ∈ ls, l.IsToken) :
    (∀ source : String, Spells ls source.toList →
      (∀ t, lex source = .ok t → t.IsReading ls) ∧
        (source.utf8ByteSize < SourceFault.maxBytes → ∃ t, lex source = .ok t)) ∧
      ∀ source other : String, Spells ls source.toList → Spells ls other.toList →
        ∀ t t', lex source = .ok t → lex other = .ok t' →
          ∃ a b, Analysis.ofSource source = .ok a ∧ Analysis.ofSource other = .ok b ∧
            a.tokens = t ∧ b.tokens = t' ∧ a.Agrees b := by
  refine ⟨fun source hsource => ⟨fun t ht => ?_, fun h => ⟨_, lex_of_lt h⟩⟩, ?_⟩
  · rw [eq_tokenize_of_lex ht]
    exact hsource.isReading hls
  · intro source other hsource hother t t' ht ht'
    obtain rfl := eq_tokenize_of_lex ht
    obtain rfl := eq_tokenize_of_lex ht'
    have hreading := hsource.isReading hls
    exact analysedAlike_of_gist ht ht' hreading.errors
      ((hother.isReading hls).gist.trans hreading.gist.symm)

/-- The tokens of `(07/nil`. -/
def openQuotient : List Lexeme :=
  [.symbol .leftParen, .digits ['0', '7'], .symbol .slash, .word ['n', 'i', 'l']]

theorem isToken_openQuotient : ∀ l ∈ openQuotient, l.IsToken := by
  have hdigits : Lexeme.InGrammar (.digits ['0', '7']) := by simp [Lexeme.InGrammar]
  have hword : Lexeme.InGrammar (.word ['n', 'i', 'l']) :=
    ⟨'n', ['i', 'l'], rfl, rfl, List.forall_mem_cons.mpr ⟨rfl, List.forall_mem_singleton.mpr rfl⟩⟩
  simp only [openQuotient, List.forall_mem_cons]
  exact ⟨⟨trivial, rfl, rfl⟩, ⟨hdigits, rfl, by decide +kernel⟩, ⟨trivial, rfl, rfl⟩,
    ⟨hword, rfl, rfl⟩, List.forall_mem_nil _⟩

/-- A parenthesis that is left open in front of a quotient, with blanks and with comments. -/
theorem lex_spells_openQuotient :
    (∀ l ∈ openQuotient, l.IsToken) ∧ Spells openQuotient "( 07 / nil".toList ∧
      Spells openQuotient "//)\"\n(\t//1\n07\n/ nil\n".toList ∧ ∃ a b,
        Analysis.ofSource "( 07 / nil" = .ok a ∧
          Analysis.ofSource "//)\"\n(\t//1\n07\n/ nil\n" = .ok b ∧ a.Agrees b := by
  have hspace : IsSeparator [' '] := ⟨.blank rfl .nil, ' ', rfl, rfl⟩
  have hfeed : IsSeparator ['\n'] := ⟨.blank rfl .nil, '\n', rfl, rfl⟩
  have hcomment : IsSeparator ['\t', '/', '/', '1', '\n'] :=
    ⟨.blank rfl (@Trivia.comment ['1'] [] (by decide) .nil), '\t', rfl, rfl⟩
  have hlead : Trivia ['/', '/', ')', '"', '\n'] := @Trivia.comment [')', '"'] [] (by decide) .nil
  have hblanks : Spells openQuotient "( 07 / nil".toList :=
    .tokens .nil (.lexeme hspace (.lexeme hspace (.lexeme hspace .done)))
  have hcomments : Spells openQuotient "//)\"\n(\t//1\n07\n/ nil\n".toList :=
    .tokens hlead (.lexeme hcomment (.lexeme hfeed (.lexeme hspace (.trailing hfeed))))
  obtain ⟨hread, hagree⟩ := lex_spells isToken_openQuotient
  obtain ⟨t, ht⟩ := (hread _ hblanks).2 (by decide)
  obtain ⟨t', ht'⟩ := (hread _ hcomments).2 (by decide)
  obtain ⟨a, b, ha, hb, -, -, hab⟩ := hagree _ _ hblanks hcomments t t' ht ht'
  exact ⟨isToken_openQuotient, hblanks, hcomments, a, b, ha, hb, hab⟩

end LoxReader
