/-
  `Proofs.Diagnosis`: what is reported about a source.

  The error tokens of a source stand for its lexical errors, one for one and in order, and no
  expression has an error token in it.  So a source with lexical errors has no expression
  that leaving out the parser could lose.  The main statement is `ofSource_reports`.
-/
import LoxReader.Proofs.RoundTrip
import LoxReader.Proofs.Totality

set_option autoImplicit false

namespace LoxReader

/-! ## Error tokens -/

namespace Tokenization

/-- The tokens that stand for lexical errors. -/
def errorTokens (t : Tokenization) : List Token :=
  t.tokens.toList.filter fun token => token.kind = .error

/-- The errors have one token each, in the same order, and there are no other error tokens. -/
def Paired (t : Tokenization) : Prop :=
  t.errorTokens = t.errors.toList.map fun e => ⟨.error, e.loc⟩

end Tokenization

/-- What is read as a token is none that stands for an error. -/
theorem Tables.ne_error_of_read {tables after : Tables} {l : Lexeme} {kind : TokenKind}
    (h : tables.read l = (.token kind, after)) : kind ≠ .error := by
  rintro rfl
  cases l with
  | digits run =>
      simp only [read] at h
      split at h <;> cases h
  | word word =>
      simp only [read] at h
      split at h <;> cases h
  | _ => cases h

namespace Tokenization.Paired

variable {t : Tokenization}

theorem add (h : t.Paired) (loc : Location) (l : Lexeme) : (t.add loc l).Paired := by
  unfold Paired errorTokens at *
  rcases hread : t.tables.read l with ⟨reading, after⟩
  cases reading with
  | trivia =>
      rw [add_of_trivia hread]
      exact h
  | token kind =>
      rw [add_of_token hread, Array.toList_push, List.filter_append, h,
        List.filter_cons_of_neg (by simpa using Tables.ne_error_of_read hread)]
      exact List.append_nil _
  | error e =>
      rw [add_of_error hread, Array.toList_push, Array.toList_push, List.filter_append, h,
        List.map_append]
      rfl

theorem push_eof (h : t.Paired) (loc : Location) : (t.push .eof loc).Paired := by
  unfold Paired errorTokens at *
  rw [push, Array.toList_push, List.filter_append, h]
  exact List.append_nil _

end Tokenization.Paired

theorem tokenize_paired (source : String) : (tokenize source).Paired := by
  have hunread : (Tokenization.unread source).Paired := rfl
  exact Tokenization.readFrom_of (fun _ h => h.add) (fun _ h => h.push_eof) hunread .start _

/-- There are error tokens exactly if there are errors. -/
theorem Tokenization.Paired.errorTokens_eq_nil_iff {t : Tokenization} (h : t.Paired) :
    t.errorTokens = [] ↔ t.errors = #[] := by
  rw [h, List.map_eq_nil_iff, Array.toList_eq_nil_iff]

theorem Tokenization.errorTokens_eq_nil {t : Tokenization} {ts : List Token} {eof : Token}
    (htokens : t.tokens.toList = ts ++ [eof]) (heof : eof.kind = .eof)
    (hkinds : .error ∉ ts.map Token.kind) : t.errorTokens = [] := by
  have hnone : ∀ token ∈ ts, token.kind ≠ .error :=
    fun token htoken hkind => hkinds (hkind ▸ List.mem_map_of_mem htoken)
  rw [errorTokens, htokens, List.filter_append, List.filter_eq_nil_iff.mpr (by simpa using hnone),
    List.filter_cons_of_neg (by simp [heof])]
  rfl

/-- Tokens that are parsed have no error token among them. -/
theorem errorTokens_eq_nil_of_parse {source : String} {ast : Ast}
    (h : (tokenize source).parse = .ok (.ok ast)) : (tokenize source).errorTokens = [] := by
  obtain ⟨ts, htokens, hts⟩ := (tokenize_reads source).exists_eof
  obtain ⟨e, he⟩ := sentence_of_parse htokens rfl hts h
  exact Tokenization.errorTokens_eq_nil htokens rfl (he.map_kind ▸ e.error_not_mem_kinds)

/-! ## Diagnostics of errors -/

namespace LexError

theorem primaryLoc?_diagnostic (e : LexError) : e.diagnostic.primaryLoc? = some e.loc := by
  obtain ⟨kind, loc⟩ := e
  cases kind <;> rfl

theorem phase_diagnostic (e : LexError) : e.diagnostic.code.phase = .lexer := by
  obtain ⟨kind, loc⟩ := e
  cases kind <;> rfl

end LexError

namespace ParseError

theorem primaryLoc?_diagnostic (err : ParseError) : err.diagnostic.primaryLoc? = some err.loc := by
  obtain ⟨kind, position, found, loc⟩ := err
  cases kind <;> rfl

theorem phase_diagnostic (err : ParseError) : err.diagnostic.code.phase = .parser := by
  obtain ⟨kind, position, found, loc⟩ := err
  cases kind <;> rfl

/-- The labels of an error are at its place and at the parenthesis that is not closed. -/
theorem labels_diagnostic (err : ParseError) :
    (err.diagnostic.labels.map fun label => (label.loc, label.isPrimary)) =
      (err.loc, true) :: err.kind.opening?.toList.map fun opening => (opening, false) := by
  obtain ⟨kind, position, found, loc⟩ := err
  cases kind <;> rfl

/-- The diagnostic reports the error as one of the parser: its primary place is that of the
first token that no expression has there, and a parenthesis before this token that is not
closed has a secondary label. -/
structure IsReported (err : ParseError) (t : Tokenization) (d : Diagnostic) : Prop where
  phase : d.code.phase = .parser
  first : ∃ ts eof, t.tokens.toList = ts ++ [eof] ∧ eof.kind = .eof ∧ err.IsFirst ts eof
  labels : ∃ token, t.tokens.toList[err.position]? = some token ∧
    d.primaryLoc? = some token.loc ∧
      (d.labels.map fun label => (label.loc, label.isPrimary)) =
        (token.loc, true) :: err.kind.opening?.toList.map fun opening => (opening, false)
  opening : ∀ opening, err.kind = .unclosedParen opening →
    ∃ paren ∈ t.tokens.toList.take err.position, paren.kind = .symbol .leftParen ∧
      opening = paren.loc

/-- An error at the first token that cannot stand where it does is reported as such. -/
theorem IsFirst.isReported {err : ParseError} {t : Tokenization} {ts : List Token} {eof : Token}
    (h : err.IsFirst ts eof) (htokens : t.tokens.toList = ts ++ [eof]) (heof : eof.kind = .eof) :
    err.IsReported t err.diagnostic := by
  obtain ⟨token, htoken, -, hloc⟩ := h.token
  refine ⟨err.phase_diagnostic, ⟨ts, eof, htokens, heof, h⟩, ⟨token, ?_, ?_, ?_⟩, ?_⟩
  · rw [htokens, htoken]
  · rw [err.primaryLoc?_diagnostic, hloc]
  · rw [err.labels_diagnostic, hloc]
  · intro opening hkind
    have hmem := List.mem_of_head? ((h.unclosedParen_iff opening).mp hkind).2
    rw [htokens, List.take_append_of_le_length h.position_le]
    rcases exists_token_of_mem_openings hmem with hnone | hparen
    · cases hnone
    · exact hparen

end ParseError

/-! ## The analysis of a source -/

/-- The analysis has the expression that parsing the tokens gives, if it gives one.  If not,
its diagnostics are those of the error tokens, or if there are none, that of the error that
parsing gives. -/
structure Analysis.Reports (a : Analysis) (result : Except ParseError Ast) : Prop where
  ast_iff : ∀ ast, a.ast = some ast ↔ result = .ok ast
  hasErrors_iff : a.hasErrors = false ↔ ∃ ast, result = .ok ast
  lexical : a.tokens.errorTokens ≠ [] →
    a.diagnostics.map Diagnostic.primaryLoc? =
        (a.tokens.errorTokens.map fun token => some token.loc) ∧
      ∀ d ∈ a.diagnostics, d.code.phase = .lexer
  syntactic : a.tokens.errorTokens = [] → ∀ err, result = .error err →
    ∃ d, a.diagnostics = [d] ∧ err.IsReported a.tokens d

namespace Analysis

/-- A source with lexical errors has these as its problems, and no expression. -/
theorem ofSource_of_errors {source : String} {t : Tokenization} (hlex : lex source = .ok t)
    (herrors : t.errors ≠ #[]) :
    ofSource source = .ok ⟨t, none, t.errors.toList.map LexError.diagnostic⟩ := by
  unfold ofSource
  simp only [hlex]
  split
  · rename_i hnone
    exact absurd (Array.toList_eq_nil_iff.mp (List.map_eq_nil_iff.mp hnone)) herrors
  · rfl

/-- A source without lexical errors that is not parsed has one problem. -/
theorem ofSource_of_parse_error {source : String} {t : Tokenization} {err : ParseError}
    (hlex : lex source = .ok t) (herrors : t.errors = #[]) (hparse : t.parse = .ok (.error err)) :
    ofSource source = .ok ⟨t, none, [err.diagnostic]⟩ := by
  unfold ofSource
  simp [hlex, herrors, hparse]

theorem reports_of_errors {source : String} {err : ParseError}
    (herrors : (tokenize source).errors ≠ #[]) :
    Reports ⟨tokenize source, none, (tokenize source).errors.toList.map LexError.diagnostic⟩
      (.error err) := by
  have hpaired := tokenize_paired source
  refine ⟨fun ast => by simp, by simpa [hasErrors] using herrors, fun _ => ⟨?_, ?_⟩, ?_⟩
  · show List.map _ (List.map _ _) = List.map _ (tokenize source).errorTokens
    rw [hpaired, List.map_map, List.map_map]
    exact List.map_congr_left fun e _ => e.primaryLoc?_diagnostic
  · intro d hd
    obtain ⟨e, -, rfl⟩ := List.mem_map.mp hd
    exact e.phase_diagnostic
  · intro hnone
    exact absurd (hpaired.errorTokens_eq_nil_iff.mp hnone) herrors

theorem reports_of_parse_error {source : String} {err : ParseError}
    (herrors : (tokenize source).errors = #[])
    (hparse : (tokenize source).parse = .ok (.error err)) :
    Reports ⟨tokenize source, none, [err.diagnostic]⟩ (.error err) := by
  refine ⟨fun ast => by simp, by simp [hasErrors], fun hsome => ?_, ?_⟩
  · exact absurd ((tokenize_paired source).errorTokens_eq_nil_iff.mpr herrors) hsome
  · rintro - _ ⟨rfl⟩
    obtain ⟨ts, htokens, -⟩ := (tokenize_reads source).exists_eof
    exact ⟨_, rfl, (parse_error_isFirst htokens rfl hparse).isReported htokens rfl⟩

theorem reports_of_parse {source : String} {ast : Ast}
    (herrors : (tokenize source).errors = #[]) :
    Reports ⟨tokenize source, some ast, []⟩ (.ok ast) := by
  refine ⟨fun ast' => by simp, by simp [hasErrors], fun hsome => ?_, fun _ err h => by cases h⟩
  exact absurd ((tokenize_paired source).errorTokens_eq_nil_iff.mpr herrors) hsome

end Analysis

/-- Whenever a source is read, its analysis has an expression exactly if its tokens can be
parsed, has no errors exactly then, and reports what stands in the way if there is none; and
every source with fewer bytes than the largest offset is read. -/
theorem ofSource_reports (source : String) :
    (∀ t, lex source = .ok t → ∃ a result, Analysis.ofSource source = .ok a ∧ a.tokens = t ∧
      t.parse = .ok result ∧ a.Reports result) ∧
      (source.utf8ByteSize < SourceFault.maxBytes → ∃ t, lex source = .ok t) := by
  refine ⟨fun t hlex => ?_, fun h => ⟨_, lex_of_lt h⟩⟩
  obtain rfl := eq_tokenize_of_lex hlex
  obtain ⟨result, hparse⟩ := exists_parse source
  by_cases herrors : (tokenize source).errors = #[]
  · cases result with
    | error err => exact ⟨_, _, Analysis.ofSource_of_parse_error hlex herrors hparse, rfl, hparse,
        Analysis.reports_of_parse_error herrors hparse⟩
    | ok ast => exact ⟨_, _, Analysis.ofSource_of_parse hlex herrors hparse, rfl, hparse,
        Analysis.reports_of_parse herrors⟩
  · cases result with
    | error err => exact ⟨_, _, Analysis.ofSource_of_errors hlex herrors, rfl, hparse,
        Analysis.reports_of_errors herrors⟩
    | ok ast =>
        -- A lexical error has its token, which no expression has.
        have hnone := errorTokens_eq_nil_of_parse hparse
        exact absurd ((tokenize_paired source).errorTokens_eq_nil_iff.mp hnone) herrors

/-- Two errors behind a parenthesis that is left open are reported, and the parenthesis is
not; without them it is. -/
theorem ofSource_reports_openGroup :
    (∃ a result, Analysis.ofSource "(#1 \"" = .ok a ∧ a.tokens.errorTokens.length = 2 ∧
      a.Reports result) ∧
      ∃ a err, Analysis.ofSource "(nil" = .ok a ∧ a.tokens.errorTokens = [] ∧
        a.Reports (.error err) := by
  constructor
  · obtain ⟨t, ht⟩ := (ofSource_reports "(#1 \"").2 (by decide)
    obtain ⟨a, result, ha, htokens, -, hreports⟩ := (ofSource_reports "(#1 \"").1 t ht
    have herrors : (tokenize "(#1 \"").errorTokens.length = 2 := by decide +kernel
    refine ⟨a, result, ha, ?_, hreports⟩
    rw [htokens, eq_tokenize_of_lex ht, herrors]
  · obtain ⟨t, ht⟩ := (ofSource_reports "(nil").2 (by decide)
    obtain ⟨a, result, ha, htokens, hparse, hreports⟩ := (ofSource_reports "(nil").1 t ht
    obtain rfl := eq_tokenize_of_lex ht
    have herrors : (tokenize "(nil").errorTokens = [] := by decide +kernel
    cases result with
    | error err => exact ⟨a, err, ha, by rw [htokens, herrors], hreports⟩
    | ok ast =>
        have hsentence := @sentence_of_parse _ ((tokenize "(nil").tokens.toList.take 2)
          ⟨.eof, ⟨1, 5, 4⟩⟩ (by decide +kernel) rfl (by decide +kernel) ast hparse
        exact absurd (sentence_iff_run.mp hsentence) (by decide +kernel)

end LoxReader
