/-
  `Proofs.Reparsing`: printing an expression that was built by hand and parsing the text.

  The text of any expression has the tokens of the expression, and these are parsed, since an
  operand stands wherever one is called for.  But no parentheses are added: what is parsed is
  canonical, and the tokens do not tell where the operators of another expression stood.  So
  the expression comes back if it respects the precedences, and only then.  The main
  statement is `exists_reparses`.
-/
import LoxReader.Proofs.Ast.Precedence
import LoxReader.Proofs.Ast.Term
import LoxReader.Proofs.RoundTrip

set_option autoImplicit false

namespace LoxReader

/-! ## The printed text of a term -/

/-- The lexemes that a term is printed as. -/
def Term.lexemes : Term → List Lexeme
  | .literal value => [value.lexeme]
  | .group inner => .symbol .leftParen :: (inner.lexemes ++ [.symbol .rightParen])
  | .unary op operand => .symbol op.symbol :: operand.lexemes
  | .binary op left right =>
    left.lexemes ++ .blanks [' '] :: .symbol op.symbol :: .blanks [' '] :: right.lexemes

/-- An expression is printed as its term. -/
theorem Expr.Means.prints {tables : Tables} (hquotes : tables.Quoteless) {e : Expr} {m : Term}
    (h : e.Means tables m) : e.Prints tables m.lexemes := by
  induction h with
  | literal hvalue => exact .literal (Literal.prints_lexeme hquotes hvalue)
  | group _ ih => exact .group ih
  | unary _ ih => exact .unary ih
  | binary _ _ ihl ihr => exact .binary ihl ihr

/-! ## Reading the text of a term -/

/-- A reserved word denotes itself. -/
theorem Denotes.eq_keyword {tables : Tables} {k : Keyword} {kind : TokenKind}
    (h : Denotes tables (.word k.spelling.toList) kind) : kind = .keyword k := by
  generalize hword : k.spelling.toList = word at h
  cases h with
  | @keyword _ other _ hother =>
      have hspelling := String.toList_inj.mp (hword.trans hother.symm)
      have hfound := other.ofSpelling?_spelling
      rw [← hspelling, k.ofSpelling?_spelling] at hfound
      rw [Option.some.inj hfound]
  | identifier hnone _ => exact absurd hword (hnone k k.mem_all)

/-- What a printed value denotes is a literal of this value. -/
theorem Value.exists_literal {tables : Tables} {value : Value} {kind : TokenKind}
    (h : Denotes tables value.lexeme kind) :
    ∃ lit : Literal, lit.kind = kind ∧ lit.value tables = .ok value := by
  cases value with
  | number value =>
      cases h with
      | @number _ id stored hid hstored =>
          rw [digitsValue_repr] at hstored
          obtain rfl := UInt64.toNat_inj.mp hstored
          exact ⟨.number id, rfl, by rw [Literal.value, hid]; rfl⟩
      | overflow hvalue =>
          rw [digitsValue_repr] at hvalue
          exact absurd value.toNat_lt (Nat.not_lt.mpr hvalue)
  | string body =>
      cases h with
      | @string _ id hid =>
          rw [String.ofList_toList] at hid
          exact ⟨.string id, rfl, by rw [Literal.value, hid]; rfl⟩
  | bool value =>
      cases value
      · exact ⟨.bool false, h.eq_keyword.symm, rfl⟩
      · exact ⟨.bool true, h.eq_keyword.symm, rfl⟩
  | nil => exact ⟨.nil, h.eq_keyword.symm, rfl⟩

theorem Denotes.eq_of_symbol {tables : Tables} {s : Symbol} {kind : TokenKind}
    (h : Denotes tables (.symbol s) kind) : kind = .symbol s := by
  cases h
  rfl

/-- What a printed term denotes is an expression with this term. -/
theorem Term.exists_means {tables : Tables} {m : Term} {kinds : List TokenKind}
    (h : List.Forall₂ (Denotes tables) (Lexeme.proper m.lexemes) kinds) :
    ∃ e : Expr, e.kinds = kinds ∧ e.Means tables m := by
  induction m generalizing kinds with
  | literal value =>
      rw [lexemes, Lexeme.proper, List.filter_cons_of_pos (by simp [value.isTrivia_lexeme])] at h
      obtain ⟨kind, _, hkind, hnil, rfl⟩ := List.forall₂_cons_left_iff.mp h
      cases hnil
      obtain ⟨lit, rfl, hvalue⟩ := Value.exists_literal hkind
      exact ⟨.literal .unset lit, rfl, .literal hvalue⟩
  | group inner ih =>
      rw [lexemes, Lexeme.proper, List.filter_cons_of_pos rfl, List.filter_append] at h
      obtain ⟨opening, _, hopening, hrest, rfl⟩ := List.forall₂_cons_left_iff.mp h
      obtain ⟨inside, closings, rfl, hinside, hclosings⟩ := exists_of_append_forall₂ hrest
      obtain ⟨closing, _, hclosing, hnil, rfl⟩ := List.forall₂_cons_left_iff.mp hclosings
      cases hnil
      obtain ⟨e, rfl, he⟩ := ih hinside
      exact ⟨.group .unset e, by rw [hopening.eq_of_symbol, hclosing.eq_of_symbol]; rfl, .group he⟩
  | unary op operand ih =>
      rw [lexemes, Lexeme.proper, List.filter_cons_of_pos rfl] at h
      obtain ⟨first, _, hfirst, hrest, rfl⟩ := List.forall₂_cons_left_iff.mp h
      obtain ⟨e, rfl, he⟩ := ih hrest
      exact ⟨.unary .unset op e, by rw [hfirst.eq_of_symbol]; rfl, .unary he⟩
  | binary op left right ihl ihr =>
      rw [lexemes, Lexeme.proper, List.filter_append] at h
      obtain ⟨before, behind, rfl, hbefore, hbehind⟩ := exists_of_append_forall₂ h
      obtain ⟨middle, _, hmiddle, hrest, rfl⟩ := List.forall₂_cons_left_iff.mp hbehind
      obtain ⟨e, rfl, he⟩ := ihl hbefore
      obtain ⟨e', rfl, he'⟩ := ihr hrest
      exact ⟨.binary .unset op e e', by rw [hmiddle.eq_of_symbol]; rfl, .binary he he'⟩

/-! ## Printing and parsing -/

/-- A text is read without errors if none of its tokens is one. -/
theorem errors_eq_of_kinds {source : String} {ts : List Token} {eof : Token}
    (htokens : (tokenize source).tokens.toList = ts ++ [eof]) (heof : eof.kind = .eof)
    (hkinds : TokenKind.error ∉ ts.map Token.kind) : (tokenize source).errors = #[] := by
  refine Array.toList_eq_nil_iff.mp (List.eq_nil_iff_forall_not_mem.mpr fun e he => ?_)
  have htoken := (tokenize_accounted source).errors e he
  rw [htokens, List.mem_append, List.mem_singleton] at htoken
  rcases htoken with htoken | rfl
  · exact hkinds (List.mem_map_of_mem htoken)
  · cases heof

/-- The printed text of a term is read without errors and parsed as an expression, which has
the same term exactly if the printed one was canonical. -/
theorem Expr.Means.exists_parse {tables : Tables} (hquotes : tables.Quoteless) {e : Expr}
    {m : Term} (h : e.Means tables m) {printed : String}
    (hprinted : printed.toList = m.lexemes.flatMap Lexeme.text) :
    (tokenize printed).errors = #[] ∧ ∃ b m', (tokenize printed).parse = .ok (.ok b) ∧
      b.term (tokenize printed).tables = .ok m' ∧ (m' = m ↔ e.Canonical) := by
  obtain ⟨ts, eof, htokens, heof, hts, hdenotes⟩ := tokenize_denotes printed
  rw [hprinted, (h.prints hquotes).lexemes_eq] at hdenotes
  obtain ⟨again, hkinds, hagain⟩ := Term.exists_means hdenotes
  obtain ⟨e', he'⟩ : Sentence ts := sentence_iff_run.mpr (again.run_eq hkinds.symm [])
  obtain ⟨b, loc, hparse, harena, hroot, hexpr⟩ := parse_of_derives htokens heof hts he'
  have hhas : ∀ token ∈ ts, (tokenize printed).tables.Has token.kind := fun token htoken =>
    (tokenize_reads printed).has token (htokens ▸ List.mem_append_left _ htoken)
  obtain ⟨m', hm'⟩ := e'.exists_means fun lit hlit => he'.has_of_mem_literals hhas hlit
  refine ⟨errors_eq_of_kinds htokens heof (hkinds ▸ again.error_not_mem_kinds), b, m', hparse,
    hm'.term_eq (Ast.isTree_of_arena harena hroot hexpr), ?_, ?_⟩
  · rintro rfl
    exact hm'.canonical h he'.canonical.1
  · intro hcanonical
    obtain ⟨e'', he'', hbare⟩ := (h.canonical hagain hcanonical).exists_derives hkinds.symm
    obtain rfl := Derives.unique hts he' (.expression (he''.lift again.level_le (Nat.le_refl 4)))
    have hfold := hm'.fold_eq
    rw [Expr.fold_eq_of_bare hbare, hagain.fold_eq] at hfold
    exact (Except.ok.inj hfold).symm

end LoxReader
