/-
  `Proofs.Totality`: a source that is short enough is analysed, printed and reported.

  Nothing on the way is refused: the tracker finds all places, the tokens are taken and the
  nodes laid out one by one, every payload is in its table, every node has its operands, and
  every label points into the source.  The main statement is `exists_ofSource_runs`.
-/
import LoxReader.Proofs.Ast.Shapes
import LoxReader.Proofs.Building
import LoxReader.Proofs.Expr.ViablePrefix
import LoxReader.Proofs.Parse
import LoxReader.Proofs.Tokenization.Inventory
import LoxReader.Proofs.Tokenization.Tracking
import LoxReader.Session

set_option autoImplicit false

namespace LoxReader

/-! ## Places of errors -/

/-- The open parentheses stand where tokens of this kind do. -/
theorem exists_token_of_mem_openings {openings : List Location} {ts : List Token}
    {opening : Location} (h : opening ∈ ts.foldl openingsAfter openings) :
    opening ∈ openings ∨
      ∃ token ∈ ts, token.kind = .symbol .leftParen ∧ opening = token.loc := by
  induction ts generalizing openings with
  | nil => exact .inl h
  | cons token rest ih =>
      rcases ih h with hafter | ⟨token', hmem, htoken'⟩
      · unfold openingsAfter at hafter
        split at hafter
        · rename_i hkind
          rcases List.mem_cons.mp hafter with heq | hold
          · exact .inr ⟨token, List.mem_cons_self, hkind, heq⟩
          · exact .inl hold
        · exact .inl (List.mem_of_mem_tail hafter)
        · exact .inl hafter
      · exact .inr ⟨token', List.mem_cons_of_mem _ hmem, htoken'⟩

/-- Tokens that are not parsed stop the reading of them. -/
theorem exists_stuck_of_parse {t : Tokenization} {ts : List Token} {eof : Token}
    {err : ParseError} (htokens : t.tokens.toList = ts ++ [eof]) (heof : eof.kind = .eof)
    (hparse : t.parse = .ok (.error err)) :
    ∃ c : Cursor, c.tokens = ts ++ [eof] ∧ c.position = 0 ∧ c.Stuck (.operand []) err := by
  obtain ⟨c, hcursor, hc, hposition⟩ := Cursor.exists_ofTokens heof ts
  refine ⟨c, hc, hposition, Parser.expression_stuck ?_⟩
  unfold Tokenization.parse at hparse
  rw [htokens, hcursor] at hparse
  simp only at hparse
  split at hparse
  · rename_i err' hread
    cases hparse
    exact hread
  · split at hparse <;> cases hparse

/-- The labels of an error stand at places of the tokens. -/
theorem ParseError.IsFirst.exists_token_of_label {err : ParseError} {ts : List Token}
    {eof : Token} (h : err.IsFirst ts eof) {label : Label}
    (hlabel : label ∈ err.diagnostic.labels) : ∃ token ∈ ts ++ [eof], label.loc = token.loc := by
  obtain ⟨token, htoken, -, hloc⟩ := h.token
  have hmem : token ∈ ts ++ [eof] := List.mem_of_getElem? htoken
  unfold diagnostic at hlabel
  split at hlabel
  · obtain rfl := List.mem_singleton.mp hlabel
    exact ⟨token, hmem, hloc⟩
  · rename_i opening hkind
    obtain ⟨-, hopening⟩ := (h.unclosedParen_iff opening).mp hkind
    have hopen : opening ∈ unmatched (ts.take err.position) := List.mem_of_head? hopening
    simp only [Diagnostic.unclosedDelimiter, Diagnostic.withSecondary, Diagnostic.withPrimary,
      Diagnostic.withMessage, Diagnostic.ofCode, List.nil_append, List.cons_append,
      List.mem_cons, List.not_mem_nil, or_false] at hlabel
    rcases hlabel with rfl | rfl
    · exact ⟨token, hmem, hloc⟩
    · rcases exists_token_of_mem_openings hopen with hnone | ⟨token', htoken', -, hloc'⟩
      · cases hnone
      · exact ⟨token', List.mem_append_left _ (List.mem_of_mem_take htoken'), hloc'⟩
  · obtain rfl := List.mem_singleton.mp hlabel
    exact ⟨token, hmem, hloc⟩

/-- The labels of a lexical error stand at its place. -/
theorem LexError.loc_of_label {e : LexError} {label : Label}
    (hlabel : label ∈ e.diagnostic.labels) : label.loc = e.loc := by
  unfold diagnostic at hlabel
  split at hlabel <;> · obtain rfl := List.mem_singleton.mp hlabel; rfl

/-! ## Results -/

/-- Where reading and parsing give something, there is an analysis, with nothing in it but
what they give. -/
theorem Analysis.exists_ofSource {source : String} {t : Tokenization}
    {result : Except ParseError Ast} (hlex : lex source = .ok t) (hparse : t.parse = .ok result) :
    ∃ a, ofSource source = .ok a ∧ a.tokens = t ∧
      (∀ ast, a.ast = some ast → t.parse = .ok (.ok ast)) ∧
        ∀ d ∈ a.diagnostics, (∃ e ∈ t.errors.toList, d = e.diagnostic) ∨
          ∃ e, t.parse = .ok (.error e) ∧ d = e.diagnostic := by
  unfold ofSource
  simp only [hlex]
  split
  · rw [hparse]
    cases result with
    | error e =>
        refine ⟨_, rfl, rfl, fun ast h => (by cases h), fun d hd => .inr ⟨e, rfl, ?_⟩⟩
        exact List.mem_singleton.mp hd
    | ok ast =>
        refine ⟨_, rfl, rfl, ?_, fun d hd => (by cases hd)⟩
        rintro _ ⟨rfl⟩
        rfl
  · refine ⟨_, rfl, rfl, fun ast h => (by cases h), fun d hd => .inl ?_⟩
    obtain ⟨e, he, rfl⟩ := List.mem_map.mp hd
    exact ⟨e, he, rfl⟩

/-- The tokens of a source are parsed, or there is an error. -/
theorem exists_parse (source : String) : ∃ result, (tokenize source).parse = .ok result := by
  obtain ⟨ts, htokens, hts⟩ := (tokenize_reads source).exists_eof
  rcases Classical.em (Sentence ts) with ⟨e, he⟩ | hnot
  · obtain ⟨a, loc, hparse, -⟩ := parse_of_derives htokens rfl hts he
    exact ⟨_, hparse⟩
  · obtain ⟨err, hparse⟩ := parse_of_not_sentence htokens rfl hts hnot
    exact ⟨_, hparse⟩

/-- The arena is that of an expression, and the tables have the payloads of its literals. -/
def Ast.Backed (a : Ast) (tables : Tables) : Prop :=
  ∃ e loc, a.arena = Expr.arena loc e ∧ a.IsTree e ∧ ∀ value ∈ e.literals, tables.Has value.kind

/-- What is parsed of a source is an expression with the payloads of its literals. -/
theorem backed_of_parse {source : String} {a : Ast}
    (h : (tokenize source).parse = .ok (.ok a)) : a.Backed (tokenize source).tables := by
  have hreads := tokenize_reads source
  obtain ⟨ts, htokens, hts⟩ := hreads.exists_eof
  obtain ⟨e, he⟩ := sentence_of_parse htokens rfl hts h
  obtain ⟨first, a', -, hparse, harena, hroot, hexpr⟩ := parse_eq_of_derives htokens rfl hts he
  obtain rfl : a' = a := Except.ok.inj (Except.ok.inj (hparse.symm.trans h))
  refine ⟨e, first.loc, harena, Ast.isTree_of_arena harena hroot hexpr, ?_⟩
  refine fun value hvalue => he.has_of_mem_literals (fun token htoken => ?_) hvalue
  refine hreads.has token ?_
  rw [htokens]
  exact List.mem_append_left _ htoken

namespace Ast.Backed

variable {a : Ast} {tables : Tables}

/-- Each node has its operands, and each literal its payload. -/
theorem exists_view (h : a.Backed tables) {id : Nat} (hid : id < a.size) :
    ∃ loc shape, a.view id = .ok (loc, shape) ∧
      ∀ value, shape = .literal value → tables.Has value.kind := by
  obtain ⟨e, loc, harena, -, hliterals⟩ := h
  obtain ⟨loc', shape, hview, hshape⟩ := Ast.exists_view harena hid
  exact ⟨loc', shape, hview, fun value hvalue => hliterals value (hshape value hvalue)⟩

/-- Literals can be written, and so can the expression if all other parts can. -/
theorem exists_text (h : a.Backed tables) {write : Shape String → Except OutOfRange String}
    (hroot : ∀ expr, write (.root expr) = .ok expr)
    (hliteral : ∀ value, write (.literal value) = value.text tables)
    (hparts : ∀ shape, (∀ value, shape ≠ .literal value) → ∃ text, write shape = .ok text) :
    ∃ text, a.foldAt (fun _ shape => ofTable (write shape)) a.root = .ok text := by
  obtain ⟨e, -, -, htree, hliterals⟩ := h
  rw [htree.foldAt_root fun _ expr => by rw [hroot]; rfl]
  refine e.exists_fold (fun _ value hvalue => ?_) (fun _ shape hshape => ?_)
  · obtain ⟨text, htext⟩ := Literal.exists_text (hliterals value hvalue)
    exact ⟨text, by rw [hliteral, htext]; rfl⟩
  · obtain ⟨text, htext⟩ := hparts shape hshape
    exact ⟨text, by rw [htext]; rfl⟩

theorem exists_sexp (h : a.Backed tables) : ∃ text, a.sexp tables = .ok text := by
  refine h.exists_text (fun _ => rfl) (fun _ => rfl) (fun shape hshape => ?_)
  cases shape with
  | literal value => exact absurd rfl (hshape value)
  | _ => exact ⟨_, rfl⟩

theorem exists_sourceText (h : a.Backed tables) : ∃ text, a.sourceText tables = .ok text := by
  refine h.exists_text (fun _ => rfl) (fun _ => rfl) (fun shape hshape => ?_)
  cases shape with
  | literal value => exact absurd rfl (hshape value)
  | _ => exact ⟨_, rfl⟩

end Ast.Backed

/-! ## Texts -/

namespace Analysis

variable {a : Analysis}

theorem exists_listing (h : ∀ token ∈ a.tokens.tokens.toList, a.tokens.tables.Has token.kind) :
    ∃ text, a.listing = .ok text := by
  obtain ⟨text, htext⟩ := Tokenization.exists_listing h
  exact ⟨text, by simp only [listing, htext]⟩

theorem exists_sexp (h : ∀ ast, a.ast = some ast → ast.Backed a.tokens.tables) :
    ∃ text, a.sexp = .ok text ∧ text.isSome = a.ast.isSome := by
  cases hast : a.ast with
  | none => exact ⟨none, by simp only [sexp, hast], rfl⟩
  | some ast =>
      obtain ⟨text, htext⟩ := (h ast hast).exists_sexp
      exact ⟨some text, by simp only [sexp, hast, htext], rfl⟩

theorem exists_sourceText (h : ∀ ast, a.ast = some ast → ast.Backed a.tokens.tables) :
    ∃ text, a.sourceText = .ok text ∧ text.isSome = a.ast.isSome := by
  cases hast : a.ast with
  | none => exact ⟨none, by simp only [sourceText, hast], rfl⟩
  | some ast =>
      obtain ⟨text, htext⟩ := (h ast hast).exists_sourceText
      exact ⟨some text, by simp only [sourceText, hast, htext], rfl⟩

theorem exists_fullText {listing : String} {sexp : Option String}
    (hlisting : a.listing = .ok listing) (hsexp : a.sexp = .ok sexp) :
    ∃ text, a.fullText = .ok text := by
  unfold fullText
  simp only [hlisting, hsexp]
  cases sexp with
  | none => exact ⟨_, rfl⟩
  | some text => exact ⟨_, rfl⟩

end Analysis

/-! ## Reports -/

/-- The labels of what is reported about a source stand at places of its tokens. -/
theorem exists_token_of_label {source : String} {d : Diagnostic}
    (h : (∃ e ∈ (tokenize source).errors.toList, d = e.diagnostic) ∨
      ∃ e, (tokenize source).parse = .ok (.error e) ∧ d = e.diagnostic)
    {label : Label} (hlabel : label ∈ d.labels) :
    ∃ token ∈ (tokenize source).tokens.toList, label.loc = token.loc := by
  rcases h with ⟨e, he, rfl⟩ | ⟨e, he, rfl⟩
  · exact ⟨_, (tokenize_accounted source).errors e he, LexError.loc_of_label hlabel⟩
  · obtain ⟨ts, htokens, -⟩ := (tokenize_reads source).exists_eof
    obtain ⟨c, hc, hposition, hstuck⟩ := exists_stuck_of_parse htokens rfl he
    obtain ⟨token, htoken, hloc⟩ := (hstuck.isFirst hc hposition rfl).exists_token_of_label hlabel
    exact ⟨token, htokens ▸ htoken, hloc⟩

/-- The labels of what is reported about a source point into it. -/
theorem isIn_of_label {source : String} {d : Diagnostic}
    (h : (∃ e ∈ (tokenize source).errors.toList, d = e.diagnostic) ∨
      ∃ e, (tokenize source).parse = .ok (.error e) ∧ d = e.diagnostic)
    {label : Label} (hlabel : label ∈ d.labels) : label.loc.IsIn source.toList := by
  obtain ⟨token, htoken, hloc⟩ := exists_token_of_label h hlabel
  rw [hloc]
  exact tokenize_isIn source token htoken

theorem length_repr_le {n : Nat} (h : n < Location.fieldLimit) : n.repr.length ≤ 10 := by
  rw [← String.length_toList, Nat.toList_repr, Nat.length_toDigits_le_iff (by decide) (by decide)]
  exact Nat.lt_trans h (by decide)

/-- No line number that can be stored has more than ten digits. -/
theorem Report.gutterWidth_le {labels : List Label} (h : ∀ label ∈ labels, label.loc.Fits) :
    gutterWidth labels ≤ 10 := by
  cases labels with
  | nil => decide
  | cons label rest =>
      obtain ⟨hlabel, hrest⟩ := List.forall_mem_cons.mp h
      have hfold : ∀ width ≤ 10, rest.foldl (fun width l => max width l.loc.line.repr.length)
          width ≤ 10 := by
        clear h hlabel
        induction rest with
        | nil => exact fun width hwidth => hwidth
        | cons label rest ih =>
            obtain ⟨hlabel, hrest⟩ := List.forall_mem_cons.mp hrest
            intro width hwidth
            exact ih hrest _ (Nat.max_le.mpr ⟨hwidth, length_repr_le hlabel.1⟩)
      exact hfold _ (length_repr_le hlabel.1)

/-! ## The whole way -/

/-- Nothing that the analysis of a source, its texts and its reports rest on is refused. -/
structure Analysis.Runs (a : Analysis) (source : String) : Prop where
  /-- A tracker finds the places of the tokens.  It never goes back or stops inside of a
  character, and each place can be stored. -/
  tracks : Tokenization.track source = .ok a.tokens
  /-- The tokens are taken and the nodes are laid out one by one.  The cursor never goes over
  the mark of the end, no move makes a cycle, and there is an index for each node. -/
  builds : ∃ result, a.tokens.parse = .ok result ∧ a.tokens.build = .ok result
  /-- Each token has its payload in the tables. -/
  payloads : ∀ token ∈ a.tokens.tokens.toList, a.tokens.tables.Has token.kind
  /-- There is an index for each entry. -/
  entries : a.tokens.tables.entries < Location.fieldLimit
  /-- Each node has the operands that its form needs, and a literal has its payload. -/
  nodes : ∀ ast, a.ast = some ast → ∀ id < ast.size, ∃ loc shape, ast.view id = .ok (loc, shape) ∧
    ∀ value, shape = .literal value → a.tokens.tables.Has value.kind
  listing : ∃ text, a.listing = .ok text
  sexp : ∃ text, a.sexp = .ok text ∧ text.isSome = a.ast.isSome
  sourceText : ∃ text, a.sourceText = .ok text ∧ text.isSome = a.ast.isSome
  /-- Each label points into the source. -/
  labels : ∀ d ∈ a.diagnostics, ∀ label ∈ d.labels, label.loc.IsIn source.toList
  /-- The lines of a report are not set in by more than the digits of a line number. -/
  gutters : ∀ d ∈ a.diagnostics, Report.gutterWidth d.labels ≤ 10
  /-- The source is answered with its tokens, its list and its reports. -/
  reply : ∀ coloured, ∃ text, Session.reply coloured source = .ok text

/-- A source with fewer bytes than the largest offset has an analysis, and nothing that this,
its texts and its reports rest on is refused. -/
theorem exists_ofSource_runs {source : String}
    (h : source.utf8ByteSize < SourceFault.maxBytes) :
    ∃ a, Analysis.ofSource source = .ok a ∧ a.Runs source := by
  obtain ⟨result, hparse⟩ := exists_parse source
  obtain ⟨a, ha, htokens, hast, hdiagnostics⟩ := Analysis.exists_ofSource (lex_of_lt h) hparse
  have hsize : (tokenize source).tokens.size < Location.fieldLimit := by
    have hlimit : SourceFault.maxBytes + 1 = Location.fieldLimit := rfl
    have hle := size_tokens_le source
    omega
  have hhas := (tokenize_reads source).has
  have hentries := (tokenize_accounted source).entries
  have hbacked : ∀ ast, a.ast = some ast → ast.Backed (tokenize source).tables :=
    fun ast h => backed_of_parse (hast ast h)
  have htracks := Tokenization.track_eq_tokenize h
  have hbuild := build_eq_of_parse (Nat.le_of_lt hsize) hparse
  have hlabels : ∀ d ∈ a.diagnostics, ∀ label ∈ d.labels, label.loc.IsIn source.toList :=
    fun d hd label hlabel => isIn_of_label (hdiagnostics d hd) hlabel
  rw [← htokens] at hhas hentries hsize hbacked htracks hparse hbuild
  obtain ⟨listing, hlisting⟩ := Analysis.exists_listing hhas
  obtain ⟨sexp, hsexp, hsome⟩ := Analysis.exists_sexp hbacked
  obtain ⟨full, hfull⟩ := Analysis.exists_fullText hlisting hsexp
  refine ⟨a, ha, htracks, ⟨result, hparse, hbuild⟩, hhas, Nat.lt_of_le_of_lt hentries hsize,
    fun ast hast id hid => (hbacked ast hast).exists_view hid, ⟨listing, hlisting⟩,
    ⟨sexp, hsexp, hsome⟩, Analysis.exists_sourceText hbacked, hlabels, ?_, fun coloured => ?_⟩
  · intro d hd
    refine Report.gutterWidth_le fun label hlabel => (hlabels d hd label hlabel).fits ?_
    rw [byteSize_toList]
    exact h
  · simp only [Session.reply, ha, hfull]
    exact ⟨_, rfl⟩

/-- A parenthesis that is left open, and an error on the next line. -/
theorem exists_ofSource_runs_openGroup :
    ∃ a, Analysis.ofSource "(\"é\" +\n7 x" = .ok a ∧ a.Runs "(\"é\" +\n7 x" :=
  exists_ofSource_runs (by decide)

end LoxReader
