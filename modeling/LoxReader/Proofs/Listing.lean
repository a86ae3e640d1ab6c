/-
  `Proofs.Listing`: sources with the same listing.

  The listing tells what each token stands for, but no offset and no index into a table.  What
  tokens stand for determines their kinds, the indices among them, since these are given in
  the order of the tokens.  So where there is no lexical error, sources with the same listing
  hold the same expression, or are refused alike.  The main statement is
  `Analysis.sameListing`.
-/
import LoxReader.Proofs.Ast.Order
import LoxReader.Proofs.Respacing
import LoxReader.Proofs.Tokenization.Blanking
import LoxReader.Proofs.Tokenization.Decoding

set_option autoImplicit false

namespace LoxReader

/-! ## Tokens with the same rows -/

/-- A lexeme that stands for this.  What is no token is taken for a quote that is left open. -/
def Content.lexeme : Content → Lexeme
  | .symbol s => .symbol s
  | .identifier spelling => .word spelling.toList
  | .string body => .quoted body.toList
  | .number value => .digits value.toNat.repr.toList
  | .keyword k => .word k.spelling.toList
  | .error => .unclosed []
  | .eof => .unclosed []

/-- A token of a lexeme is also one of the lexeme that its content has. -/
theorem Denotes.content_lexeme {tables : Tables} {l : Lexeme} {kind : TokenKind}
    {content : Content} (h : Denotes tables l kind) (hcontent : tables.content kind = .ok content) :
    Denotes tables content.lexeme kind := by
  cases h with
  | symbol =>
      obtain rfl := Except.ok.inj hcontent
      exact .symbol
  | keyword hk _ =>
      obtain rfl := Except.ok.inj hcontent
      exact .keyword hk rfl
  | identifier hnone hid =>
      obtain ⟨spelling, hspelling, rfl⟩ := exists_of_map_eq_ok hcontent
      obtain rfl := Except.ok.inj (hspelling.symm.trans hid)
      rw [Content.lexeme, String.toList_ofList]
      exact .identifier hnone hid
  | number hid _ =>
      obtain ⟨value, hvalue, rfl⟩ := exists_of_map_eq_ok hcontent
      exact .number hvalue (digitsValue_repr _).symm
  | string hid =>
      obtain ⟨body, hbody, rfl⟩ := exists_of_map_eq_ok hcontent
      rw [Content.lexeme]
      exact .string (by rw [String.ofList_toList, hbody])
  | _ =>
      obtain rfl := Except.ok.inj hcontent
      exact .unclosed

/-- Tokens of lexemes are also those of the lexemes that their rows have. -/
theorem forall₂_denotes_lexeme {tables : Tables} {ls : List Lexeme} {ts : List Token}
    {rows : List Row} (h : List.Forall₂ (Denotes tables) ls (ts.map Token.kind))
    (hrows : List.Forall₂ (fun token row => tables.row token = .ok row) ts rows) :
    List.Forall₂ (Denotes tables) (rows.map fun row => row.content.lexeme)
      (ts.map Token.kind) := by
  induction hrows generalizing ls with
  | nil => exact .nil
  | cons hrow _ ih =>
      obtain ⟨content, hcontent, rfl⟩ := exists_of_map_eq_ok hrow
      obtain ⟨l, ls, hl, hls, rfl⟩ := List.forall₂_cons_right_iff.mp h
      exact .cons (hl.content_lexeme hcontent) (ih hls)

theorem error_not_mem_kinds {source : String} (herrors : (tokenize source).errors = #[]) :
    TokenKind.error ∉ (tokenize source).tokens.toList.map Token.kind := by
  have hnone := (tokenize_paired source).errorTokens_eq_nil_iff.mpr herrors
  rw [Tokenization.errorTokens, List.filter_eq_nil_iff] at hnone
  intro hmem
  obtain ⟨token, htoken, hkind⟩ := List.mem_map.mp hmem
  exact hnone token htoken (decide_eq_true hkind)

/-- What is read of a source without errors is told by the rows of its tokens. -/
theorem gist_of_shows {source : String} {rows : List Row} (h : (tokenize source).Shows rows)
    (herrors : (tokenize source).errors = #[]) :
    (tokenize source).gist = Gist.ofLexemes (rows.dropLast.map fun row => row.content.lexeme) := by
  obtain ⟨ts, eof, front, last, htokens, rfl, -, hdenotes, hfront⟩ := exists_rows_of_shows h
  have hkinds := error_not_mem_kinds herrors
  rw [htokens, List.map_append, List.mem_append, not_or] at hkinds
  have hlexemes := forall₂_denotes_lexeme hdenotes hfront
  rw [List.dropLast_concat, gist_tokenize, Gist.ofLexemes]
  rw [Gist.foldl_add_eq hkinds.1 hdenotes hlexemes]

/-- Tokens of the same kinds that have the same rows are in the same lines and columns. -/
theorem Tokenization.Shows.forall₂_sameSpot {t t' : Tokenization} {rows : List Row}
    (h : t.Shows rows) (h' : t'.Shows rows)
    (hkinds : t'.tokens.toList.map Token.kind = t.tokens.toList.map Token.kind) :
    List.Forall₂ Token.SameSpot t.tokens.toList t'.tokens.toList := by
  rw [Shows] at h h'
  generalize t.tokens.toList = ts at h hkinds
  generalize t'.tokens.toList = ts' at h' hkinds
  induction h generalizing ts' with
  | nil =>
      cases h'
      exact .nil
  | cons hrow _ ih =>
      obtain ⟨token', ts', hrow', hrows', rfl⟩ := List.forall₂_cons_right_iff.mp h'
      obtain ⟨hkind, hkinds⟩ := List.cons.inj hkinds
      obtain ⟨content, -, rfl⟩ := exists_of_map_eq_ok hrow
      obtain ⟨content', -, hsame⟩ := exists_of_map_eq_ok hrow'
      obtain ⟨-, hline, hcolumn⟩ := Row.mk.inj hsame
      exact .cons ⟨hkind, hline, hcolumn⟩ (ih ts' hrows' hkinds)

/-! ## Results in the same lines and columns -/

/-- The trees have the same slots but for offsets. -/
structure Ast.SameSpots (a b : Ast) : Prop where
  root : b.root = a.root
  expr : b.expr = a.expr
  placeless : b.arena.placeless = a.arena.placeless
  places : List.Forall₂ (fun n n' => n.value.loc.SameSpot n'.value.loc) a.arena.nodes.toList
    b.arena.nodes.toList

/-- The errors are at tokens of the same number and tag in the same line and column, and the
same was needed. -/
structure ParseError.SameSpot (err err' : ParseError) : Prop where
  position : err'.position = err.position
  found : err'.found = err.found
  kind : err.kind.Alike Location.SameSpot err'.kind
  loc : err.loc.SameSpot err'.loc

section Tokens

variable {ts ts' : List Token} (hsame : List.Forall₂ Token.SameSpot ts ts')

include hsame

theorem map_kind_eq_of_sameSpot : ts'.map Token.kind = ts.map Token.kind := by
  induction hsame with
  | nil => rfl
  | cons hfirst _ ih => rw [List.map_cons, List.map_cons, hfirst.kind, ih]

theorem Corresponds.sameSpot {loc loc' : Location} (h : Corresponds ts ts' loc loc') :
    loc.SameSpot loc' := by
  obtain ⟨i, token, token', htoken, htoken', rfl, rfl⟩ := h
  obtain ⟨hi, rfl⟩ := List.getElem?_eq_some_iff.mp htoken
  obtain ⟨hi', rfl⟩ := List.getElem?_eq_some_iff.mp htoken'
  exact (hsame.get hi hi').place

theorem ParseError.Alike.sameSpot {err err' : ParseError} (h : err.Alike err' ts ts') :
    err.SameSpot err' :=
  ⟨h.position, h.found, h.kind.mono (Corresponds.sameSpot hsame), h.loc.sameSpot hsame⟩

end Tokens

/-- Tokens in the same lines and columns are parsed as trees with the same nodes there. -/
theorem Ast.sameSpots_of_parse {source source' : String} {a b : Ast}
    (hsame : List.Forall₂ Token.SameSpot (tokenize source).tokens.toList
      (tokenize source').tokens.toList)
    (ha : (tokenize source).parse = .ok (.ok a)) (hb : (tokenize source').parse = .ok (.ok b)) :
    a.SameSpots b := by
  obtain ⟨ts, eof, htokens, heof, hts, -⟩ := tokenize_denotes source
  obtain ⟨ts', eof', htokens', heof', hts', -⟩ := tokenize_denotes source'
  rw [htokens, htokens'] at hsame
  obtain ⟨front, back, happend, hfront, hback⟩ := exists_of_append_forall₂ hsame
  obtain ⟨rfl, -⟩ := List.append_inj' happend hback.length_eq
  obtain ⟨e, he⟩ := sentence_of_parse htokens heof hts ha
  obtain ⟨e', he', hbare⟩ := he.of_kinds (map_kind_eq_of_sameSpot hfront)
  obtain ⟨first, a', hfirst, ha', harena, hroot, hexpr⟩ := parse_eq_of_derives htokens heof hts he
  obtain ⟨first', b', hfirst', hb', harena', hroot', hexpr'⟩ :=
    parse_eq_of_derives htokens' heof' hts' he'
  obtain rfl := Except.ok.inj (Except.ok.inj (ha'.symm.trans ha))
  obtain rfl := Except.ok.inj (Except.ok.inj (hb'.symm.trans hb))
  have hlead : e'.lead = e.lead := by rw [← e'.lead_bare, hbare, e.lead_bare]
  have htop : first.loc.SameSpot first'.loc := by
    cases hfront with
    | nil => cases hfirst
    | cons hspot _ =>
        obtain rfl := Option.some.inj hfirst
        obtain rfl := Option.some.inj hfirst'
        exact hspot.place
  have hnodes := he.gives.forall₂ he'.gives (hfront.imp fun _ _ h => ⟨h.kind, h.place⟩)
  have hvalues : List.Forall₂ (fun x y : Entry => x.loc.SameSpot y.loc)
      (a'.arena.nodes.toList.map Node.value) (b'.arena.nodes.toList.map Node.value) := by
    rw [harena, harena', e.values_arena, e'.values_arena]
    exact .cons htop (hnodes.imp fun _ _ h => h.2)
  rw [List.forall₂_map_left_iff, List.forall₂_map_right_iff] at hvalues
  refine ⟨hroot'.trans hroot.symm, by rw [hexpr', hexpr, hlead], ?_, hvalues⟩
  rw [harena, harena']
  exact Expr.placeless_arena hbare first.loc first'.loc

/-! ## Sources with the same listing -/

/-- Both sources hold the same expression, with the nodes in the same lines and columns, or both
are refused at the same token, in the same line and column, for the same reason. -/
inductive Analysis.SameSpots (a b : Analysis) : Prop
  | expression {ast ast' : Ast} {text : String} : a.ast = some ast → b.ast = some ast' →
      a.sexp = .ok (some text) → b.sexp = .ok (some text) → ast.SameSpots ast' → SameSpots a b
  | error {err err' : ParseError} : a.tokens.parse = .ok (.error err) →
      b.tokens.parse = .ok (.error err') → a.diagnostics = [err.diagnostic] →
        b.diagnostics = [err'.diagnostic] → err.SameSpot err' → SameSpots a b

/-- The tokens of both sources stand for the same, in the same lines and columns, and both
sources have lexical errors or neither has; and if neither has, both are parsed alike. -/
structure Analysis.SameListing (a b : Analysis) : Prop where
  rows : ∃ rows, a.tokens.Shows rows ∧ b.tokens.Shows rows
  hasError : b.tokens.hasError = a.tokens.hasError
  sameSpots : a.tokens.hasError = false → a.SameSpots b

namespace Analysis

theorem tokens_of_ofSource {source : String} {a : Analysis} (h : ofSource source = .ok a) :
    lex source = .ok (tokenize source) ∧ a.tokens = tokenize source := by
  cases hlex : lex source with
  | error f =>
      rw [ofSource, hlex] at h
      cases h
  | ok t =>
      obtain rfl := eq_tokenize_of_lex hlex
      obtain ⟨result, hparse⟩ := exists_parse source
      obtain ⟨a', ha', htokens, -⟩ := exists_ofSource hlex hparse
      obtain rfl := Except.ok.inj (ha'.symm.trans h)
      exact ⟨rfl, htokens⟩

theorem listing_eq_ok_iff {a : Analysis} {text : String} :
    a.listing = .ok text ↔ a.tokens.listing = .ok text := by
  rw [listing]
  cases a.tokens.listing <;> simp

variable {source source' : String} {a b : Analysis}

/-- Sources without lexical errors whose tokens have the same rows are parsed alike. -/
theorem sameSpots_of_shows (ha : ofSource source = .ok a) (hb : ofSource source' = .ok b)
    {rows : List Row} (hrows : a.tokens.Shows rows) (hrows' : b.tokens.Shows rows)
    (herrors : a.tokens.errors = #[]) (herrors' : b.tokens.errors = #[]) : a.SameSpots b := by
  obtain ⟨hlex, htokens⟩ := tokens_of_ofSource ha
  obtain ⟨hlex', htokens'⟩ := tokens_of_ofSource hb
  rw [htokens] at hrows herrors
  rw [htokens'] at hrows' herrors'
  have hgist : (tokenize source').gist = (tokenize source).gist :=
    (gist_of_shows hrows' herrors').trans (gist_of_shows hrows herrors).symm
  have hsame := hrows.forall₂_sameSpot hrows' (congrArg Gist.kinds hgist)
  obtain ⟨a', b', ha', hb', -, -, hagrees⟩ := analysedAlike_of_gist hlex hlex' herrors hgist
  obtain rfl := Except.ok.inj (ha'.symm.trans ha)
  obtain rfl := Except.ok.inj (hb'.symm.trans hb)
  cases hagrees with
  | expression hclean hclean' htext htext' =>
      obtain ⟨-, -, ast, hast, hparse⟩ := parse_of_clean ha hclean
      obtain ⟨-, -, ast', hast', hparse'⟩ := parse_of_clean hb hclean'
      rw [htokens] at hparse
      rw [htokens'] at hparse'
      exact .expression hast hast' htext htext' (Ast.sameSpots_of_parse hsame hparse hparse')
  | error hreport hreport' hparse hparse' halike =>
      rw [htokens, htokens'] at halike
      exact .error hparse hparse' hreport hreport' (halike.sameSpot hsame)

/-- Sources with the same listing have the same tokens in the same lines and columns, and are
parsed alike if there is no lexical error. -/
theorem sameListing {text : String} (ha : ofSource source = .ok a) (hb : ofSource source' = .ok b)
    (hlisting : a.listing = .ok text) (hlisting' : b.listing = .ok text) : a.SameListing b := by
  obtain ⟨rows, hrows, htext⟩ :=
    Tokenization.exists_rows_of_listing (listing_eq_ok_iff.mp hlisting)
  obtain ⟨rows', hrows', htext'⟩ :=
    Tokenization.exists_rows_of_listing (listing_eq_ok_iff.mp hlisting')
  have hplain := plain_of_shows ((tokens_of_ofSource ha).2 ▸ hrows)
  have hplain' := plain_of_shows ((tokens_of_ofSource hb).2 ▸ hrows')
  obtain ⟨rfl, hflag⟩ := Row.listing_inj hplain hplain' (htext.symm.trans htext')
  refine ⟨⟨rows, hrows, hrows'⟩, hflag.symm, fun hnone => ?_⟩
  have herrors : ∀ {t : Tokenization}, t.hasError = false → t.errors = #[] := fun h => by
    simpa [Tokenization.hasError] using h
  exact sameSpots_of_shows ha hb hrows hrows' (herrors hnone) (herrors (hflag.symm.trans hnone))

/-- A string that looks like the end of a listing, in front of a number with a needless zero
and of one with a space behind it. -/
theorem sameListing_padded :
    ∃ a b text, ofSource "\"\x7d\n0\n\"+07//é" = .ok a ∧
      ofSource "\"\x7d\n0\n\"+7 //e" = .ok b ∧ a.listing = .ok text ∧ b.listing = .ok text ∧
        a.tokens.hasError = false ∧ a.SameListing b := by
  obtain ⟨a, ha, -⟩ := @exists_ofSource_runs "\"\x7d\n0\n\"+07//é" (by decide)
  obtain ⟨b, hb, -⟩ := @exists_ofSource_runs "\"\x7d\n0\n\"+7 //e" (by decide)
  obtain ⟨-, htokens⟩ := tokens_of_ofSource ha
  obtain ⟨-, htokens'⟩ := tokens_of_ofSource hb
  have hlisting : a.listing = .ok ("\x7bkind: String, line: 1, column: 1, literal: \"\x7d\n" ++
      "0\n\"\x7d\n\x7bkind: Plus, line: 3, column: 2\x7d\n" ++
        "\x7bkind: Number, line: 3, column: 3, literal: 7\x7d\n" ++
          "\x7bkind: Eof, line: 3, column: 8\x7d\n0\n") := by
    rw [listing_eq_ok_iff, htokens]
    decide +kernel
  have hlisting' : b.listing = a.listing := by
    rw [hlisting, listing_eq_ok_iff, htokens']
    decide +kernel
  have hnone : a.tokens.hasError = false := by
    rw [htokens]
    decide +kernel
  have hsame := sameListing ha hb hlisting (hlisting'.trans hlisting)
  exact ⟨a, b, _, ha, hb, hlisting, hlisting'.trans hlisting, hnone, hsame⟩

end Analysis

end LoxReader
