/-
  `Proofs.Tokenization.ListingLines`: the lines of a listing.

  A token is rendered without a line feed, but for those in the body of a string, which is
  written as it is.  So a listing has a line for each token and one for the flag, and one more
  for each line feed in a string (`lex_listed`).
-/
import LoxReader.Proofs.Tokenization.Decoding

set_option autoImplicit false

namespace LoxReader

/-! ## Lines -/

/-- The lines of a text, without the line feeds.  What stands behind the last line feed is a line
too, if there is anything. -/
def linesOf (text : List Char) : List (List Char) :=
  if (text.splitOn '\n').getLast? = some [] then (text.splitOn '\n').dropLast
  else text.splitOn '\n'

theorem linesOf_concat (text : List Char) : linesOf (text ++ ['\n']) = text.splitOn '\n' := by
  have hsplit : (text ++ ['\n']).splitOn '\n' = text.splitOn '\n' ++ [[]] :=
    List.splitOn_append_cons_self text []
  rw [linesOf, hsplit, List.getLast?_concat, if_pos rfl, List.dropLast_concat]

theorem splitOn_flatMap_append (parts : List (List Char)) (last : List Char) :
    (parts.flatMap (· ++ ['\n']) ++ last).splitOn '\n' =
      parts.flatMap (·.splitOn '\n') ++ last.splitOn '\n' := by
  induction parts with
  | nil => rfl
  | cons part parts ih =>
      rw [List.flatMap_cons, List.append_assoc, List.append_assoc, List.singleton_append,
        List.splitOn_append_cons_self, ih, List.flatMap_cons, List.append_assoc]

theorem length_splitOn (text : List Char) :
    (text.splitOn '\n').length = text.count '\n' + 1 := by
  induction text with
  | nil => rfl
  | cons c text ih =>
      rw [List.splitOn_cons_eq_if_modifyHead, List.count_cons]
      split
      · rw [List.length_cons, ih]
      · rw [List.length_modifyHead, ih, Nat.add_zero]

/-! ## The line feeds of a row -/

/-- The body of a string. -/
def Content.body? : Content → Option String
  | .string body => some body
  | _ => none

theorem feed_not_mem_repr (n : Nat) : '\n' ∉ n.repr.toList := by
  intro hfeed
  cases isDigit_of_mem_repr hfeed

theorem TokenTag.feed_not_mem_name (tag : TokenTag) : '\n' ∉ tag.name.toList := by
  intro hfeed
  cases tag.isAlpha_of_mem_name _ hfeed

theorem Content.count_payloadText {content : Content} (h : content.Plain) :
    content.payloadText.toList.count '\n' =
      content.body?.elim 0 fun body => body.toList.count '\n' := by
  cases content with
  | identifier spelling =>
      have hspelling : '\n' ∉ spelling.toList := fun hfeed => by cases h _ hfeed
      rw [payloadText, String.toList_append, List.count_append, List.count_eq_zero.mpr hspelling]
      rfl
  | string body =>
      rw [payloadText, String.toList_append, String.toList_append, List.count_append,
        List.count_append]
      exact Nat.zero_add _
  | number value =>
      rw [payloadText, String.toList_append, List.count_append,
        List.count_eq_zero.mpr (feed_not_mem_repr _)]
      rfl
  | _ => rfl

/-- A row has the line feeds of the string that it tells of, and no others. -/
theorem Row.count_text {r : Row} (h : r.content.Plain) :
    r.text.toList.count '\n' = r.content.body?.elim 0 fun body => body.toList.count '\n' := by
  rw [← List.append_nil r.text.toList, toList_text]
  simp only [List.count_append]
  rw [List.count_eq_zero.mpr r.content.tag.feed_not_mem_name,
    List.count_eq_zero.mpr (feed_not_mem_repr r.line),
    List.count_eq_zero.mpr (feed_not_mem_repr r.column), Content.count_payloadText h]
  simp

/-! ## The strings of rows -/

/-- What a token stands for has the body that its lexeme has. -/
theorem Denotes.body?_eq {tables : Tables} {l : Lexeme} {kind : TokenKind} {content : Content}
    (h : Denotes tables l kind) (hcontent : tables.content kind = .ok content) :
    content.body? = l.string? := by
  cases h with
  | identifier _ _ =>
      obtain ⟨spelling, -, rfl⟩ := exists_of_map_eq_ok hcontent
      rfl
  | number _ _ =>
      obtain ⟨value, -, rfl⟩ := exists_of_map_eq_ok hcontent
      rfl
  | string hid =>
      obtain ⟨body, hbody, rfl⟩ := exists_of_map_eq_ok hcontent
      exact congrArg some (Except.ok.inj (hbody.symm.trans hid))
  | _ =>
      obtain rfl := Except.ok.inj hcontent
      rfl

theorem filterMap_body?_eq {tables : Tables} {ls : List Lexeme} {ts : List Token}
    {rows : List Row} (h : List.Forall₂ (Denotes tables) ls (ts.map Token.kind))
    (hrows : List.Forall₂ (fun token row => tables.row token = .ok row) ts rows) :
    rows.filterMap (·.content.body?) = ls.filterMap Lexeme.string? := by
  induction hrows generalizing ls with
  | nil =>
      cases h
      rfl
  | cons hrow _ ih =>
      obtain ⟨content, hcontent, rfl⟩ := exists_of_map_eq_ok hrow
      obtain ⟨l, ls, hl, hls, rfl⟩ := List.forall₂_cons_right_iff.mp h
      rw [List.filterMap_cons, List.filterMap_cons, ih hls, hl.body?_eq hcontent]

theorem filterMap_string?_proper (ls : List Lexeme) :
    (Lexeme.proper ls).filterMap Lexeme.string? = ls.filterMap Lexeme.string? := by
  rw [Lexeme.proper, List.filterMap_filter]
  refine List.filterMap_congr fun l _ => ?_
  cases l <;> rfl

/-- The rows of a source tell of its strings, in order. -/
theorem filterMap_body?_of_shows {source : String} {rows : List Row}
    (h : (tokenize source).Shows rows) :
    rows.filterMap (·.content.body?) = (tokenize source).tables.strings.toList := by
  obtain ⟨ts, eof, front, last, -, rfl, hlast, hdenotes, hfront⟩ := exists_rows_of_shows h
  have hend : [last].filterMap (·.content.body?) = [] := by
    rw [List.filterMap_cons, hlast]
    rfl
  rw [List.filterMap_append, filterMap_body?_eq hdenotes hfront, filterMap_string?_proper, hend,
    List.append_nil, (tokenize_areOf source).strings]

/-! ## The lines of rows -/

namespace Row

theorem linesOf_listing (rows : List Row) (hasError : Bool) :
    linesOf (listing rows hasError) =
      rows.flatMap (·.text.toList.splitOn '\n') ++ [[if hasError then '1' else '0']] := by
  have hfeeds : listing rows hasError = ((rows.map (·.text.toList)).flatMap (· ++ ['\n']) ++
      [if hasError then '1' else '0']) ++ ['\n'] := by
    rw [listing, List.flatMap_map, List.append_assoc]
    rfl
  rw [hfeeds, linesOf_concat, splitOn_flatMap_append, List.flatMap_map]
  cases hasError <;> rfl

/-- The rows take one line each, and one more for each line feed in a string. -/
theorem length_flatMap_splitOn {rows : List Row} (h : ∀ r ∈ rows, r.content.Plain) :
    (rows.flatMap (·.text.toList.splitOn '\n')).length = rows.length +
      ((rows.filterMap (·.content.body?)).flatMap String.toList).count '\n' := by
  induction rows with
  | nil => rfl
  | cons r rows ih =>
      obtain ⟨hr, hrows⟩ := List.forall_mem_cons.mp h
      rw [List.flatMap_cons, List.length_append, length_splitOn, count_text hr, ih hrows,
        List.filterMap_cons]
      cases r.content.body? with
      | none =>
          simp only [Option.elim_none, List.length_cons]
          omega
      | some body =>
          simp only [Option.elim_some, List.length_cons, List.flatMap_cons, List.count_append]
          omega

/-- Rows without line feeds in strings are their own lines. -/
theorem flatMap_splitOn_of_not_mem {rows : List Row} (h : ∀ r ∈ rows, r.content.Plain)
    (hfeeds : ∀ body ∈ rows.filterMap (·.content.body?), '\n' ∉ body.toList) :
    rows.flatMap (·.text.toList.splitOn '\n') = rows.map (·.text.toList) := by
  rw [List.map_eq_flatMap]
  refine List.flatMap_congr fun r hr => List.splitOn_eq_singleton ?_
  rw [← List.count_eq_zero, count_text (h r hr)]
  cases hbody : r.content.body? with
  | none => rfl
  | some body => exact List.count_eq_zero.mpr (hfeeds body (List.mem_filterMap.mpr ⟨r, hr, hbody⟩))

end Row

/-! ## Listings -/

namespace Tokenization

/-- The listing has one line for each token, what the token is rendered as, and then the line of
the flag. -/
def ListsByLine (t : Tokenization) (text : String) : Prop :=
  ∃ rendered, List.Forall₂ (fun token line => t.render token = .ok line) t.tokens.toList rendered ∧
    linesOf text.toList =
      rendered.map String.toList ++ [[if t.hasError then '1' else '0']]

/-- The lines of the listing are those of what the tokens are rendered as, and then the line of
the flag.  This is one line for each token, and one for the flag, exactly if there is no string
over more than one line. -/
structure IsListed (t : Tokenization) (text : String) : Prop where
  lines : ∃ rendered,
    List.Forall₂ (fun token line => t.render token = .ok line) t.tokens.toList rendered ∧
      linesOf text.toList = rendered.flatMap (·.toList.splitOn '\n') ++
        [[if t.hasError then '1' else '0']]
  length : (linesOf text.toList).length =
    t.tokens.size + 1 + (t.tables.strings.toList.flatMap String.toList).count '\n'
  listsByLine_iff : t.ListsByLine text ↔ ∀ body ∈ t.tables.strings.toList, '\n' ∉ body.toList

theorem Shows.forall₂_render {t : Tokenization} {rows : List Row} (h : t.Shows rows) :
    List.Forall₂ (fun token line => t.render token = .ok line) t.tokens.toList
      (rows.map Row.text) :=
  List.forall₂_map_right_iff.mpr (h.imp fun token row hrow => by rw [render_eq, hrow]; rfl)

theorem isListed_of_shows {source : String} {rows : List Row} (h : (tokenize source).Shows rows)
    {text : String} (htext : text.toList = Row.listing rows (tokenize source).hasError) :
    (tokenize source).IsListed text := by
  have hplain := plain_of_shows h
  have hbodies := filterMap_body?_of_shows h
  have hlines := Row.linesOf_listing rows (tokenize source).hasError
  rw [← htext] at hlines
  have hsize : rows.length = (tokenize source).tokens.size := by
    rw [← h.length_eq, Array.length_toList]
  have hlength : (linesOf text.toList).length = (tokenize source).tokens.size + 1 +
      ((tokenize source).tables.strings.toList.flatMap String.toList).count '\n' := by
    rw [hlines, List.length_append, Row.length_flatMap_splitOn hplain, hbodies, hsize,
      List.length_singleton, Nat.add_right_comm]
  refine ⟨⟨rows.map Row.text, h.forall₂_render, ?_⟩, hlength, ?_, ?_⟩
  · rw [hlines, List.flatMap_map]
  · rintro ⟨rendered, hrendered, hsame⟩ body hbody
    -- There are as many lines as tokens and one more, so no line feed is left for a string.
    have hcount := congrArg List.length hsame
    rw [hlength, List.length_append, List.length_map, ← hrendered.length_eq, Array.length_toList,
      List.length_singleton, Nat.add_eq_left, List.count_eq_zero] at hcount
    exact fun hfeed => hcount (List.mem_flatMap.mpr ⟨body, hbody, hfeed⟩)
  · intro hfeeds
    refine ⟨rows.map Row.text, h.forall₂_render, ?_⟩
    rw [hlines, Row.flatMap_splitOn_of_not_mem hplain (hbodies ▸ hfeeds), List.map_map]
    rfl

end Tokenization

/-- Whenever a source is read, its listing has a line for each token, one for the flag, and one
more for each line feed in a string; and every source with fewer bytes than the largest offset
is read. -/
theorem lex_listed (source : String) :
    (∀ t, lex source = .ok t → ∃ text, t.listing = .ok text ∧ t.IsListed text) ∧
      (source.utf8ByteSize < SourceFault.maxBytes → ∃ t, lex source = .ok t) := by
  refine ⟨fun t hlex => ?_, fun h => ⟨_, lex_of_lt h⟩⟩
  obtain rfl := eq_tokenize_of_lex hlex
  obtain ⟨text, hlisting⟩ := Tokenization.exists_listing (tokenize_reads source).has
  obtain ⟨rows, hrows, htext⟩ := Tokenization.exists_rows_of_listing hlisting
  exact ⟨text, hlisting, Tokenization.isListed_of_shows hrows htext⟩

/-- A string over two lines has a token over two lines of the listing. -/
theorem lex_listed_brokenString :
    ∃ t text, lex "\"a\nb\"" = .ok t ∧ t.listing = .ok text ∧ t.tokens.size = 2 ∧
      (linesOf text.toList).length = 4 ∧ ¬t.ListsByLine text := by
  obtain ⟨t, hlex⟩ := (lex_listed "\"a\nb\"").2 (by decide)
  obtain ⟨text, hlisting, hlisted⟩ := (lex_listed "\"a\nb\"").1 t hlex
  obtain rfl := eq_tokenize_of_lex hlex
  have hsize : (tokenize "\"a\nb\"").tokens.size = 2 := by decide +kernel
  have hstrings : (tokenize "\"a\nb\"").tables.strings.toList = ["a\nb"] := by decide +kernel
  refine ⟨_, text, hlex, hlisting, hsize, ?_, fun hlines => ?_⟩
  · rw [hlisted.length, hsize, hstrings]
    rfl
  · exact hlisted.listsByLine_iff.mp hlines "a\nb" (hstrings ▸ List.mem_singleton_self _)
      (by decide)

end LoxReader
