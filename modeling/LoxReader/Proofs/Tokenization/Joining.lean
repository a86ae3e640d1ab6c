/-
  `Proofs.Tokenization.Joining`: a text is read line by line.

  Behind a line feed a text has the lexemes that it has on its own (`occurrences_append_feed`).
  All that is carried over the line feed is a place and the tables: the tokens and errors of
  the second text are moved down by the lines of the first and on by its bytes, its literals
  are numbered behind those of the first, and its identifiers are entered if the first does
  not have them.  The main statement is `lex_join`.
-/
import LoxReader.Proofs.Lexeme.LineBreak
import LoxReader.Proofs.Tokenization.Payloads
import LoxReader.Proofs.Tokenization.Occurrences

set_option autoImplicit false

namespace LoxReader

/-! ## The lexemes on both sides of a line feed -/

/-- The occurrence in a text that goes on behind `front`. -/
def Occurrence.behind (front : List Char) (o : Occurrence) : Occurrence :=
  ⟨front ++ o.before, o.lexeme⟩

theorem occurrencesFrom_append (front before : List Char) (ls : List Lexeme) :
    occurrencesFrom (front ++ before) ls =
      (occurrencesFrom before ls).map (Occurrence.behind front) := by
  induction ls generalizing before with
  | nil => rfl
  | cons l ls ih =>
      have hrest := ih (before ++ l.text)
      rw [← List.append_assoc] at hrest
      rw [occurrencesFrom, occurrencesFrom, hrest]
      split
      · rfl
      · rw [List.map_cons, Occurrence.behind]

/-- The blanks at the head of a text can be cut off it. -/
theorem occurrencesFrom_dropWhile (before text : List Char) :
    occurrencesFrom (before ++ text.takeWhile Lexeme.isBlank)
        (lexemes (text.dropWhile Lexeme.isBlank)) =
      occurrencesFrom before (lexemes text) := by
  cases text with
  | nil => rw [List.takeWhile_nil, List.append_nil, List.dropWhile_nil]
  | cons c rest =>
      cases hc : Lexeme.isBlank c with
      | true =>
          rw [List.takeWhile_cons_of_pos hc, List.dropWhile_cons_of_pos hc, lexemes_cons,
            Lexeme.next_of_isBlank hc]
          rfl
      | false =>
          have hc' : ¬ Lexeme.isBlank c = true := by simp [hc]
          rw [List.takeWhile_cons_of_neg hc', List.dropWhile_cons_of_neg hc', List.append_nil]

theorem occurrencesFrom_blanks {run : List Char} (hrun : ∀ c ∈ run, Lexeme.isBlank c = true)
    (before rest : List Char) :
    occurrencesFrom before (lexemes (run ++ rest)) =
      occurrencesFrom (before ++ run) (lexemes rest) := by
  rw [← occurrencesFrom_dropWhile, ← occurrencesFrom_dropWhile (before ++ run),
    List.takeWhile_append_of_pos hrun, List.dropWhile_append_of_pos hrun, List.append_assoc]

/-- Whether the lexeme is a string that is left open. -/
def Lexeme.isUnclosed : Lexeme → Bool
  | .unclosed _ => true
  | _ => false

/-- Only blanks go on behind a line feed, other than a string that is left open. -/
theorem Lexeme.exists_blanks_of_next {c : Char} {rest : List Char}
    (hon : (next c rest).1.GoesOnBehindFeed) (hclosed : (next c rest).1.isUnclosed = false) :
    ∃ run, (next c rest).1 = .blanks run ∧ ∀ d ∈ run, isBlank d = true := by
  rcases inGrammar_next c rest with hin | hstray
  · cases hlexeme : (next c rest).1 with
    | blanks run =>
        rw [hlexeme] at hin
        exact ⟨run, rfl, hin.2⟩
    | unclosed body =>
        rw [hlexeme] at hclosed
        cases hclosed
    | _ =>
        rw [hlexeme] at hon
        exact hon.elim
  · rw [hstray] at hon
    exact hon.elim

/-- The lexemes in front of a line feed are those of the text that ends there, unless it
leaves a string open, and the lexemes behind it are those of the text that starts there. -/
theorem occurrencesFrom_append_feed {text : List Char}
    (h : ∀ l ∈ lexemes text, l.isUnclosed = false) (before more : List Char) :
    occurrencesFrom before (lexemes (text ++ '\n' :: more)) =
      occurrencesFrom before (lexemes text) ++
        occurrencesFrom (before ++ text ++ ['\n']) (lexemes more) := by
  induction text using lexemes_induction generalizing before with
  | nil =>
      have hfeed : ∀ c ∈ ['\n'], Lexeme.isBlank c = true := List.forall_mem_singleton.mpr rfl
      rw [lexemes_nil, List.append_nil]
      exact occurrencesFrom_blanks hfeed before more
  | cons c rest ih =>
      rw [lexemes_cons] at h ⊢
      obtain ⟨hfirst, hrest⟩ := List.forall_mem_cons.mp h
      have hcut := Lexeme.text_next c rest
      have hstep := ih hrest (before ++ (Lexeme.next c rest).1.text)
      rw [List.append_assoc before, hcut] at hstep
      by_cases hon : (Lexeme.next c rest).1.GoesOnBehindFeed
      · -- Blanks take in the line feed, and what is blank behind it.
        obtain ⟨run, hlexeme, hrun⟩ := Lexeme.exists_blanks_of_next hon hfirst
        rw [hlexeme] at hcut hstep ⊢
        have htext : c :: rest ++ '\n' :: more =
            run ++ ((Lexeme.next c rest).2 ++ '\n' :: more) := by
          rw [← hcut, List.append_assoc]
          rfl
        rw [htext, occurrencesFrom_blanks hrun]
        exact hstep
      · rw [List.cons_append, lexemes_cons, Lexeme.next_append_feed hon, occurrencesFrom,
          occurrencesFrom, hstep]
        split
        · rfl
        · rfl

/-- A text has behind a line feed the lexemes that it has on its own, at places further on. -/
theorem occurrences_append_feed {text : List Char}
    (h : ∀ l ∈ lexemes text, l.isUnclosed = false) (more : List Char) :
    occurrences (text ++ '\n' :: more) =
      occurrences text ++ (occurrences more).map (Occurrence.behind (text ++ ['\n'])) := by
  have hsplit := occurrencesFrom_append_feed h [] more
  have hmove := occurrencesFrom_append (text ++ ['\n']) [] (lexemes more)
  rw [List.append_nil] at hmove
  rwa [List.nil_append, hmove] at hsplit

/-! ## Places further on -/

/-- The place that is as many lines further down and as many bytes further on. -/
def Location.shifted (loc : Location) (lines bytes : Nat) : Location :=
  ⟨loc.line + lines, loc.column, loc.offset + bytes⟩

namespace Location

theorem shifted_step (loc : Location) (lines bytes : Nat) (c : Char) :
    (loc.shifted lines bytes).step c = (loc.step c).shifted lines bytes := by
  simp only [step, shifted]
  split
  · rw [mk.injEq]
    exact ⟨Nat.add_right_comm _ _ _, rfl, Nat.add_right_comm _ _ _⟩
  · rw [mk.injEq]
    exact ⟨rfl, rfl, Nat.add_right_comm _ _ _⟩

/-- Walking over a text does not depend on where it starts, but for the column. -/
theorem shifted_advance (loc : Location) (lines bytes : Nat) (text : List Char) :
    (loc.shifted lines bytes).advance text = (loc.advance text).shifted lines bytes := by
  induction text generalizing loc with
  | nil => rfl
  | cons c text ih => rw [advance_cons, advance_cons, shifted_step, ih]

/-- Behind a line feed a text starts in the first column again. -/
theorem start_advance_feed (text : List Char) :
    start.advance (text ++ ['\n']) = start.shifted (1 + text.count '\n') (byteSize text + 1) := by
  have hline := line_advance start text
  have hoffset := offset_advance start text
  rw [advance_append, advance_cons, advance_nil, step, if_pos rfl, hline, hoffset, shifted,
    mk.injEq]
  refine ⟨?_, rfl, Nat.add_assoc _ _ _⟩
  rw [Nat.add_assoc, Nat.add_comm 1]

theorem start_advance_behind_feed (text before : List Char) :
    start.advance (text ++ ['\n'] ++ before) =
      (start.advance before).shifted (1 + text.count '\n') (byteSize text + 1) := by
  rw [advance_append, start_advance_feed, shifted_advance]

end Location

/-! ## Reading occurrence by occurrence -/

namespace Tokenization

/-- Add what a lexeme of the source means, at its place. -/
def addIn (t : Tokenization) (o : Occurrence) : Tokenization :=
  t.add (Location.start.advance o.before) o.lexeme

theorem add_of_isTrivia {l : Lexeme} (h : l.isTrivia = true) (t : Tokenization)
    (loc : Location) : t.add loc l = t := by
  cases l with
  | blanks text => rfl
  | comment text => rfl
  | _ => cases h

theorem addAll_eq_foldl (t : Tokenization) (before : List Char) (ls : List Lexeme) :
    t.addAll (Location.start.advance before) ls = (occurrencesFrom before ls).foldl addIn t := by
  induction ls generalizing t before with
  | nil => rfl
  | cons l ls ih =>
      rw [addAll, ← Location.advance_append, ih, occurrencesFrom]
      split
      · rename_i htrivia
        rw [add_of_isTrivia htrivia]
      · rw [List.foldl_cons, addIn]

end Tokenization

/-- A source is read occurrence by occurrence. -/
theorem tokenize_eq_foldl (source : String) :
    tokenize source =
      ((occurrences source.toList).foldl Tokenization.addIn (.unread source)).push .eof
        (Location.start.advance source.toList) := by
  rw [tokenize_eq]
  exact congrArg (Tokenization.push · .eof _) (Tokenization.addAll_eq_foldl _ [] _)

/-! ## Tables that go on from others -/

/-- The tables hold the entries of the first and behind them those of the second; a spelling
that the first has is not entered again. -/
structure Tables.Joins (first second whole : Tables) : Prop where
  names : whole.names.toList =
    first.names.toList ++ second.names.toList.filter fun word => word ∉ first.names.toList
  strings : whole.strings = first.strings ++ second.strings
  numbers : whole.numbers = first.numbers ++ second.numbers

/-- What a kind of token in the second of two texts is in both together: its literal is
numbered behind those of the first, its identifier has the index of the same spelling, and
every other kind stays as it is. -/
inductive TokenKind.Joins (first second whole : Tables) : TokenKind → TokenKind → Prop
  | identifier {id id' : NameId} {word : String} :
      second.name id = .ok word → whole.name id' = .ok word →
        Joins first second whole (.identifier id) (.identifier id')
  | string {id : LiteralId} :
      Joins first second whole (.string id) (.string ⟨first.strings.size + id.index⟩)
  | number {id : LiteralId} :
      Joins first second whole (.number id) (.number ⟨first.numbers.size + id.index⟩)
  | other {kind : TokenKind} : kind.nameId? = none → kind.literalId? = none →
      Joins first second whole kind kind

/-- What is read of a lexeme in the second of two texts, and in both together. -/
inductive Reading.Joins (first second whole : Tables) : Reading → Reading → Prop
  | trivia : Joins first second whole .trivia .trivia
  | token {kind kind' : TokenKind} :
      TokenKind.Joins first second whole kind kind' →
        Joins first second whole (.token kind) (.token kind')
  | error {e : LexErrorKind} : Joins first second whole (.error e) (.error e)

theorem TokenKind.Joins.grow {first second whole second' whole' : Tables} {kind kind' : TokenKind}
    (h : TokenKind.Joins first second whole kind kind') (hsecond : second.Grows second')
    (hwhole : whole.Grows whole') : TokenKind.Joins first second' whole' kind kind' := by
  cases h with
  | identifier hid hid' => exact .identifier (hsecond.name_eq hid) (hwhole.name_eq hid')
  | string => exact .string
  | number => exact .number
  | other hname hliteral => exact .other hname hliteral

namespace Tables

variable {first second whole : Tables}

theorem joins_empty (first : Tables) : first.Joins .empty first :=
  ⟨by simp [empty], by simp [empty], by simp [empty]⟩

theorem Joins.mem_names (h : first.Joins second whole) {word : String} :
    word ∈ whole.names ↔ word ∈ first.names ∨ word ∈ second.names := by
  simp only [Array.mem_def, h.names, List.mem_append, List.mem_filter, decide_eq_true_eq]
  tauto

/-- A spelling is entered in both together if neither text has had it. -/
theorem Joins.intern (h : first.Joins second whole) (word : String) :
    first.Joins (second.intern word).2 (whole.intern word).2 := by
  obtain ⟨hnumbers, hstrings⟩ := second.enters_intern word
  obtain ⟨hnumbers', hstrings'⟩ := whole.enters_intern word
  refine ⟨?_, ?_, ?_⟩
  · have hmem : word ∈ whole.names ↔ word ∈ first.names ∨ word ∈ second.names := h.mem_names
    rcases second.intern_cases word with ⟨hold, -, heq⟩ | ⟨hnew, -, heq⟩
    · rcases whole.intern_cases word with ⟨-, -, heq'⟩ | ⟨hnew', -, -⟩
      · rw [heq, heq', h.names]
      · exact absurd (hmem.mpr (.inr hold)) hnew'
    · rw [heq, Array.toList_push, List.filter_append]
      rcases whole.intern_cases word with ⟨hold', -, heq'⟩ | ⟨hnew', -, heq'⟩
      · have hfirst : word ∈ first.names := (hmem.mp hold').resolve_right hnew
        have hkept : [word].filter (fun word => word ∉ first.names.toList) = [] := by
          simpa using hfirst
        rw [heq', h.names, hkept, List.append_nil]
      · have hfirst : word ∉ first.names := fun hword => hnew' (hmem.mpr (.inl hword))
        have hkept : [word].filter (fun word => word ∉ first.names.toList) = [word] := by
          simpa using hfirst
        rw [heq', Array.toList_push, h.names, hkept, List.append_assoc]
  · rw [hstrings, hstrings', h.strings]
  · rw [hnumbers, hnumbers', h.numbers]

theorem Joins.addString (h : first.Joins second whole) (body : String) :
    first.Joins (second.addString body).2 (whole.addString body).2 ∧
      (whole.addString body).1 = ⟨first.strings.size + (second.addString body).1.index⟩ := by
  have hstrings := h.strings
  refine ⟨⟨h.names, ?_, h.numbers⟩, ?_⟩
  · simp only [Tables.addString, hstrings, Array.push_append]
  · simp only [Tables.addString, hstrings, Array.size_append]

theorem Joins.addNumber (h : first.Joins second whole) (value : UInt64) :
    first.Joins (second.addNumber value).2 (whole.addNumber value).2 ∧
      (whole.addNumber value).1 = ⟨first.numbers.size + (second.addNumber value).1.index⟩ := by
  have hnumbers := h.numbers
  refine ⟨⟨h.names, h.strings, ?_⟩, ?_⟩
  · simp only [Tables.addNumber, hnumbers, Array.push_append]
  · simp only [Tables.addNumber, hnumbers, Array.size_append]

/-- A lexeme is read behind a first text as it is on its own. -/
theorem Joins.read (h : first.Joins second whole) (l : Lexeme) :
    first.Joins (second.read l).2 (whole.read l).2 ∧
      Reading.Joins first (second.read l).2 (whole.read l).2 (second.read l).1
        (whole.read l).1 := by
  cases l with
  | symbol s => exact ⟨h, .token (.other rfl rfl)⟩
  | digits run =>
      simp only [Tables.read]
      split
      · obtain ⟨htables, hid⟩ := h.addNumber (UInt64.ofNat (digitsValue run))
        rw [hid]
        exact ⟨htables, .token .number⟩
      · exact ⟨h, .error⟩
  | word word =>
      simp only [Tables.read]
      split
      · exact ⟨h, .token (.other rfl rfl)⟩
      · exact ⟨h.intern _, .token (.identifier (name_intern _ _) (name_intern _ _))⟩
  | quoted body =>
      obtain ⟨htables, hid⟩ := h.addString (String.ofList body)
      simp only [Tables.read]
      rw [hid]
      exact ⟨htables, .token .string⟩
  | blanks text => exact ⟨h, .trivia⟩
  | comment text => exact ⟨h, .trivia⟩
  | unclosed body => exact ⟨h, .error⟩
  | stray c => exact ⟨h, .error⟩

end Tables

/-! ## Tokens that go on from others -/

/-- A token of the second of two texts, and what it is in both together: it is in the same
column, as many lines further down and as many bytes further on. -/
structure Token.Joins (first second whole : Tables) (lines bytes : Nat) (token token' : Token) :
    Prop where
  loc : token'.loc = token.loc.shifted lines bytes
  kind : TokenKind.Joins first second whole token.kind token'.kind

/-- The error that is as many lines further down and as many bytes further on. -/
def LexError.shifted (e : LexError) (lines bytes : Nat) : LexError :=
  ⟨e.kind, e.loc.shifted lines bytes⟩

namespace Tokenization

/-- Behind the tokens, errors and entries of the first text there are those of the second. -/
structure Joins (first second whole : Tokenization) (lines bytes : Nat) : Prop where
  tokens : ∃ ts, whole.tokens.toList = first.tokens.toList ++ ts ∧
    List.Forall₂ (Token.Joins first.tables second.tables whole.tables lines bytes)
      second.tokens.toList ts
  errors : whole.errors.toList =
    first.errors.toList ++ second.errors.toList.map fun e => e.shifted lines bytes
  tables : first.tables.Joins second.tables whole.tables

variable {first second whole : Tokenization} {lines bytes : Nat}

/-- A lexeme is read behind a first text as it is on its own, further down and further on. -/
theorem Joins.add (h : first.Joins second whole lines bytes) (loc : Location) (l : Lexeme) :
    first.Joins (second.add loc l) (whole.add (loc.shifted lines bytes) l) lines bytes := by
  obtain ⟨ts, htokens, hts⟩ := h.tokens
  obtain ⟨htables, hreading⟩ := h.tables.read l
  have hgrows := second.tables.grows_read l
  have hgrows' := whole.tables.grows_read l
  rcases hread : second.tables.read l with ⟨reading, after⟩
  rcases hread' : whole.tables.read l with ⟨reading', after'⟩
  rw [hread, hread'] at htables hreading
  rw [hread] at hgrows
  rw [hread'] at hgrows'
  -- The tokens from before have their payloads in the tables that have grown.
  have hold : List.Forall₂ (Token.Joins first.tables after after' lines bytes)
      second.tokens.toList ts :=
    hts.imp fun _ _ hjoin => ⟨hjoin.loc, hjoin.kind.grow hgrows hgrows'⟩
  cases hreading with
  | trivia =>
      rw [add_of_trivia hread, add_of_trivia hread']
      exact ⟨⟨ts, htokens, hold⟩, h.errors, htables⟩
  | @token kind kind' hkind =>
      rw [add_of_token hread, add_of_token hread']
      refine ⟨⟨ts ++ [⟨kind', loc.shifted lines bytes⟩], ?_, ?_⟩, h.errors, htables⟩
      · rw [Array.toList_push, htokens, List.append_assoc]
      · rw [Array.toList_push]
        exact List.rel_append hold (.cons ⟨rfl, hkind⟩ .nil)
  | @error e =>
      rw [add_of_error hread, add_of_error hread']
      refine ⟨⟨ts ++ [⟨.error, loc.shifted lines bytes⟩], ?_, ?_⟩, ?_, htables⟩
      · rw [Array.toList_push, htokens, List.append_assoc]
      · rw [Array.toList_push]
        exact List.rel_append hold (.cons ⟨rfl, .other rfl rfl⟩ .nil)
      · rw [Array.toList_push, Array.toList_push, h.errors, List.map_append, List.append_assoc]
        rfl

theorem Joins.push_eof (h : first.Joins second whole lines bytes) (loc : Location) :
    first.Joins (second.push .eof loc) (whole.push .eof (loc.shifted lines bytes)) lines
      bytes := by
  obtain ⟨ts, htokens, hts⟩ := h.tokens
  refine ⟨⟨ts ++ [⟨.eof, loc.shifted lines bytes⟩], ?_, ?_⟩, h.errors, h.tables⟩
  · rw [push, Array.toList_push, htokens, List.append_assoc]
  · rw [push, Array.toList_push]
    exact List.rel_append hts (.cons ⟨rfl, .other rfl rfl⟩ .nil)

/-- All lexemes behind a line feed are read as they are on their own. -/
theorem Joins.foldl_addIn {text : List Char}
    (h : first.Joins second whole (1 + text.count '\n') (byteSize text + 1))
    (os : List Occurrence) :
    first.Joins (os.foldl addIn second)
      ((os.map (Occurrence.behind (text ++ ['\n']))).foldl addIn whole)
      (1 + text.count '\n') (byteSize text + 1) := by
  induction os generalizing second whole with
  | nil => exact h
  | cons o os ih =>
      have hstep := h.add (Location.start.advance o.before) o.lexeme
      rw [← Location.start_advance_behind_feed] at hstep
      exact ih hstep

/-! ## The first text -/

/-- The same tokens, as those of another source. -/
def withSource (t : Tokenization) (source : String) : Tokenization :=
  ⟨source, t.tokens, t.tables, t.errors⟩

/-- In front of the second text there is nothing but what has been read of the first. -/
theorem joins_unread (first : Tokenization) (source source' : String) (lines bytes : Nat) :
    first.Joins (unread source) (first.withSource source') lines bytes :=
  ⟨⟨[], by simp [withSource], .nil⟩, by simp [withSource, unread], Tables.joins_empty _⟩

/-- What is read does not depend on the rest of the source. -/
theorem withSource_add (t : Tokenization) (source : String) (loc : Location) (l : Lexeme) :
    (t.withSource source).add loc l = (t.add loc l).withSource source := by
  rcases hread : t.tables.read l with ⟨reading, after⟩
  have hread' : (t.withSource source).tables.read l = (reading, after) := hread
  cases reading with
  | trivia => rw [add_of_trivia hread, add_of_trivia hread', withSource, withSource]
  | token kind => rw [add_of_token hread, add_of_token hread', withSource, withSource]
  | error e => rw [add_of_error hread, add_of_error hread', withSource, withSource]

theorem withSource_foldl_addIn (t : Tokenization) (source : String) (os : List Occurrence) :
    os.foldl addIn (t.withSource source) = (os.foldl addIn t).withSource source := by
  induction os generalizing t with
  | nil => rfl
  | cons o os ih => rw [List.foldl_cons, List.foldl_cons, addIn, withSource_add, ih, addIn]

/-- What has been read, without the mark of the end. -/
def withoutEnd (t : Tokenization) : Tokenization :=
  ⟨t.source, t.tokens.pop, t.tables, t.errors⟩

theorem withoutEnd_push (t : Tokenization) (loc : Location) : (t.push .eof loc).withoutEnd = t := by
  simp [withoutEnd, push]

/-- There are as many errors of each kind as lexemes with which that is wrong. -/
theorem kinds_errors_readFrom (t : Tokenization) (loc : Location) (ls : List Lexeme) :
    (t.readFrom loc ls).errors.toList.map LexError.kind =
      t.errors.toList.map LexError.kind ++ ls.filterMap Lexeme.problem? := by
  induction ls generalizing t loc with
  | nil => exact (List.append_nil _).symm
  | cons l ls ih =>
      rw [readFrom, ih, errors_add, List.map_append, List.append_assoc]
      congr 1
      cases hproblem : l.problem? with
      | none => rw [List.filterMap_cons_none hproblem]; rfl
      | some e => rw [List.filterMap_cons_some hproblem]; rfl

end Tokenization

/-- A source without the error that a string is left open has no such string. -/
theorem isUnclosed_of_mem_lexemes {source : String}
    (h : ∀ e ∈ (tokenize source).errors.toList, e.kind ≠ .unterminatedString) :
    ∀ l ∈ lexemes source.toList, l.isUnclosed = false := by
  have hkinds : (tokenize source).errors.toList.map LexError.kind =
      (lexemes source.toList).filterMap Lexeme.problem? :=
    Tokenization.kinds_errors_readFrom (.unread source) .start (lexemes source.toList)
  intro l hl
  cases l with
  | unclosed body =>
      have hmem : LexErrorKind.unterminatedString ∈
          (lexemes source.toList).filterMap Lexeme.problem? :=
        List.mem_filterMap.mpr ⟨_, hl, rfl⟩
      rw [← hkinds] at hmem
      obtain ⟨e, he, hkind⟩ := List.mem_map.mp hmem
      exact absurd hkind (h e he)
  | _ => rfl

/-! ## Both texts -/

/-- Behind a text that leaves no string open, a line feed and another text, there are the
tokens of both. -/
theorem tokenize_joins {a : String}
    (h : ∀ e ∈ (tokenize a).errors.toList, e.kind ≠ .unterminatedString) (b : String) :
    (tokenize a).withoutEnd.Joins (tokenize b) (tokenize (a ++ "\n" ++ b))
      (1 + a.toList.count '\n') (a.utf8ByteSize + 1) := by
  have htext : (a ++ "\n" ++ b).toList = a.toList ++ '\n' :: b.toList := by simp
  have hsource : Tokenization.unread (a ++ "\n" ++ b) =
    (Tokenization.unread a).withSource (a ++ "\n" ++ b) := rfl
  have hoccurrences := occurrences_append_feed (isUnclosed_of_mem_lexemes h) b.toList
  have hplace := Location.start_advance_behind_feed a.toList b.toList
  rw [List.append_assoc, List.singleton_append] at hplace
  rw [← byteSize_toList a, tokenize_eq_foldl a, Tokenization.withoutEnd_push, tokenize_eq_foldl b,
    tokenize_eq_foldl (a ++ "\n" ++ b), htext, hoccurrences, List.foldl_append, hplace, hsource,
    Tokenization.withSource_foldl_addIn]
  apply Tokenization.Joins.push_eof
  apply Tokenization.Joins.foldl_addIn
  apply Tokenization.joins_unread

/-- Two texts whose lines are put together can be read if they are short enough, each and both.
If the first leaves no string open, then behind its tokens, without the mark of the end, there
are those of the second. -/
theorem lex_join {a b : String} (h : (a ++ "\n" ++ b).utf8ByteSize < SourceFault.maxBytes) :
    ∃ first second whole, lex a = .ok first ∧ lex b = .ok second ∧
      lex (a ++ "\n" ++ b) = .ok whole ∧ first.tokens.back?.map Token.kind = some .eof ∧
        ((∀ e ∈ first.errors.toList, e.kind ≠ .unterminatedString) →
          first.withoutEnd.Joins second whole (1 + a.toList.count '\n') (a.utf8ByteSize + 1)) := by
  have hsize := h
  rw [String.utf8ByteSize_append, String.utf8ByteSize_append] at hsize
  refine ⟨_, _, _, lex_of_lt (by omega), lex_of_lt (by omega), lex_of_lt h, ?_, ?_⟩
  · exact (tokenize_matches a).eof
  · intro hclosed
    exact tokenize_joins hclosed b

/-- A stray character and a comment that ends with a slash, in front of a text that comes back to
a spelling. -/
theorem lex_join_comment :
    ("a #\n\"s\" 12 // é /" ++ "\n" ++ "b a 3\r\n@ \"t\"").utf8ByteSize < SourceFault.maxBytes ∧
      ∃ first second whole, lex "a #\n\"s\" 12 // é /" = .ok first ∧
        lex "b a 3\r\n@ \"t\"" = .ok second ∧
          lex ("a #\n\"s\" 12 // é /" ++ "\n" ++ "b a 3\r\n@ \"t\"") = .ok whole ∧
            first.withoutEnd.Joins second whole 2 19 := by
  have hsize : ("a #\n\"s\" 12 // é /" ++ "\n" ++ "b a 3\r\n@ \"t\"").utf8ByteSize <
    SourceFault.maxBytes := by decide
  have hclosed : ∀ e ∈ (tokenize "a #\n\"s\" 12 // é /").errors.toList,
    e.kind ≠ .unterminatedString := by decide +kernel
  obtain ⟨first, second, whole, hfirst, hsecond, hwhole, -, hjoins⟩ := lex_join hsize
  rw [← eq_tokenize_of_lex hfirst] at hclosed
  exact ⟨hsize, first, second, whole, hfirst, hsecond, hwhole, hjoins hclosed⟩

end LoxReader
