/-
  `Proofs.Tokenization.Errors`: which lexical errors a source has.

  An error stands behind a cut of the source, and what is wrong there can be seen from the text
  behind the cut alone (`mem_errors_iff`).  So the errors of each kind are those at the places
  that the text itself has for them.  The main statement is `tokenize_listsErrors`.
-/
import LoxReader.Proofs.Diagnosis
import LoxReader.Proofs.Lexeme.Cut
import LoxReader.Proofs.Lexeme.LineBreak
import LoxReader.Proofs.Tokenization.Joining
import LoxReader.Proofs.Tokenization.Placement

set_option autoImplicit false

namespace LoxReader

/-! ## What is wrong behind a cut -/

namespace Lexeme

variable {c : Char} {rest : List Char}

/-- A character is unexpected if it is cut off as a stray one. -/
theorem problem?_next_eq_unexpected {d : Char} :
    (next c rest).1.problem? = some (.unexpectedCharacter d) ↔
      d = c ∧ next c rest = (.stray c, rest) := by
  rw [problem?_eq_some_iff]
  constructor
  · rintro (⟨_, _, _, hkind⟩ | ⟨_, _, hkind⟩ | ⟨c', hnext, hkind⟩)
    · cases hkind
    · cases hkind
    · cases hkind
      rcases inGrammar_next c rest with hin | hstray
      · rw [hnext] at hin
        exact hin.elim
      · rw [hstray] at hnext
        cases hnext
        exact ⟨rfl, hstray⟩
  · rintro ⟨rfl, hstray⟩
    exact .inr (.inr ⟨d, by rw [hstray], rfl⟩)

/-- A run of digits, of which there is one at least, in front of a text that does not go on with
it. -/
structure IsDigitRun (run after : List Char) : Prop where
  ne_nil : run ≠ []
  isDigit : ∀ d ∈ run, d.isDigit = true
  stops : ∀ d ∈ after.head?, d.isDigit = false

theorem IsDigitRun.next_eq {run after : List Char} (h : IsDigitRun run after)
    (htext : c :: rest = run ++ after) : next c rest = (.digits run, after) := by
  obtain ⟨d, tail, rfl⟩ := List.exists_cons_of_ne_nil h.ne_nil
  have hin : InGrammar (.digits (d :: tail)) := ⟨h.ne_nil, h.isDigit⟩
  obtain ⟨rfl, rfl⟩ := List.cons.inj htext
  exact next_of_stopsAt hin h.stops rfl

theorem isDigitRun_of_next {run : List Char} (h : (next c rest).1 = .digits run) :
    c :: rest = run ++ (next c rest).2 ∧ IsDigitRun run (next c rest).2 := by
  have hcut := text_next c rest
  have hstops := stopsAt_next c rest
  rcases inGrammar_next c rest with hin | hstray
  · rw [h] at hcut hstops hin
    exact ⟨hcut.symm, hin.1, hin.2, hstops⟩
  · rw [hstray] at h
    cases h

/-- A number is too large if the run of its digits has a value of more than 64 bits. -/
theorem problem?_next_eq_tooLarge :
    (next c rest).1.problem? = some .integerTooLarge ↔
      ∃ run after, c :: rest = run ++ after ∧ IsDigitRun run after ∧ 2 ^ 64 ≤ digitsValue run := by
  rw [problem?_eq_some_iff]
  constructor
  · rintro (⟨run, hnext, hvalue, -⟩ | ⟨_, _, hkind⟩ | ⟨_, _, hkind⟩)
    · obtain ⟨htext, hrun⟩ := isDigitRun_of_next hnext
      exact ⟨run, _, htext, hrun, hvalue⟩
    · cases hkind
    · cases hkind
  · rintro ⟨run, after, htext, hrun, hvalue⟩
    exact .inl ⟨run, by rw [hrun.next_eq htext], hvalue, rfl⟩

/-- A string is left open if it starts with a quote that is the last one. -/
theorem problem?_next_eq_unterminated :
    (next c rest).1.problem? = some .unterminatedString ↔ c = '"' ∧ '"' ∉ rest := by
  rw [problem?_eq_some_iff]
  constructor
  · rintro (⟨_, _, _, hkind⟩ | ⟨body, hnext, -⟩ | ⟨_, _, hkind⟩)
    · cases hkind
    · have hcut := text_next c rest
      have hstops := stopsAt_next c rest
      rcases inGrammar_next c rest with hin | hstray
      · rw [hnext] at hcut hstops hin
        have hend : (next c rest).2 = [] := hstops
        rw [hend, List.append_nil] at hcut
        obtain ⟨rfl, rfl⟩ := List.cons.inj hcut
        exact ⟨rfl, hin⟩
      · rw [hstray] at hnext
        cases hnext
    · cases hkind
  · rintro ⟨rfl, hquote⟩
    exact .inr (.inl ⟨rest, by rw [next_quote, nextString_of_unclosed hquote], rfl⟩)

end Lexeme

/-! ## Errors and cuts -/

/-- The lexemes of a text that are no trivia are those that are cut off behind its cuts. -/
theorem mem_occurrences_iff {text : List Char} {o : Occurrence} :
    o ∈ occurrences text ↔ o.lexeme.isTrivia = false ∧
      ∃ c rest, text = o.before ++ c :: rest ∧ IsCut o.before (c :: rest) ∧
        (Lexeme.next c rest).1 = o.lexeme := by
  rw [occurrences, mem_occurrencesFrom_iff]
  refine and_congr_right fun _ => ?_
  constructor
  · rintro ⟨first, second, hlexemes, hbefore⟩
    rw [List.nil_append] at hbefore
    have htext : text = o.before ++ (o.lexeme :: second).flatMap Lexeme.text := by
      rw [hbefore, ← List.flatMap_append, ← hlexemes, text_lexemes]
    have hsecond := lexemes_flatMap_of_append hlexemes
    cases hrest : (o.lexeme :: second).flatMap Lexeme.text with
    | nil =>
        rw [hrest, lexemes_nil] at hsecond
        cases hsecond
    | cons c rest =>
        rw [hrest] at htext hsecond
        refine ⟨c, rest, htext, isCut_iff.mpr ⟨first, hbefore, ?_⟩, ?_⟩
        · rw [← htext, hlexemes, hsecond]
        · rw [lexemes_cons] at hsecond
          exact (List.cons.inj hsecond).1
  · rintro ⟨c, rest, rfl, hcut, hnext⟩
    obtain ⟨front, hbefore, hlexemes⟩ := isCut_iff.mp hcut
    rw [lexemes_cons, hnext] at hlexemes
    exact ⟨front, _, hlexemes, by rw [List.nil_append, hbefore]⟩

/-- The error that a lexeme gives if something is wrong with it. -/
def Occurrence.error? (o : Occurrence) : Option LexError :=
  o.lexeme.problem?.map fun kind => ⟨kind, Location.start.advance o.before⟩

theorem Tokenization.errors_foldl_addIn (t : Tokenization) (os : List Occurrence) :
    (os.foldl addIn t).errors.toList = t.errors.toList ++ os.filterMap Occurrence.error? := by
  induction os generalizing t with
  | nil => exact (List.append_nil _).symm
  | cons o os ih =>
      rw [List.foldl_cons, ih, addIn, errors_add, List.append_assoc, List.filterMap_cons,
        Occurrence.error?]
      cases o.lexeme.problem? <;> rfl

theorem errors_tokenize (source : String) :
    (tokenize source).errors.toList = (occurrences source.toList).filterMap Occurrence.error? := by
  rw [tokenize_eq_foldl]
  exact Tokenization.errors_foldl_addIn _ _

/-- An error is at a cut of the source and says what is wrong with the lexeme that starts
there. -/
theorem mem_errors_iff {source : String} {e : LexError} :
    e ∈ (tokenize source).errors.toList ↔
      ∃ before c rest, source.toList = before ++ c :: rest ∧ IsCut before (c :: rest) ∧
        (Lexeme.next c rest).1.problem? = some e.kind ∧ e.loc.IsBehind before := by
  rw [errors_tokenize, List.mem_filterMap]
  constructor
  · rintro ⟨o, ho, herror⟩
    obtain ⟨kind, hproblem, rfl⟩ := Option.map_eq_some_iff.mp herror
    obtain ⟨-, c, rest, hsource, hcut, hnext⟩ := mem_occurrences_iff.mp ho
    exact ⟨o.before, c, rest, hsource, hcut, by rw [hnext, hproblem],
      Location.isBehind_iff.mpr rfl⟩
  · rintro ⟨before, c, rest, hsource, hcut, hproblem, hloc⟩
    have hproper : (Lexeme.next c rest).1.isTrivia = false := by
      rw [Bool.eq_false_iff]
      intro htrivia
      cases (Lexeme.problem?_of_isTrivia htrivia).symm.trans hproblem
    refine ⟨⟨before, (Lexeme.next c rest).1⟩, ?_, ?_⟩
    · exact mem_occurrences_iff.mpr ⟨hproper, c, rest, hsource, hcut, rfl⟩
    · rw [Occurrence.error?, hproblem, Option.map_some, ← Location.isBehind_iff.mp hloc]

/-! ## All errors -/

/-- The errors are in source order.  There is one for each character that stands in no string,
comment or run of blanks and starts no lexeme, one for each run of digits with a value of more
than 64 bits, and one for an opening quote behind which there is no quote; and this one comes
with the last token before the end. -/
structure Tokenization.ListsErrors (t : Tokenization) (source : List Char) : Prop where
  unexpected_iff : ∀ c loc, ⟨.unexpectedCharacter c, loc⟩ ∈ t.errors.toList ↔
    ∃ before after, source = before ++ c :: after ∧
      (∃ l, StandsIn before c after l ∧ l.isEnclosing = false) ∧
        Lexeme.NoneAt (c :: after) ∧ loc.IsBehind before
  tooLarge_iff : ∀ loc, ⟨.integerTooLarge, loc⟩ ∈ t.errors.toList ↔
    ∃ before run after, source = before ++ (run ++ after) ∧ IsCut before (run ++ after) ∧
      Lexeme.IsDigitRun run after ∧ 2 ^ 64 ≤ digitsValue run ∧ loc.IsBehind before
  unterminated_iff : ∀ loc, ⟨.unterminatedString, loc⟩ ∈ t.errors.toList ↔
    ∃ before body, source = before ++ '"' :: body ∧ IsCut before ('"' :: body) ∧ '"' ∉ body ∧
      loc.IsBehind before
  increasing : t.errors.toList.Pairwise fun a b => a.loc.offset < b.loc.offset
  once : (t.errors.toList.filter fun e => e.kind = .unterminatedString).length ≤ 1
  last : ∀ loc, ⟨.unterminatedString, loc⟩ ∈ t.errors.toList →
    ∃ ts eof, t.tokens.toList = ts ++ [⟨.error, loc⟩, eof] ∧ eof.kind = .eof

theorem mem_errors_unexpected_iff {source : String} {c : Char} {loc : Location} :
    ⟨.unexpectedCharacter c, loc⟩ ∈ (tokenize source).errors.toList ↔
      ∃ before after, source.toList = before ++ c :: after ∧ StandsIn before c after (.stray c) ∧
        loc.IsBehind before := by
  rw [mem_errors_iff]
  constructor
  · rintro ⟨before, d, after, hsource, hcut, hproblem, hloc⟩
    obtain ⟨rfl, hstray⟩ := Lexeme.problem?_next_eq_unexpected.mp hproblem
    exact ⟨before, after, hsource, standsIn_stray_iff_next.mpr ⟨hcut, hstray⟩, hloc⟩
  · rintro ⟨before, after, hsource, hstands, hloc⟩
    obtain ⟨hcut, hstray⟩ := standsIn_stray_iff_next.mp hstands
    exact ⟨before, c, after, hsource, hcut,
      Lexeme.problem?_next_eq_unexpected.mpr ⟨rfl, hstray⟩, hloc⟩

theorem mem_errors_tooLarge_iff {source : String} {loc : Location} :
    ⟨.integerTooLarge, loc⟩ ∈ (tokenize source).errors.toList ↔
      ∃ before run after, source.toList = before ++ (run ++ after) ∧ IsCut before (run ++ after) ∧
        Lexeme.IsDigitRun run after ∧ 2 ^ 64 ≤ digitsValue run ∧ loc.IsBehind before := by
  rw [mem_errors_iff]
  constructor
  · rintro ⟨before, c, rest, hsource, hcut, hproblem, hloc⟩
    obtain ⟨run, after, htext, hrun, hvalue⟩ := Lexeme.problem?_next_eq_tooLarge.mp hproblem
    rw [htext] at hsource hcut
    exact ⟨before, run, after, hsource, hcut, hrun, hvalue, hloc⟩
  · rintro ⟨before, run, after, hsource, hcut, hrun, hvalue, hloc⟩
    obtain ⟨c, tail, rfl⟩ := List.exists_cons_of_ne_nil hrun.ne_nil
    exact ⟨before, c, tail ++ after, hsource, hcut,
      Lexeme.problem?_next_eq_tooLarge.mpr ⟨_, after, rfl, hrun, hvalue⟩, hloc⟩

theorem mem_errors_unterminated_iff {source : String} {loc : Location} :
    ⟨.unterminatedString, loc⟩ ∈ (tokenize source).errors.toList ↔
      ∃ before body, source.toList = before ++ '"' :: body ∧ IsCut before ('"' :: body) ∧
        '"' ∉ body ∧ loc.IsBehind before := by
  rw [mem_errors_iff]
  constructor
  · rintro ⟨before, c, rest, hsource, hcut, hproblem, hloc⟩
    obtain ⟨rfl, hquote⟩ := Lexeme.problem?_next_eq_unterminated.mp hproblem
    exact ⟨before, rest, hsource, hcut, hquote, hloc⟩
  · rintro ⟨before, body, hsource, hcut, hquote, hloc⟩
    exact ⟨before, '"', body, hsource, hcut,
      Lexeme.problem?_next_eq_unterminated.mpr ⟨rfl, hquote⟩, hloc⟩

theorem pairwise_offset_errors (source : String) :
    (tokenize source).errors.toList.Pairwise fun a b => a.loc.offset < b.loc.offset := by
  have hpaired : (tokenize source).errorTokens = _ := tokenize_paired source
  have htokens := (tokenize_placed source).increasing.filter fun token => token.kind = .error
  rw [Tokenization.errorTokens] at hpaired
  rw [hpaired, List.pairwise_map] at htokens
  exact htokens

/-- A string that is left open is the last lexeme. -/
theorem exists_occurrences_of_unterminated {before body : List Char}
    (hcut : IsCut before ('"' :: body)) (hquote : '"' ∉ body) :
    ∃ os, occurrences (before ++ '"' :: body) = os ++ [⟨before, .unclosed body⟩] := by
  obtain ⟨front, rfl, hlexemes⟩ := isCut_iff.mp hcut
  rw [lexemes_cons, Lexeme.next_quote, Lexeme.nextString_of_unclosed hquote, lexemes_nil]
    at hlexemes
  refine ⟨occurrencesFrom [] front, ?_⟩
  rw [occurrences, hlexemes, occurrencesFrom_append_lexemes]
  rfl

/-- The token of a string that is left open is the last one before the end. -/
theorem exists_tokens_of_unterminated {source : String} {loc : Location}
    (h : ⟨.unterminatedString, loc⟩ ∈ (tokenize source).errors.toList) :
    ∃ ts eof, (tokenize source).tokens.toList = ts ++ [⟨.error, loc⟩, eof] ∧ eof.kind = .eof := by
  obtain ⟨before, body, hsource, hcut, hquote, hloc⟩ := mem_errors_unterminated_iff.mp h
  obtain ⟨os, hos⟩ := exists_occurrences_of_unterminated hcut hquote
  obtain ⟨ts, eof, htokens, hgives, heof, -⟩ := (tokenize_placed source).tokens
  rw [hsource, hos] at hgives
  obtain ⟨token, rest, ⟨hdenotes, hplace⟩, hrest, hdrop⟩ :=
    List.forall₂_cons_right_iff.mp (List.forall₂_drop_append _ _ _ hgives.flip)
  obtain rfl := List.forall₂_nil_right_iff.mp hrest
  have htoken : token = ⟨.error, loc⟩ := by
    have hsame : token.loc = loc :=
      (Location.isBehind_iff.mp hplace).trans (Location.isBehind_iff.mp hloc).symm
    obtain ⟨kind, place⟩ := token
    cases hdenotes
    exact congrArg (Token.mk .error) hsame
  have hts : ts = ts.take os.length ++ [⟨.error, loc⟩] := by
    rw [← htoken, ← hdrop, List.take_append_drop]
  generalize ts.take os.length = init at hts
  refine ⟨init, eof, ?_, heof⟩
  rw [htokens, hts, List.append_assoc]
  rfl

/-- A list with increasing values that are all the same has at most one entry. -/
theorem length_le_one_of_pairwise_lt {α : Type} {value : α → Nat} {xs : List α}
    (h : xs.Pairwise fun a b => value a < value b) (hsame : ∀ a ∈ xs, ∀ b ∈ xs, value a = value b) :
    xs.length ≤ 1 := by
  cases xs with
  | nil => exact Nat.zero_le 1
  | cons a xs =>
      cases xs with
      | nil => exact Nat.le_refl 1
      | cons b xs =>
          have hlt := (List.pairwise_cons.mp h).1 b List.mem_cons_self
          have heq := hsame a List.mem_cons_self b (List.mem_cons_of_mem a List.mem_cons_self)
          exact absurd heq (Nat.ne_of_lt hlt)

/-- No two strings are left open. -/
theorem length_filter_unterminated_le (source : String) :
    ((tokenize source).errors.toList.filter fun e => e.kind = .unterminatedString).length ≤ 1 := by
  refine length_le_one_of_pairwise_lt ((pairwise_offset_errors source).filter _) ?_
  rintro ⟨kind, loc⟩ ha ⟨kind', loc'⟩ hb
  simp only [List.mem_filter, decide_eq_true_eq] at ha hb
  obtain ⟨ha, rfl⟩ := ha
  obtain ⟨hb, rfl⟩ := hb
  obtain ⟨ts, eof, htokens, -⟩ := exists_tokens_of_unterminated ha
  obtain ⟨ts', eof', htokens', -⟩ := exists_tokens_of_unterminated hb
  have hlast := (List.append_inj' (htokens.symm.trans htokens') rfl).2
  have htoken := (List.cons.inj hlast).1
  exact congrArg (fun token => token.loc.offset) htoken

theorem tokenize_listsErrors (source : String) :
    (tokenize source).ListsErrors source.toList := by
  refine ⟨fun c loc => ?_, fun loc => mem_errors_tooLarge_iff,
    fun loc => mem_errors_unterminated_iff, pairwise_offset_errors source, ?_,
    fun loc => exists_tokens_of_unterminated⟩
  · simp only [mem_errors_unexpected_iff, standsIn_stray_iff, and_assoc]
  · exact length_filter_unterminated_le source

end LoxReader
