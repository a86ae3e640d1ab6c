/-
  `Proofs.Tokenization.Occurrences`: the lexemes of a source, and where they stand.

  Each lexeme that is no trivia gives one token, and each of these with which something is
  wrong gives one error, both at the place behind the text before it.
-/
import LoxReader.Proofs.Source.Counting
import LoxReader.Proofs.Tokenization.Gist

set_option autoImplicit false

namespace LoxReader

/-! ## Lexemes and the text before them -/

/-- A lexeme in a text, with the text before it. -/
structure Occurrence where
  before : List Char
  lexeme : Lexeme

/-- The lexemes behind the text `before` that are no trivia. -/
def occurrencesFrom (before : List Char) : List Lexeme → List Occurrence
  | [] => []
  | l :: ls =>
    if l.isTrivia then
      occurrencesFrom (before ++ l.text) ls
    else
      ⟨before, l⟩ :: occurrencesFrom (before ++ l.text) ls

/-- The lexemes of a text that are no trivia. -/
def occurrences (text : List Char) : List Occurrence :=
  occurrencesFrom [] (lexemes text)

theorem occurrencesFrom_append_lexemes (before : List Char) (first second : List Lexeme) :
    occurrencesFrom before (first ++ second) =
      occurrencesFrom before first ++
        occurrencesFrom (before ++ first.flatMap Lexeme.text) second := by
  induction first generalizing before with
  | nil => simp [occurrencesFrom]
  | cons l first ih =>
      rw [List.cons_append, occurrencesFrom, occurrencesFrom, ih, List.flatMap_cons,
        List.append_assoc]
      split
      · rfl
      · rfl

/-- The lexemes that are no trivia occur behind the text of those before them. -/
theorem mem_occurrencesFrom_iff {before : List Char} {ls : List Lexeme} {o : Occurrence} :
    o ∈ occurrencesFrom before ls ↔ o.lexeme.isTrivia = false ∧
      ∃ first second, ls = first ++ o.lexeme :: second ∧
        o.before = before ++ first.flatMap Lexeme.text := by
  constructor
  · intro h
    induction ls generalizing before with
    | nil => cases h
    | cons l ls ih =>
        have hrest : o ∈ occurrencesFrom (before ++ l.text) ls → o.lexeme.isTrivia = false ∧
            ∃ first second, l :: ls = first ++ o.lexeme :: second ∧
              o.before = before ++ first.flatMap Lexeme.text := by
          intro hmem
          obtain ⟨hproper, first, second, rfl, hbefore⟩ := ih hmem
          exact ⟨hproper, l :: first, second, rfl, by simpa using hbefore⟩
        rw [occurrencesFrom] at h
        split at h
        · exact hrest h
        · rename_i hproper
          rcases List.mem_cons.mp h with rfl | h
          · exact ⟨Bool.eq_false_iff.mpr hproper, [], ls, rfl, by simp⟩
          · exact hrest h
  · rintro ⟨hproper, first, second, rfl, hbefore⟩
    obtain ⟨place, l⟩ := o
    rw [occurrencesFrom_append_lexemes, occurrencesFrom, if_neg (Bool.eq_false_iff.mp hproper),
      ← hbefore]
    exact List.mem_append_right _ List.mem_cons_self

/-- The text before a lexeme, the lexeme, and something behind it are the whole text. -/
theorem exists_after_of_mem_occurrences {text : List Char} {o : Occurrence}
    (h : o ∈ occurrences text) : ∃ after, text = o.before ++ o.lexeme.text ++ after := by
  obtain ⟨-, first, second, hlexemes, hbefore⟩ := mem_occurrencesFrom_iff.mp h
  refine ⟨second.flatMap Lexeme.text, ?_⟩
  rw [hbefore, ← text_lexemes text, hlexemes]
  simp

theorem mem_lexemes_of_mem_occurrences {text : List Char} {o : Occurrence}
    (h : o ∈ occurrences text) : o.lexeme ∈ lexemes text := by
  obtain ⟨-, first, second, hlexemes, -⟩ := mem_occurrencesFrom_iff.mp h
  rw [hlexemes]
  exact List.mem_append_right _ List.mem_cons_self

/-! ## What is wrong with lexemes -/

/-- What is wrong with a lexeme, if it is no token. -/
def Lexeme.problem? : Lexeme → Option LexErrorKind
  | .digits run => if digitsValue run < UInt64.size then none else some .integerTooLarge
  | .unclosed _ => some .unterminatedString
  | .stray c => some (.unexpectedCharacter c)
  | _ => none

/-- What is wrong with what was read, if it is an error. -/
def Reading.problem? : Reading → Option LexErrorKind
  | .error kind => some kind
  | _ => none

/-- A lexeme is read as an error exactly if something is wrong with it. -/
theorem Tables.problem?_read (tables : Tables) (l : Lexeme) :
    (tables.read l).1.problem? = l.problem? := by
  cases l with
  | digits run =>
      simp only [read, Lexeme.problem?]
      split <;> rfl
  | word word =>
      simp only [read, Lexeme.problem?]
      split <;> rfl
  | _ => rfl

/-- Something is wrong with digits of too large a value, with a string that is left open and with
a stray character. -/
theorem Lexeme.problem?_eq_some_iff {l : Lexeme} {kind : LexErrorKind} :
    l.problem? = some kind ↔
      (∃ run, l = .digits run ∧ UInt64.size ≤ digitsValue run ∧ kind = .integerTooLarge) ∨
        (∃ body, l = .unclosed body ∧ kind = .unterminatedString) ∨
          ∃ c, l = .stray c ∧ kind = .unexpectedCharacter c := by
  cases l with
  | digits run =>
      rw [problem?]
      split
      · rename_i hvalue
        simp [Nat.not_le.mpr hvalue]
      · rename_i hvalue
        simp [Nat.not_lt.mp hvalue, eq_comm]
  | _ => simp [problem?, eq_comm]

theorem Lexeme.problem?_of_isTrivia {l : Lexeme} (h : l.isTrivia = true) : l.problem? = none := by
  cases l with
  | blanks text => rfl
  | comment text => rfl
  | _ => cases h

/-! ## Tokens and errors of lexemes -/

namespace Occurrence

/-- The token is what the lexeme denotes, where the lexeme starts. -/
def Gives (tables : Tables) (o : Occurrence) (token : Token) : Prop :=
  Denotes tables o.lexeme token.kind ∧ token.loc.IsBehind o.before

/-- The error is what is wrong with the lexeme, where the lexeme starts. -/
def Fails (o : Occurrence) (e : LexError) : Prop :=
  o.lexeme.problem? = some e.kind ∧ e.loc.IsBehind o.before

end Occurrence

/-- Each lexeme that is no trivia gives its token, and then there is the end. -/
theorem Reads.exists_gives {tables : Tables} {loc : Location} {ls : List Lexeme} {ts : List Token}
    (h : Reads tables loc ls ts) {before : List Char} (hloc : loc = Location.start.advance before) :
    ∃ init, ts = init ++ [⟨.eof, Location.start.advance (before ++ ls.flatMap Lexeme.text)⟩] ∧
      List.Forall₂ (Occurrence.Gives tables) (occurrencesFrom before ls) init := by
  induction h generalizing before with
  | eof => exact ⟨[], by simp [hloc], .nil⟩
  | @trivia loc l ls ts htrivia _ ih =>
      have hnext : loc.advance l.text = Location.start.advance (before ++ l.text) := by
        rw [hloc, Location.advance_append]
      obtain ⟨init, hts, hinit⟩ := ih hnext
      rw [List.append_assoc, ← List.flatMap_cons] at hts
      refine ⟨init, hts, ?_⟩
      rwa [occurrencesFrom, if_pos htrivia]
  | @token loc l kind ls ts hdenotes _ ih =>
      have hnext : loc.advance l.text = Location.start.advance (before ++ l.text) := by
        rw [hloc, Location.advance_append]
      obtain ⟨init, hts, hinit⟩ := ih hnext
      rw [List.append_assoc, ← List.flatMap_cons] at hts
      refine ⟨⟨kind, loc⟩ :: init, by rw [hts, List.cons_append], ?_⟩
      rw [occurrencesFrom, if_neg (by simp [hdenotes.isTrivia_eq])]
      exact .cons ⟨hdenotes, Location.isBehind_iff.mpr hloc⟩ hinit

namespace Tokenization

/-- Reading a lexeme adds an error if something is wrong with it, and else none. -/
theorem errors_add (t : Tokenization) (loc : Location) (l : Lexeme) :
    (t.add loc l).errors.toList =
      t.errors.toList ++ (l.problem?.map fun kind => ⟨kind, loc⟩).toList := by
  have hproblem := t.tables.problem?_read l
  rcases hread : t.tables.read l with ⟨reading, after⟩
  rw [hread] at hproblem
  rw [← hproblem]
  cases reading with
  | trivia =>
      rw [add_of_trivia hread]
      exact (List.append_nil _).symm
  | token kind =>
      rw [add_of_token hread]
      exact (List.append_nil _).symm
  | error e =>
      rw [add_of_error hread]
      exact Array.toList_push

/-- Each lexeme with which something is wrong gives its error. -/
theorem exists_fails (t : Tokenization) {loc : Location} {before : List Char}
    (hloc : loc = Location.start.advance before) (ls : List Lexeme) :
    ∃ es, (t.readFrom loc ls).errors.toList = t.errors.toList ++ es ∧
      List.Forall₂ Occurrence.Fails
        ((occurrencesFrom before ls).filter fun o => o.lexeme.problem?.isSome) es := by
  induction ls generalizing t loc before with
  | nil => exact ⟨[], (List.append_nil _).symm, .nil⟩
  | cons l ls ih =>
      have hnext : loc.advance l.text = Location.start.advance (before ++ l.text) := by
        rw [hloc, Location.advance_append]
      obtain ⟨es, herrors, hes⟩ := ih (t.add loc l) hnext
      rw [errors_add, List.append_assoc] at herrors
      refine ⟨_, herrors, ?_⟩
      rw [occurrencesFrom]
      split
      · rename_i htrivia
        rw [Lexeme.problem?_of_isTrivia htrivia]
        exact hes
      · cases hproblem : l.problem? with
        | none => rwa [List.filter_cons_of_neg (by simp [hproblem])]
        | some e =>
            rw [List.filter_cons_of_pos (by simp [hproblem])]
            exact .cons ⟨hproblem, Location.isBehind_iff.mpr hloc⟩ hes

end Tokenization

end LoxReader
