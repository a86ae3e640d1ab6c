/-
  `Proofs.Tokenization.Spelling`: lexemes written out with trivia between them.

  A text spells lexemes out if it has them in order, each behind a separator that starts
  with a blank.  No lexeme goes on into a separator, and no separator into a lexeme, so that
  the text is cut into these lexemes and trivia (`Spells.proper_lexemes`).
-/
import LoxReader.Proofs.Lexeme.Separated
import LoxReader.Proofs.Tokenization.Occurrences

set_option autoImplicit false

namespace LoxReader

/-! ## Texts that spell lexemes out -/

/-- Blanks, and comments that end with a line feed, one after the other. -/
inductive Trivia : List Char → Prop
  | nil : Trivia []
  | blank {c : Char} {text : List Char} :
      Lexeme.isBlank c = true → Trivia text → Trivia (c :: text)
  | comment {body text : List Char} :
      '\n' ∉ body → Trivia text → Trivia ('/' :: '/' :: (body ++ '\n' :: text))

/-- Trivia that starts with a blank. -/
def IsSeparator (text : List Char) : Prop :=
  Trivia text ∧ ∃ c ∈ text.head?, Lexeme.isBlank c = true

/-- The text goes on behind a lexeme with the given lexemes, each behind a separator, and
ends with a separator or without one. -/
inductive SpellsOn : List Lexeme → List Char → Prop
  | done : SpellsOn [] []
  | trailing {sep : List Char} : IsSeparator sep → SpellsOn [] sep
  | lexeme {sep rest : List Char} {l : Lexeme} {ls : List Lexeme} :
      IsSeparator sep → SpellsOn ls rest → SpellsOn (l :: ls) (sep ++ (l.text ++ rest))

/-- The text has the given lexemes in order, with separators between them, with any trivia
before the first, and with a separator or nothing behind the last. -/
inductive Spells : List Lexeme → List Char → Prop
  | trivia {text : List Char} : Trivia text → Spells [] text
  | tokens {lead rest : List Char} {l : Lexeme} {ls : List Lexeme} :
      Trivia lead → SpellsOn ls rest → Spells (l :: ls) (lead ++ (l.text ++ rest))

/-- A lexeme that is a token: a symbol, a word, digits with a value of 64 bits or a string
that closes. -/
def Lexeme.IsToken (l : Lexeme) : Prop :=
  l.InGrammar ∧ l.isTrivia = false ∧ l.problem? = none

/-! ## Cutting such texts -/

/-- Blanks at the head of a text separate nothing. -/
theorem proper_lexemes_dropWhile (text : List Char) :
    Lexeme.proper (lexemes (text.dropWhile Lexeme.isBlank)) = Lexeme.proper (lexemes text) := by
  cases text with
  | nil => rfl
  | cons c rest =>
      cases hc : Lexeme.isBlank c with
      | true =>
          rw [List.dropWhile_cons_of_pos hc, lexemes_cons, Lexeme.next_of_isBlank hc]
          rfl
      | false => rw [List.dropWhile_cons_of_neg (by simp [hc])]

theorem proper_lexemes_blank {c : Char} (h : Lexeme.isBlank c = true) (rest : List Char) :
    Lexeme.proper (lexemes (c :: rest)) = Lexeme.proper (lexemes rest) := by
  rw [← proper_lexemes_dropWhile, List.dropWhile_cons_of_pos h, proper_lexemes_dropWhile]

/-- A lexeme that the text behind it does not go on with is the first of the whole text. -/
theorem lexemes_text_append {l : Lexeme} {rest : List Char} (hl : l.InGrammar)
    (hstops : l.StopsAt rest) : lexemes (l.text ++ rest) = l :: lexemes rest := by
  obtain ⟨c, tail, htext⟩ := List.exists_cons_of_ne_nil (Lexeme.text_ne_nil hl)
  rw [htext, List.cons_append, lexemes_cons, Lexeme.next_of_stopsAt hl hstops htext]

/-- Trivia at the head of a text separates nothing. -/
theorem Trivia.proper_lexemes_append {text : List Char} (h : Trivia text) (rest : List Char) :
    Lexeme.proper (lexemes (text ++ rest)) = Lexeme.proper (lexemes rest) := by
  induction h with
  | nil => rfl
  | @blank c text hc _ ih => rw [List.cons_append, proper_lexemes_blank hc, ih]
  | @comment body text hbody _ ih =>
      -- The line feed is a blank behind the comment, and joins whatever blanks follow it.
      have hgrammar : Lexeme.InGrammar (.comment body) := hbody
      have hstops : Lexeme.StopsAt (.comment body) ('\n' :: (text ++ rest)) := by
        simp [Lexeme.StopsAt]
      have hcut := lexemes_text_append hgrammar hstops
      have htext : '/' :: '/' :: (body ++ '\n' :: text) ++ rest =
          Lexeme.text (.comment body) ++ '\n' :: (text ++ rest) := by
        simp [Lexeme.text]
      rw [htext, hcut, ← ih, ← proper_lexemes_blank (c := '\n') rfl]
      rfl

theorem Trivia.proper_lexemes {text : List Char} (h : Trivia text) :
    Lexeme.proper (lexemes text) = [] := by
  have hcut := h.proper_lexemes_append []
  rwa [List.append_nil, lexemes_nil] at hcut

theorem isWordChar_of_isBlank {c : Char} (h : Lexeme.isBlank c = true) :
    Lexeme.isWordChar c = false := by
  rcases Lexeme.isBlank_iff.mp h with rfl | rfl | rfl | rfl <;> decide

theorem isDigit_of_isBlank {c : Char} (h : Lexeme.isBlank c = true) : c.isDigit = false := by
  rcases Lexeme.isBlank_iff.mp h with rfl | rfl | rfl | rfl <;> decide

/-- A token does not go on with a blank. -/
theorem Lexeme.IsToken.stopsAt {l : Lexeme} (h : l.IsToken) {rest : List Char}
    (hrest : ∀ c ∈ rest.head?, isBlank c = true) : l.StopsAt rest := by
  obtain ⟨-, htrivia, hproblem⟩ := h
  cases l with
  | symbol s =>
      intro c hc
      rcases isBlank_iff.mp (hrest c hc) with rfl | rfl | rfl | rfl <;> simp
  | digits run => exact fun c hc => isDigit_of_isBlank (hrest c hc)
  | word text => exact fun c hc => isWordChar_of_isBlank (hrest c hc)
  | quoted body => exact trivial
  | stray c => exact trivial
  | unclosed body => cases hproblem
  | blanks text => cases htrivia
  | comment text => cases htrivia

/-- What follows a lexeme starts with a blank, if there is anything. -/
theorem SpellsOn.isBlank_head {ls : List Lexeme} {text : List Char} (h : SpellsOn ls text) :
    ∀ c ∈ text.head?, Lexeme.isBlank c = true := by
  have hhead : ∀ {sep : List Char}, IsSeparator sep → ∀ (rest : List Char),
      ∀ c ∈ (sep ++ rest).head?, Lexeme.isBlank c = true := by
    rintro sep ⟨-, first, hfirst, hblank⟩ rest c hc
    obtain ⟨tail, rfl⟩ := List.head?_eq_some_iff.mp hfirst
    obtain rfl := Option.some.inj hc
    exact hblank
  cases h with
  | done => simp
  | trailing hsep => simpa using hhead hsep []
  | lexeme hsep _ => exact hhead hsep _

/-- A token in front of a text that goes on behind it is cut off from it. -/
theorem SpellsOn.proper_lexemes_append {ls : List Lexeme} {rest : List Char}
    (h : SpellsOn ls rest) {l : Lexeme} (hl : l.IsToken) :
    Lexeme.proper (lexemes (l.text ++ rest)) = l :: Lexeme.proper (lexemes rest) := by
  rw [lexemes_text_append hl.1 (hl.stopsAt h.isBlank_head)]
  exact List.filter_cons_of_pos (by simp [hl.2.1])

theorem SpellsOn.proper_lexemes {ls : List Lexeme} {text : List Char} (h : SpellsOn ls text)
    (hls : ∀ l ∈ ls, l.IsToken) : Lexeme.proper (lexemes text) = ls := by
  induction h with
  | done => simp [Lexeme.proper]
  | trailing hsep => exact hsep.1.proper_lexemes
  | lexeme hsep hrest ih =>
      obtain ⟨hl, hls⟩ := List.forall_mem_cons.mp hls
      rw [hsep.1.proper_lexemes_append, hrest.proper_lexemes_append hl, ih hls]

/-- A text that spells tokens out is cut into them and trivia. -/
theorem Spells.proper_lexemes {ls : List Lexeme} {text : List Char} (h : Spells ls text)
    (hls : ∀ l ∈ ls, l.IsToken) : Lexeme.proper (lexemes text) = ls := by
  cases h with
  | trivia htext => exact htext.proper_lexemes
  | tokens hlead hrest =>
      obtain ⟨hl, hls⟩ := List.forall_mem_cons.mp hls
      rw [hlead.proper_lexemes_append, hrest.proper_lexemes_append hl, hrest.proper_lexemes hls]

/-! ## Reading such texts -/

/-- What is read of lexemes, in whatever places they stand. -/
def Gist.ofLexemes (ls : List Lexeme) : Gist :=
  (ls.foldl Gist.add ⟨[], .empty, []⟩).finish

theorem Lexeme.IsToken.ne_error {tables : Tables} {l : Lexeme} {kind : TokenKind}
    (hl : l.IsToken) (h : Denotes tables l kind) : .error ≠ kind := by
  rintro rfl
  obtain ⟨hgrammar, -, hproblem⟩ := hl
  cases h with
  | overflow hvalue => simp [problem?, Nat.not_lt.mpr hvalue] at hproblem
  | unclosed => cases hproblem
  | stray => exact hgrammar

theorem error_not_mem_of_denotes {tables : Tables} {ls : List Lexeme} {kinds : List TokenKind}
    (h : List.Forall₂ (Denotes tables) ls kinds) (hls : ∀ l ∈ ls, l.IsToken) :
    .error ∉ kinds := by
  induction h with
  | nil => exact List.not_mem_nil
  | cons hdenotes _ ih =>
      obtain ⟨hl, hls⟩ := List.forall_mem_cons.mp hls
      exact List.not_mem_cons_of_ne_of_not_mem (hl.ne_error hdenotes) (ih hls)

end LoxReader
