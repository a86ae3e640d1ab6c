/-
  `Lexeme`: the pieces that a source text falls into.

  Every text is cut into lexemes from left to right, and each is the longest that
  starts where the one before it ended.  Nothing is skipped: blanks, comments and
  characters that start no token are lexemes too.  The main statements are
  `text_next`, by which no character is lost, and `lexemes_cons`, which unfolds
  the cutting by one lexeme.
-/
import LoxReader.Token.Symbol

set_option autoImplicit false

namespace LoxReader

/-- One piece of a source text. -/
inductive Lexeme where
  /-- A run of blanks. -/
  | blanks (text : List Char)
  /-- Two slashes and the rest of the line; the text is what follows the slashes. -/
  | comment (text : List Char)
  | symbol (symbol : Symbol)
  /-- A run of decimal digits. -/
  | digits (text : List Char)
  /-- A reserved word or an identifier. -/
  | word (text : List Char)
  /-- A string with its closing quote; the body is what stands between the quotes. -/
  | quoted (body : List Char)
  /-- A string without a closing quote, which takes the rest of the source. -/
  | unclosed (body : List Char)
  /-- A character that starts no other lexeme. -/
  | stray (char : Char)
deriving DecidableEq

namespace Lexeme

/-! ## Character classes -/

/-- The characters that separate tokens and mean nothing themselves. -/
def isBlank (c : Char) : Bool :=
  c == ' ' || c == '\t' || c == '\r' || c == '\n'

/-- The characters that a word can start with: ASCII letters and the underscore. -/
def isWordStart (c : Char) : Bool :=
  c.isAlpha || c == '_'

/-- The characters that a word can go on with. -/
def isWordChar (c : Char) : Bool :=
  c.isAlphanum || c == '_'

/-! ## Cutting off one lexeme -/

/-- The characters of a lexeme, as they stand in the source. -/
def text : Lexeme → List Char
  | .blanks text => text
  | .comment text => '/' :: '/' :: text
  | .symbol s => s.chars
  | .digits text => text
  | .word text => text
  | .quoted body => '"' :: body ++ ['"']
  | .unclosed body => '"' :: body
  | .stray c => [c]

/-- The string that an opening quote starts, and what follows it. -/
def nextString (rest : List Char) : Lexeme × List Char :=
  match rest.dropWhile (· != '"') with
  | [] => (.unclosed rest, [])
  | _ :: after => (.quoted (rest.takeWhile (· != '"')), after)

/-- The symbol or comment that starts with the symbol `s`, and what follows it. -/
def nextSymbol (s : Symbol) (rest : List Char) : Lexeme × List Char :=
  match s, rest with
  | .slash, '/' :: after =>
      (.comment (after.takeWhile (· != '\n')), after.dropWhile (· != '\n'))
  | s, rest => (.symbol (s.extend rest).1, (s.extend rest).2)

/-- The longest lexeme at the head of a text that is not empty, and what follows
it. -/
def next (c : Char) (rest : List Char) : Lexeme × List Char :=
  if isBlank c then
    (.blanks (c :: rest.takeWhile isBlank), rest.dropWhile isBlank)
  else if c.isDigit then
    (.digits (c :: rest.takeWhile Char.isDigit), rest.dropWhile Char.isDigit)
  else if isWordStart c then
    (.word (c :: rest.takeWhile isWordChar), rest.dropWhile isWordChar)
  else if c == '"' then
    nextString rest
  else
    match Symbol.ofChar? c with
    | some s => nextSymbol s rest
    | none => (.stray c, rest)

theorem text_nextString (rest : List Char) :
    (nextString rest).1.text ++ (nextString rest).2 = '"' :: rest := by
  unfold nextString
  split
  · simp [text]
  · rename_i quote after h
    have hquote : quote = '"' := by
      have := List.head_dropWhile_not (· != '"') (l := rest) (by simp [h])
      simpa [h] using this
    have hsplit := List.takeWhile_append_dropWhile (p := (· != '"')) (l := rest)
    rw [h, hquote] at hsplit
    simp [text, hsplit]

theorem text_nextSymbol (s : Symbol) (rest : List Char) :
    (nextSymbol s rest).1.text ++ (nextSymbol s rest).2 = s.chars ++ rest := by
  unfold nextSymbol
  split
  · simp [text, Symbol.chars, List.takeWhile_append_dropWhile]
  · exact Symbol.chars_extend _ _

/-- Cutting off a lexeme loses nothing. -/
theorem text_next (c : Char) (rest : List Char) :
    (next c rest).1.text ++ (next c rest).2 = c :: rest := by
  unfold next
  split
  · simp [text, List.takeWhile_append_dropWhile]
  split
  · simp [text, List.takeWhile_append_dropWhile]
  split
  · simp [text, List.takeWhile_append_dropWhile]
  split
  · rename_i hquote
    rw [text_nextString, eq_of_beq hquote]
  split
  · rename_i s h
    rw [text_nextSymbol, Symbol.chars_of_ofChar? h]
    rfl
  · rfl

theorem length_dropWhile_le (p : Char → Bool) (text : List Char) :
    (text.dropWhile p).length ≤ text.length :=
  (List.dropWhile_sublist p).length_le

theorem length_nextString (rest : List Char) : (nextString rest).2.length ≤ rest.length := by
  unfold nextString
  split
  · exact Nat.zero_le _
  · rename_i quote after h
    have := length_dropWhile_le (· != '"') rest
    rw [h] at this
    exact Nat.le_of_succ_le this

theorem length_nextSymbol (s : Symbol) (rest : List Char) :
    (nextSymbol s rest).2.length ≤ rest.length := by
  unfold nextSymbol
  split
  · exact Nat.le_succ_of_le (length_dropWhile_le _ _)
  · exact Symbol.length_extend _ _

/-- A lexeme takes at least one character. -/
theorem length_next (c : Char) (rest : List Char) : (next c rest).2.length ≤ rest.length := by
  unfold next
  split
  · exact length_dropWhile_le _ _
  split
  · exact length_dropWhile_le _ _
  split
  · exact length_dropWhile_le _ _
  split
  · exact length_nextString rest
  split
  · exact length_nextSymbol _ _
  · exact Nat.le_refl _

end Lexeme

/-! ## Cutting a text -/

/-- The lexemes of a text, put in front of the lexemes `cut` before it, which
stand last first. -/
def lexemesAfter (cut : List Lexeme) : List Char → List Lexeme
  | [] => cut.reverse
  | c :: rest => lexemesAfter ((Lexeme.next c rest).1 :: cut) (Lexeme.next c rest).2
termination_by text => text.length
decreasing_by exact Nat.lt_succ_of_le (Lexeme.length_next c rest)

/-- The lexemes of a text, from left to right. -/
def lexemes (text : List Char) : List Lexeme :=
  lexemesAfter [] text

theorem lexemesAfter_eq (cut : List Lexeme) (text : List Char) :
    lexemesAfter cut text = cut.reverse ++ lexemes text := by
  induction h : text.length using Nat.strongRecOn generalizing cut text with
  | ind n ih =>
    cases text with
    | nil => simp [lexemes, lexemesAfter]
    | cons c rest =>
      have hlt : (Lexeme.next c rest).2.length < n := by
        rw [← h]
        exact Nat.lt_succ_of_le (Lexeme.length_next c rest)
      rw [lexemes, lexemesAfter, lexemesAfter, ih _ hlt _ _ rfl, ih _ hlt [_] _ rfl]
      simp

@[simp] theorem lexemes_nil : lexemes [] = [] := by
  simp [lexemes, lexemesAfter]

/-- The first lexeme of a text stands before the lexemes of what it leaves. -/
theorem lexemes_cons (c : Char) (rest : List Char) :
    lexemes (c :: rest) = (Lexeme.next c rest).1 :: lexemes (Lexeme.next c rest).2 := by
  rw [lexemes, lexemesAfter, lexemesAfter_eq]
  rfl

/-- What holds of the empty text, and of a text if it holds of what the first lexeme leaves,
holds of every text. -/
theorem lexemes_induction {P : List Char → Prop} (nil : P [])
    (cons : ∀ c rest, P (Lexeme.next c rest).2 → P (c :: rest)) (text : List Char) : P text := by
  induction h : text.length using Nat.strongRecOn generalizing text with
  | ind n ih =>
    cases text with
    | nil => exact nil
    | cons c rest =>
      have hlt : (Lexeme.next c rest).2.length < n := by
        rw [← h]
        exact Nat.lt_succ_of_le (Lexeme.length_next c rest)
      exact cons c rest (ih _ hlt _ rfl)

/-- The lexemes of a text are all of it. -/
theorem text_lexemes (text : List Char) : (lexemes text).flatMap Lexeme.text = text := by
  induction text using lexemes_induction with
  | nil => simp
  | cons c rest ih => rw [lexemes_cons, List.flatMap_cons, ih, Lexeme.text_next]

end LoxReader
