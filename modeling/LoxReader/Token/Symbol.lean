/-
  `Token.Symbol`: punctuation and operators, the lexemes with a fixed spelling
  that are not words.

  A symbol is one character, or one of four characters followed by an equals
  sign.
-/

set_option autoImplicit false

namespace LoxReader

/-- Punctuation and operators, in catalogue order. -/
inductive Symbol where
  | leftParen
  | rightParen
  | leftBrace
  | rightBrace
  | comma
  | period
  | minus
  | plus
  | semicolon
  | slash
  | asterisk
  | bang
  | bangEqual
  | equal
  | equalEqual
  | greater
  | greaterEqual
  | less
  | lessEqual
deriving DecidableEq

namespace Symbol

/-- Every symbol, in catalogue order. -/
def all : List Symbol :=
  [.leftParen, .rightParen, .leftBrace, .rightBrace, .comma, .period, .minus, .plus, .semicolon,
    .slash, .asterisk, .bang, .bangEqual, .equal, .equalEqual, .greater, .greaterEqual, .less,
    .lessEqual]

/-- The characters of the symbol. -/
def chars : Symbol → List Char
  | .leftParen => ['(']
  | .rightParen => [')']
  | .leftBrace => ['{']
  | .rightBrace => ['}']
  | .comma => [',']
  | .period => ['.']
  | .minus => ['-']
  | .plus => ['+']
  | .semicolon => [';']
  | .slash => ['/']
  | .asterisk => ['*']
  | .bang => ['!']
  | .bangEqual => ['!', '=']
  | .equal => ['=']
  | .equalEqual => ['=', '=']
  | .greater => ['>']
  | .greaterEqual => ['>', '=']
  | .less => ['<']
  | .lessEqual => ['<', '=']

/-- The symbol as it is written. -/
def spelling (s : Symbol) : String :=
  String.ofList s.chars

/-- The name of the symbol in token listings.  The names are a fixed format, in
which the slash goes by `BackSlash`. -/
def name : Symbol → String
  | .leftParen => "LeftParen"
  | .rightParen => "RightParen"
  | .leftBrace => "LeftBrace"
  | .rightBrace => "RightBrace"
  | .comma => "Comma"
  | .period => "Period"
  | .minus => "Minus"
  | .plus => "Plus"
  | .semicolon => "SemiColon"
  | .slash => "BackSlash"
  | .asterisk => "Asterisk"
  | .bang => "Bang"
  | .bangEqual => "BangEqual"
  | .equal => "Equal"
  | .equalEqual => "EqualEqual"
  | .greater => "Greater"
  | .greaterEqual => "GreaterEqual"
  | .less => "Less"
  | .lessEqual => "LessEqual"

/-! ## Reading -/

/-- The symbol that one character spells. -/
def ofChar? : Char → Option Symbol
  | '(' => some .leftParen
  | ')' => some .rightParen
  | '{' => some .leftBrace
  | '}' => some .rightBrace
  | ',' => some .comma
  | '.' => some .period
  | '-' => some .minus
  | '+' => some .plus
  | ';' => some .semicolon
  | '/' => some .slash
  | '*' => some .asterisk
  | '!' => some .bang
  | '=' => some .equal
  | '>' => some .greater
  | '<' => some .less
  | _ => none

/-- The symbol spelled by this one and an equals sign together. -/
def withEqual? : Symbol → Option Symbol
  | .bang => some .bangEqual
  | .equal => some .equalEqual
  | .greater => some .greaterEqual
  | .less => some .lessEqual
  | _ => none

/-- A character stands for the symbol that it spells. -/
theorem chars_of_ofChar? {c : Char} {s : Symbol} (h : ofChar? c = some s) : s.chars = [c] := by
  unfold ofChar? at h
  split at h <;> simp only [reduceCtorEq, Option.some.injEq] at h <;> subst h <;> rfl

/-- The longer symbol is spelled by the shorter one and an equals sign. -/
theorem chars_of_withEqual? {s longer : Symbol} (h : s.withEqual? = some longer) :
    longer.chars = s.chars ++ ['='] := by
  cases s <;> simp only [withEqual?, reduceCtorEq, Option.some.injEq] at h <;> subst h <;> rfl

/-- The longest symbol that starts with the symbol `s` and goes on into `rest`,
with what it leaves. -/
def extend (s : Symbol) (rest : List Char) : Symbol × List Char :=
  match s.withEqual?, rest with
  | some longer, '=' :: after => (longer, after)
  | _, _ => (s, rest)

/-- Nothing is lost between a symbol and what it leaves. -/
theorem chars_extend (s : Symbol) (rest : List Char) :
    (s.extend rest).1.chars ++ (s.extend rest).2 = s.chars ++ rest := by
  unfold extend
  split
  · rename_i longer after h
    simp [chars_of_withEqual? h]
  · rfl

/-- A symbol leaves no more than it was given. -/
theorem length_extend (s : Symbol) (rest : List Char) :
    (s.extend rest).2.length ≤ rest.length := by
  unfold extend
  split
  · simp
  · exact Nat.le_refl _

end Symbol

end LoxReader
