/-
  `Text.Escaped`: one character as it is quoted in a message.

  A quote, a backslash and the usual controls have a two-character form, a
  character that could not be seen on its own has the form `\u` with its hexadecimal
  code point in braces, and any other stands for itself.
-/
import LoxReader.Text.DefaultIgnorable
import LoxReader.Text.GraphemeExtend
import LoxReader.Text.Unprintable

set_option autoImplicit false

namespace LoxReader.Escaped

/-- The code point in lower-case hexadecimal digits, without leading zeros. -/
def hexadecimal (c : Char) : String :=
  String.ofList (Nat.toDigits 16 c.toNat)

/-- The form that names a character by its code point. -/
def codePoint (c : Char) : String :=
  "\\u\x7b" ++ hexadecimal c ++ "\x7d"

/-- The halfwidth marks of voiced and of half-voiced sounds.  They extend the
character before them, but take up room of their own. -/
def isHalfwidthSoundMark (c : Char) : Bool :=
  c == '\uff9e' || c == '\uff9f'

/-- Whether a character joins the one before it when shown, and is not seen apart
from it. -/
def isJoined (c : Char) : Bool :=
  isGraphemeExtend c && !isHalfwidthSoundMark c

/-- Whether a character could not be seen on its own. -/
def isHidden (c : Char) : Bool :=
  isJoined c || isDefaultIgnorable c || isUnprintable c

/-- The quoted form of a character. -/
def char (c : Char) : String :=
  match c with
  | '\x00' => "\\0"
  | '\t' => "\\t"
  | '\r' => "\\r"
  | '\n' => "\\n"
  | '\'' => "\\'"
  | '"' => "\\\""
  | '\\' => "\\\\"
  | _ =>
    if isHidden c then codePoint c else c.toString

end LoxReader.Escaped
