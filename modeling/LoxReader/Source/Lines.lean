/-
  `Source.Lines`: the lines of a source text as they are shown to a reader.

  A line ends at a line feed, and one carriage return directly before that line
  feed belongs to the line break.  A carriage return anywhere else, or at the end
  of a text that has no final line feed, is part of its line.
-/

set_option autoImplicit false

namespace LoxReader.Lines

/-- The text from the line with the given index on, counted from 0; empty when
there are fewer lines. -/
def dropLines : Nat → List Char → List Char
  | 0, text => text
  | _ + 1, [] => []
  | n + 1, c :: text => if c = '\n' then dropLines n text else dropLines (n + 1) text

/-- The line without the carriage return that ends it, if one does. -/
def dropReturn (line : List Char) : List Char :=
  if line.getLast? = some '\r' then line.dropLast else line

/-- The first line of a text, without its line break. -/
def firstLine (text : List Char) : List Char :=
  let line := text.takeWhile (· != '\n')
  match text.dropWhile (· != '\n') with
  | [] => line
  | _ :: _ => dropReturn line

/-- The line with the given number, counted from 1.  A line that the text does
not have is shown empty, and line 0 is shown as the first. -/
def line (text : List Char) (number : Nat) : List Char :=
  firstLine (dropLines (number - 1) text)

end LoxReader.Lines
