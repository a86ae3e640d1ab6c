/-
  `Source.Location`: where a character stands in a source text.

  Lines and columns count from 1, and a column counts characters; offsets count
  UTF-8 bytes from 0.  Only the line feed starts a new line.  The main statement
  is `advance_append`: walking over a text is walking over its parts in turn.
-/

set_option autoImplicit false

namespace LoxReader

/-- A place in a source text: line and column for a reader, byte offset for a
program. -/
structure Location where
  line : Nat
  column : Nat
  offset : Nat
deriving DecidableEq, Inhabited

namespace Location

/-- The first character of any text: line 1, column 1, byte 0. -/
def start : Location := ⟨1, 1, 0⟩

/-- The place that names no character: line, column and offset are all 0. -/
def unset : Location := ⟨0, 0, 0⟩

/-! ## Moving forward -/

/-- The place after one character. -/
def step (loc : Location) (c : Char) : Location :=
  if c = '\n' then
    ⟨loc.line + 1, 1, loc.offset + c.utf8Size⟩
  else
    ⟨loc.line, loc.column + 1, loc.offset + c.utf8Size⟩

/-- The place after a run of characters. -/
def advance (loc : Location) (text : List Char) : Location :=
  text.foldl step loc

@[simp] theorem advance_nil (loc : Location) : loc.advance [] = loc := rfl

@[simp] theorem advance_cons (loc : Location) (c : Char) (text : List Char) :
    loc.advance (c :: text) = (loc.step c).advance text := rfl

theorem advance_append (loc : Location) (first second : List Char) :
    loc.advance (first ++ second) = (loc.advance first).advance second :=
  List.foldl_append

/-! ## Order -/

/-- Earlier line first, then earlier column, then smaller offset. -/
protected def lt (a b : Location) : Prop :=
  a.line < b.line ∨ a.line = b.line ∧
    (a.column < b.column ∨ a.column = b.column ∧ a.offset < b.offset)

/-- At the same place or earlier. -/
protected def le (a b : Location) : Prop :=
  a = b ∨ a.lt b

instance : LT Location := ⟨Location.lt⟩

instance : LE Location := ⟨Location.le⟩

instance (a b : Location) : Decidable (a < b) :=
  inferInstanceAs (Decidable (_ ∨ _ ∧ (_ ∨ _ ∧ _)))

instance (a b : Location) : Decidable (a ≤ b) :=
  inferInstanceAs (Decidable (_ ∨ a < b))

/-- The places in ascending order. -/
def sort (places : List Location) : List Location :=
  places.mergeSort fun a b => decide (a ≤ b)

/-! ## Text and size -/

/-- The text of a place, `line:column`. -/
def text (loc : Location) : String :=
  s!"{loc.line}:{loc.column}"

instance : ToString Location := ⟨text⟩

/-- The number of values of a 32-bit field. -/
def fieldLimit : Nat := 4294967296

/-- A place whose three numbers can each be stored in 32 bits. -/
def Fits (loc : Location) : Prop :=
  loc.line < fieldLimit ∧ loc.column < fieldLimit ∧ loc.offset < fieldLimit

instance (loc : Location) : Decidable loc.Fits :=
  inferInstanceAs (Decidable (_ ∧ _ ∧ _))

end Location

end LoxReader
