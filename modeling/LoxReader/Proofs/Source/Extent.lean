/-
  `Proofs.Source.Extent`: how far a text reaches.

  Walking over a text moves a place by the bytes of the text, down by its line
  feeds, and right by no more than its characters.  So a place behind a text that is
  short enough can be stored (`fits_advance`).
-/
import LoxReader.Source.Location

set_option autoImplicit false

namespace LoxReader

/-! ## Bytes -/

/-- The number of UTF-8 bytes of a text. -/
def byteSize : List Char → Nat
  | [] => 0
  | c :: text => c.utf8Size + byteSize text

@[simp] theorem byteSize_nil : byteSize [] = 0 := rfl

@[simp] theorem byteSize_cons (c : Char) (text : List Char) :
    byteSize (c :: text) = c.utf8Size + byteSize text := rfl

@[simp] theorem byteSize_append (first second : List Char) :
    byteSize (first ++ second) = byteSize first + byteSize second := by
  induction first with
  | nil => exact (Nat.zero_add _).symm
  | cons c first ih =>
      rw [List.cons_append, byteSize_cons, byteSize_cons, ih, Nat.add_assoc]

/-- A character has at least one byte. -/
theorem length_le_byteSize (text : List Char) : text.length ≤ byteSize text := by
  induction text with
  | nil => exact Nat.le_refl _
  | cons c text ih =>
      have hc : 0 < c.utf8Size := c.utf8Size_pos
      simp only [List.length_cons, byteSize_cons]
      omega

theorem utf8ByteSize_ofList (text : List Char) :
    (String.ofList text).utf8ByteSize = byteSize text := by
  induction text with
  | nil => simp
  | cons c text ih =>
      rw [String.ofList_cons, String.utf8ByteSize_append, String.utf8ByteSize_singleton, ih,
        byteSize_cons]

/-- The bytes of a string are those of its characters. -/
theorem byteSize_toList (s : String) : byteSize s.toList = s.utf8ByteSize := by
  rw [← utf8ByteSize_ofList, String.ofList_toList]

/-! ## Places -/

namespace Location

/-- An offset moves by the bytes of a text. -/
theorem offset_advance (loc : Location) (text : List Char) :
    (loc.advance text).offset = loc.offset + byteSize text := by
  induction text generalizing loc with
  | nil => rfl
  | cons c text ih =>
      have hstep : (loc.step c).offset = loc.offset + c.utf8Size := by
        unfold step
        split <;> rfl
      rw [advance_cons, ih, hstep, byteSize_cons, Nat.add_assoc]

/-- A line number moves by the line feeds of a text. -/
theorem line_advance (loc : Location) (text : List Char) :
    (loc.advance text).line = loc.line + text.count '\n' := by
  induction text generalizing loc with
  | nil => rfl
  | cons c text ih =>
      rw [advance_cons, ih]
      unfold step
      split
      · rename_i hc
        rw [hc, List.count_cons_self]
        show loc.line + 1 + text.count '\n' = _
        omega
      · rename_i hc
        rw [List.count_cons_of_ne hc]

/-- A column moves right by no more than the characters of a text. -/
theorem column_advance_le (loc : Location) (text : List Char) (h : 1 ≤ loc.column) :
    (loc.advance text).column ≤ loc.column + text.length := by
  induction text generalizing loc with
  | nil => exact Nat.le_refl _
  | cons c text ih =>
      rw [advance_cons, List.length_cons]
      unfold step
      split
      · have := ih ⟨loc.line + 1, 1, loc.offset + c.utf8Size⟩ (Nat.le_refl 1)
        simp only at this
        omega
      · have := ih ⟨loc.line, loc.column + 1, loc.offset + c.utf8Size⟩ (Nat.le_add_left 1 _)
        simp only at this
        omega

/-- The place behind a text can be stored if the text has fewer bytes than the
largest number that can be. -/
theorem fits_advance {text : List Char} (h : byteSize text < fieldLimit - 1) :
    (start.advance text).Fits := by
  have hlength := length_le_byteSize text
  have hcount : text.count '\n' ≤ text.length := List.count_le_length
  have hcolumn := column_advance_le start text (Nat.le_refl 1)
  have hline := line_advance start text
  have hoffset := offset_advance start text
  simp only [start] at hcolumn hline hoffset
  refine ⟨?_, ?_, ?_⟩ <;> simp only [start] <;> omega

end Location

end LoxReader
