/-
  `Proofs.Source.Counting`: places by counting, and their order.

  The place behind a text is that of its bytes, its line feeds and the characters of its
  last line (`isBehind_iff`).  A longer text ends later, so that the places behind texts
  that start alike compare as their offsets do (`advance_lt_advance_iff`).
-/
import LoxReader.Proofs.Source.Extent
import Mathlib.Data.List.DropRight

set_option autoImplicit false

namespace LoxReader

/-- The last line of a text: what stands behind its last line feed. -/
def lastLine (text : List Char) : List Char :=
  text.rtakeWhile (· != '\n')

/-- The place has as many bytes before it as the text, is on the line that the line feeds of
the text lead to, and is behind the characters of the last line. -/
structure Location.IsBehind (loc : Location) (text : List Char) : Prop where
  offset : loc.offset = (String.ofList text).utf8ByteSize
  line : loc.line = 1 + text.count '\n'
  column : loc.column = 1 + (lastLine text).length

namespace Location

/-! ## Counting -/

theorem advance_concat (loc : Location) (text : List Char) (c : Char) :
    loc.advance (text ++ [c]) = (loc.advance text).step c := by
  rw [advance_append, advance_cons, advance_nil]

theorem column_start_advance (text : List Char) :
    (start.advance text).column = 1 + (lastLine text).length := by
  induction text using List.reverseRecOn with
  | nil => rfl
  | append_singleton text c ih =>
      rw [advance_concat, lastLine, step]
      split
      · rename_i hfeed
        rw [List.rtakeWhile_concat_neg _ _ _ (by simp [hfeed])]
        rfl
      · rename_i hother
        rw [List.rtakeWhile_concat_pos _ _ _ (by simp [hother]), List.length_append]
        exact congrArg (· + 1) ih

/-- The place behind a text is found by walking over it. -/
theorem isBehind_iff {loc : Location} {text : List Char} :
    loc.IsBehind text ↔ loc = start.advance text := by
  have hoffset : (start.advance text).offset = (String.ofList text).utf8ByteSize := by
    rw [offset_advance, utf8ByteSize_ofList]
    exact Nat.zero_add _
  have hline : (start.advance text).line = 1 + text.count '\n' := line_advance start text
  have hcolumn := column_start_advance text
  constructor
  · intro h
    cases loc with
    | mk line column offset =>
        rw [mk.injEq]
        exact ⟨h.line.trans hline.symm, h.column.trans hcolumn.symm, h.offset.trans hoffset.symm⟩
  · intro h
    rw [h]
    exact ⟨hoffset, hline, hcolumn⟩

/-! ## Order -/

theorem lt_trans {a b c : Location} (hab : a < b) (hbc : b < c) : a < c := by
  change Location.lt a b at hab
  change Location.lt b c at hbc
  change Location.lt a c
  unfold Location.lt at *
  omega

theorem lt_irrefl (a : Location) : ¬a < a := by
  change ¬Location.lt a a
  unfold Location.lt
  omega

theorem eq_of_not_lt {a b : Location} (hab : ¬a < b) (hba : ¬b < a) : a = b := by
  change ¬Location.lt a b at hab
  change ¬Location.lt b a at hba
  obtain ⟨line, column, offset⟩ := a
  obtain ⟨line', column', offset'⟩ := b
  simp only [Location.lt] at hab hba
  rw [mk.injEq]
  omega

theorem lt_step (loc : Location) (c : Char) : loc < loc.step c := by
  unfold step
  split
  · exact .inl (Nat.lt_succ_self _)
  · exact .inr ⟨rfl, .inl (Nat.lt_succ_self _)⟩

/-- The place behind a text is later than that before it. -/
theorem lt_advance (loc : Location) {text : List Char} (h : text ≠ []) :
    loc < loc.advance text := by
  induction text using List.reverseRecOn with
  | nil => exact absurd rfl h
  | append_singleton text c ih =>
      rw [advance_concat]
      rcases List.eq_nil_or_concat text with rfl | ⟨front, last, rfl⟩
      · exact lt_step loc c
      · exact lt_trans (ih (by simp)) (lt_step _ c)

theorem offset_lt_advance (loc : Location) {text : List Char} (h : text ≠ []) :
    loc.offset < (loc.advance text).offset := by
  have hlength := List.length_pos_iff.mpr h
  have hbytes := length_le_byteSize text
  rw [offset_advance]
  omega

/-- Of two texts, one of which starts with the other, the longer one ends later. -/
theorem advance_lt_advance_iff {first second : List Char}
    (h : first <+: second ∨ second <+: first) :
    start.advance first < start.advance second ↔
      (start.advance first).offset < (start.advance second).offset := by
  rcases h with ⟨more, rfl⟩ | ⟨more, rfl⟩
  · rw [advance_append]
    by_cases hmore : more = []
    · rw [hmore, advance_nil]
      exact iff_of_false (lt_irrefl _) (Nat.lt_irrefl _)
    · exact iff_of_true (lt_advance _ hmore) (offset_lt_advance _ hmore)
  · rw [advance_append]
    by_cases hmore : more = []
    · rw [hmore, advance_nil]
      exact iff_of_false (lt_irrefl _) (Nat.lt_irrefl _)
    · refine iff_of_false (fun hlt => ?_) (Nat.lt_asymm (offset_lt_advance _ hmore))
      exact lt_irrefl _ (lt_trans (lt_advance _ hmore) hlt)

end Location

end LoxReader
