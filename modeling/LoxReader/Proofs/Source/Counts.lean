/-
  `Proofs.Source.Counts`: which texts have places that can all be stored.

  Lines and columns start at 1, offsets at 0.  So a text whose bytes can just be counted may
  have one line or one column too many: it does if it has as many characters as that, and all
  of them are line feeds or none is.  The last place of such a text is the first one that cannot
  be stored (`counts_iff_fits`).  The main statement is `counts_iff_not_fills`.
-/
import LoxReader.Proofs.Source.Counting

set_option autoImplicit false

namespace LoxReader.Location

/-! ## The places on the way -/

/-- Each step over a text, from a place on, leads to a place that can be stored. -/
def Counts (loc : Location) (text : List Char) : Prop :=
  ∀ before c after, text = before ++ c :: after → ((loc.advance before).step c).Fits

theorem counts_nil (loc : Location) : loc.Counts [] := by
  intro before c after h
  simp at h

theorem counts_append {loc : Location} {first second : List Char} :
    loc.Counts (first ++ second) ↔ loc.Counts first ∧ (loc.advance first).Counts second := by
  constructor
  · intro h
    refine ⟨fun before c after hfirst => ?_, fun before c after hsecond => ?_⟩
    · exact h before c (after ++ second) (by simp [hfirst])
    · rw [← advance_append]
      exact h (first ++ before) c after (by simp [hsecond])
  · rintro ⟨hfirst, hsecond⟩ before c after h
    rcases List.append_eq_append_iff.mp h with ⟨more, rfl, hmore⟩ | ⟨more, rfl, hmore⟩
    · rw [advance_append]
      exact hsecond more c after hmore
    · cases more with
      | nil =>
          rw [List.append_nil] at hsecond
          exact hsecond [] c after hmore.symm
      | cons c' more =>
          rw [List.cons_append, List.cons.injEq] at hmore
          exact hmore.1 ▸ hfirst before c' more rfl

theorem counts_singleton {loc : Location} {c : Char} : loc.Counts [c] ↔ (loc.step c).Fits := by
  constructor
  · exact fun h => h [] c [] rfl
  · intro h before c' after heq
    cases before with
    | nil =>
        rw [List.nil_append, List.cons.injEq] at heq
        exact heq.1 ▸ h
    | cons first before => simp at heq

theorem counts_cons {loc : Location} {c : Char} {text : List Char} :
    loc.Counts (c :: text) ↔ (loc.step c).Fits ∧ (loc.step c).Counts text := by
  rw [← List.singleton_append, counts_append, counts_singleton]
  rfl

/-! ## Texts that fill a field -/

/-- The text has the largest number of characters that a field can store, and all of them are
line feeds or none is. -/
def Fills (text : List Char) : Prop :=
  text.length = fieldLimit - 1 ∧ ((∀ c ∈ text, c = '\n') ∨ '\n' ∉ text)

theorem lastLine_of_feed_not_mem {text : List Char} (h : '\n' ∉ text) : lastLine text = text := by
  rw [lastLine, List.rtakeWhile_eq_self_iff]
  intro c hc
  rw [bne_iff_ne]
  rintro rfl
  exact h hc

theorem length_lastLine_le (text : List Char) : (lastLine text).length ≤ text.length :=
  (List.rtakeWhile_suffix _ _).length_le

/-- The last line of a text is all of it only if the text has no line feed. -/
theorem feed_not_mem_of_length_lastLine {text : List Char}
    (h : (lastLine text).length = text.length) : '\n' ∉ text := by
  have hall : lastLine text = text := (List.rtakeWhile_suffix _ _).eq_of_length h
  rw [lastLine, List.rtakeWhile_eq_self_iff] at hall
  intro hfeed
  have hne := hall '\n' hfeed
  simp at hne

/-- Behind a text whose bytes can be counted the place can be stored unless the text fills a
field. -/
theorem fits_advance_iff {text : List Char} (h : byteSize text ≤ fieldLimit - 1) :
    (start.advance text).Fits ↔ ¬Fills text := by
  have hlength := length_le_byteSize text
  have hlimit : 0 < fieldLimit := by decide
  have hfeeds : text.count '\n' ≤ text.length := List.count_le_length
  have hlast := length_lastLine_le text
  have hline : (start.advance text).line = 1 + text.count '\n' := line_advance start text
  have hcolumn := column_start_advance text
  have hoffset : (start.advance text).offset = 0 + byteSize text := offset_advance start text
  rw [Fits, hline, hcolumn, hoffset]
  constructor
  · rintro ⟨hlines, hcolumns, -⟩ ⟨hfull, hall | hnone⟩
    · have hcount : text.count '\n' = text.length :=
        List.count_eq_length.mpr fun c hc => (hall c hc).symm
      omega
    · rw [lastLine_of_feed_not_mem hnone] at hcolumns
      omega
  · intro hfills
    refine ⟨?_, ?_, by omega⟩
    · by_contra hmany
      have hcount : text.count '\n' = text.length := by omega
      refine hfills ⟨by omega, .inl fun c hc => ?_⟩
      exact (List.count_eq_length.mp hcount c hc).symm
    · by_contra hmany
      have hwhole : (lastLine text).length = text.length := by omega
      exact hfills ⟨by omega, .inr (feed_not_mem_of_length_lastLine hwhole)⟩

/-- In a text whose bytes can be counted all places can be stored if the last one can. -/
theorem counts_iff_fits {text : List Char} (h : byteSize text ≤ fieldLimit - 1) :
    start.Counts text ↔ (start.advance text).Fits := by
  constructor
  · intro hcounts
    rcases List.eq_nil_or_concat text with rfl | ⟨front, last, rfl⟩
    · exact (fits_advance_iff h).mpr fun hfills => by cases hfills.1
    · rw [List.concat_eq_append, advance_concat]
      exact hcounts front last [] (List.concat_eq_append)
  · rintro hfits before c after rfl
    rw [fits_advance_iff h] at hfits
    rw [← advance_concat]
    rw [List.append_cons] at h hfits
    have hsize : byteSize (before ++ [c]) + byteSize after ≤ fieldLimit - 1 := by
      rwa [byteSize_append] at h
    refine (fits_advance_iff (by omega)).mpr fun hfills => hfits ?_
    -- Nothing is left behind a part that fills a field already.
    have hpart := length_le_byteSize (before ++ [c])
    have hrest := length_le_byteSize after
    have hnil : after = [] := List.eq_nil_of_length_eq_zero (by have := hfills.1; omega)
    rwa [hnil, List.append_nil]

/-- In a text whose bytes can be counted all places can be stored unless it fills a field. -/
theorem counts_iff_not_fills {text : List Char} (h : byteSize text ≤ fieldLimit - 1) :
    start.Counts text ↔ ¬Fills text :=
  (counts_iff_fits h).trans (fits_advance_iff h)

/-- In a text with fewer bytes than the largest number that can be stored all places can be. -/
theorem counts_of_lt {text : List Char} (h : byteSize text < fieldLimit - 1) :
    start.Counts text :=
  (counts_iff_fits (Nat.le_of_lt h)).mpr (fits_advance h)

end LoxReader.Location
