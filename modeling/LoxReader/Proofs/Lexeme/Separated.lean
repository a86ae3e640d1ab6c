/-
  `Proofs.Lexeme.Separated`: lexemes that can be written one behind the other.

  Lexemes are separated if none of them goes on into the text of those behind it.  The
  text of separated lexemes is cut into just these.
-/
import LoxReader.Proofs.Lexeme.Munch

set_option autoImplicit false

namespace LoxReader

namespace Lexeme

/-- Whether each lexeme stops where the text of those behind it starts. -/
def Separated : List Lexeme → Prop
  | [] => True
  | l :: ls => l.InGrammar ∧ l.StopsAt (ls.flatMap text) ∧ Separated ls

end Lexeme

/-- The text of separated lexemes is cut into these lexemes. -/
theorem lexemes_of_separated {ls : List Lexeme} (h : Lexeme.Separated ls) :
    lexemes (ls.flatMap Lexeme.text) = ls := by
  induction ls with
  | nil => exact lexemes_nil
  | cons l ls ih =>
      obtain ⟨hl, hstops, hls⟩ := h
      obtain ⟨c, tail, htext⟩ := List.exists_cons_of_ne_nil (Lexeme.text_ne_nil hl)
      rw [List.flatMap_cons, htext, List.cons_append, lexemes_cons,
        Lexeme.next_of_stopsAt hl hstops htext, ih hls]

/-- What a text is cut into is lexemes of the grammar and stray characters. -/
theorem inGrammar_of_mem_lexemes {text : List Char} {l : Lexeme} (h : l ∈ lexemes text) :
    l.InGrammar ∨ ∃ c, l = .stray c := by
  have hmunch := maximalMunch_lexemes text
  generalize lexemes text = ls at h hmunch
  induction hmunch with
  | nil => cases h
  | lexeme hlongest _ ih =>
      rcases List.mem_cons.mp h with rfl | h
      · exact .inl hlongest.inGrammar
      · exact ih h
  | stray _ _ ih =>
      rcases List.mem_cons.mp h with rfl | h
      · exact .inr ⟨_, rfl⟩
      · exact ih h

end LoxReader
