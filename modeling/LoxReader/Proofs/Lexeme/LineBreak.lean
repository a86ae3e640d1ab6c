/-
  `Proofs.Lexeme.LineBreak`: lexemes in front of a line feed.

  Each lexeme that is cut off stops where what it leaves starts (`stopsAt_next`), and a line
  feed goes on with none but blanks and a string that is left open.  So what stands behind a
  line feed has no say in what is cut off before it (`next_append_feed`).
-/
import LoxReader.Proofs.Lexeme.Munch

set_option autoImplicit false

namespace LoxReader.Lexeme

/-! ## Where lexemes stop -/

/-- What is left of a text behind its longest run does not go on with the run. -/
theorem head_dropWhile_eq_false {p : Char → Bool} {text : List Char} {c : Char}
    (h : c ∈ (text.dropWhile p).head?) : p c = false := by
  have hhead := List.head?_dropWhile_not p text
  rw [h] at hhead
  simpa using hhead

theorem stopsAt_nextString (rest : List Char) :
    (nextString rest).1.StopsAt (nextString rest).2 := by
  unfold nextString
  split
  · rfl
  · trivial

/-- A symbol that was extended is not extended further, and one that was not could not be. -/
theorem stopsAt_nextSymbol (s : Symbol) (rest : List Char) :
    (nextSymbol s rest).1.StopsAt (nextSymbol s rest).2 := by
  unfold nextSymbol
  split
  · intro c hc
    simpa using head_dropWhile_eq_false hc
  · rename_i hcomment
    unfold Symbol.extend
    split
    · rename_i longer after hlonger
      intro c _
      cases s <;> simp only [Symbol.withEqual?, reduceCtorEq, Option.some.injEq] at hlonger <;>
        subst hlonger <;> simp [Symbol.withEqual?]
    · rename_i hnone
      intro c hc
      obtain ⟨after, rfl⟩ := List.head?_eq_some_iff.mp hc
      constructor
      · rintro rfl
        exact Option.eq_none_iff_forall_ne_some.mpr fun longer hlonger =>
          hnone longer after hlonger rfl
      · rintro rfl rfl
        exact hcomment after rfl rfl

/-- What a lexeme leaves does not go on with it. -/
theorem stopsAt_next (c : Char) (rest : List Char) : (next c rest).1.StopsAt (next c rest).2 := by
  unfold next
  split
  · intro d hd
    exact head_dropWhile_eq_false hd
  split
  · intro d hd
    exact head_dropWhile_eq_false hd
  split
  · intro d hd
    exact head_dropWhile_eq_false hd
  split
  · exact stopsAt_nextString rest
  split
  · exact stopsAt_nextSymbol _ rest
  · trivial

/-! ## In front of a line feed -/

/-- Whether a line feed can go on with the lexeme. -/
def GoesOnBehindFeed : Lexeme → Prop
  | .blanks _ => True
  | .unclosed _ => True
  | _ => False

/-- A text that does not go on with a lexeme still does not in front of a line feed. -/
theorem StopsAt.append_feed {l : Lexeme} {after : List Char} (h : l.StopsAt after)
    (hl : ¬ l.GoesOnBehindFeed) (more : List Char) : l.StopsAt (after ++ '\n' :: more) := by
  cases after with
  | nil =>
      cases l with
      | blanks text => exact absurd trivial hl
      | unclosed body => exact absurd trivial hl
      | quoted body => trivial
      | stray c => trivial
      | _ => simp [StopsAt] <;> decide
  | cons c after =>
      cases l with
      | unclosed body => exact absurd trivial hl
      | quoted body => trivial
      | stray c => trivial
      | _ => exact h

/-- A character that starts no lexeme starts none in any text. -/
theorem next_of_stray {c : Char} {rest : List Char} (h : next c rest = (.stray c, rest))
    (other : List Char) : next c other = (.stray c, other) := by
  unfold next at h ⊢
  split at h
  · cases h
  split at h
  · cases h
  split at h
  · cases h
  split at h
  · exfalso
    have hin := inGrammar_nextString rest
    rw [h] at hin
    exact hin
  split at h
  · rename_i s _
    exfalso
    have hin := inGrammar_nextSymbol s rest
    rw [h] at hin
    exact hin
  · simp [*]

/-- What stands behind a line feed does not change the lexeme that is cut off before it. -/
theorem next_append_feed {c : Char} {rest : List Char} (h : ¬ (next c rest).1.GoesOnBehindFeed)
    (more : List Char) :
    next c (rest ++ '\n' :: more) = ((next c rest).1, (next c rest).2 ++ '\n' :: more) := by
  rcases inGrammar_next c rest with hin | hstray
  · obtain ⟨tail, htext, hrest⟩ := exists_tail_of_next hin
    have hstops := (stopsAt_next c rest).append_feed h more
    have hnext := next_of_stopsAt hin hstops htext
    rwa [← List.append_assoc, hrest] at hnext
  · rw [hstray]
    exact next_of_stray hstray _

end LoxReader.Lexeme
