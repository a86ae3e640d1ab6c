/-
  `Proofs.Source.Lines`: the line of a place, as it is shown.

  A line as it is shown ends in front of its break (`restOfLine_firstLine`).  The line that the
  line feeds before a place lead to has the characters that the column of the place counts,
  and goes on as the text behind the place does (`line_behind`), unless that starts with a
  part of a line break.
-/
import LoxReader.Proofs.Source.Counting
import LoxReader.Source.Lines

set_option autoImplicit false

namespace LoxReader

theorem feed_not_mem_lastLine (text : List Char) : '\n' ∉ lastLine text := by
  intro hfeed
  have hbne := List.mem_rtakeWhile_imp hfeed
  simp at hbne

namespace Lines

/-! ## Leaving lines out -/

theorem dropLines_zero (text : List Char) : dropLines 0 text = text := by
  rw [dropLines]

theorem dropLines_nil (n : Nat) : dropLines n [] = [] := by
  cases n <;> rfl

theorem dropLines_add (m n : Nat) (text : List Char) :
    dropLines (m + n) text = dropLines m (dropLines n text) := by
  induction text generalizing n with
  | nil => rw [dropLines_nil, dropLines_nil, dropLines_nil]
  | cons c text ih =>
      cases n with
      | zero => rw [Nat.add_zero, dropLines_zero]
      | succ n =>
          rw [← Nat.add_assoc, dropLines, dropLines]
          split
          · exact ih n
          · exact ih (n + 1)

theorem dropLines_one {run : List Char} (h : '\n' ∉ run) (after : List Char) :
    dropLines 1 (run ++ '\n' :: after) = after := by
  induction run with
  | nil => rw [List.nil_append, dropLines, if_pos rfl, dropLines_zero]
  | cons c run ih =>
      rw [List.mem_cons, not_or] at h
      rw [List.cons_append, dropLines, if_neg (Ne.symm h.1)]
      exact ih h.2

/-- Behind as many lines as a text has line feeds there is its last line. -/
theorem dropLines_count (before after : List Char) :
    dropLines (before.count '\n') (before ++ after) = lastLine before ++ after := by
  induction before using List.reverseRecOn generalizing after with
  | nil => exact dropLines_zero after
  | append_singleton front c ih =>
      have hfront := ih (c :: after)
      rw [List.count_append, List.append_assoc, List.singleton_append, lastLine]
      by_cases hc : c = '\n'
      · subst hc
        rw [List.rtakeWhile_concat_neg _ _ _ (by simp), List.nil_append, List.count_singleton_self,
          Nat.add_comm, dropLines_add, hfront]
        exact dropLines_one (feed_not_mem_lastLine front) after
      · rw [List.rtakeWhile_concat_pos _ _ _ (by simp [hc]), List.append_assoc,
          List.count_singleton, beq_eq_false_iff_ne.mpr hc]
        exact hfront

/-! ## Where lines end -/

/-- What stands in a text before its first line break: all of it if there is none.  A carriage
return directly before the line feed is part of the break. -/
inductive RestOfLine : List Char → List Char → Prop
  | all {rest : List Char} : '\n' ∉ rest → RestOfLine rest rest
  | feed {rest more : List Char} : '\n' ∉ rest → rest.getLast? ≠ some '\r' →
      RestOfLine (rest ++ '\n' :: more) rest
  | returnFeed {rest more : List Char} : '\n' ∉ rest →
      RestOfLine (rest ++ '\r' :: '\n' :: more) rest

theorem feed_not_mem_takeWhile (text : List Char) : '\n' ∉ text.takeWhile (· != '\n') := by
  intro hfeed
  have hbne := List.mem_takeWhile_imp hfeed
  simp at hbne

theorem restOfLine_firstLine (text : List Char) : RestOfLine text (firstLine text) := by
  have hsplit := List.takeWhile_append_dropWhile (p := (· != '\n')) (l := text)
  have hrun := feed_not_mem_takeWhile text
  simp only [firstLine]
  split
  · rename_i hdrop
    rw [hdrop, List.append_nil] at hsplit
    rw [hsplit] at hrun ⊢
    exact .all hrun
  · rename_i c more hdrop
    have hc : c = '\n' := by
      have hhead := List.head?_dropWhile_not (· != '\n') text
      rw [hdrop] at hhead
      simpa using hhead
    rw [hdrop, hc] at hsplit
    unfold dropReturn
    split
    · rename_i hreturn
      obtain ⟨rest, hrest⟩ := List.getLast?_eq_some_iff.mp hreturn
      rw [hrest] at hrun hsplit ⊢
      rw [List.dropLast_concat, ← hsplit, List.append_assoc]
      exact .returnFeed fun hfeed => hrun (List.mem_append_left _ hfeed)
    · rename_i hnone
      have hfeed : RestOfLine (text.takeWhile (· != '\n') ++ '\n' :: more) _ := .feed hrun hnone
      rwa [hsplit] at hfeed

/-- A text that does not start with a part of a line break starts as its first line does. -/
theorem RestOfLine.head?_eq {text rest : List Char} (h : RestOfLine text rest)
    (htext : ∀ c ∈ text.head?, c ≠ '\n' ∧ c ≠ '\r') : rest.head? = text.head? := by
  cases h with
  | all _ => rfl
  | @feed rest more _ _ =>
      cases rest with
      | nil => exact absurd rfl (htext '\n' rfl).1
      | cons c rest => rfl
  | @returnFeed rest more _ =>
      cases rest with
      | nil => exact absurd rfl (htext '\r' rfl).2
      | cons c rest => rfl

/-! ## Lines in two parts -/

/-- A line of which a part comes before `after` goes on as `after` does, unless a part of a line
break does. -/
theorem firstLine_append {last after : List Char} (hlast : '\n' ∉ last)
    (hafter : ∀ c ∈ after.head?, c ≠ '\n' ∧ c ≠ '\r') :
    firstLine (last ++ after) = last ++ firstLine after := by
  have hall : ∀ c ∈ last, (c != '\n') = true := by
    intro c hc
    rw [bne_iff_ne]
    rintro rfl
    exact hlast hc
  simp only [firstLine, List.takeWhile_append_of_pos hall, List.dropWhile_append_of_pos hall]
  split
  · rfl
  · have hbody : after.takeWhile (· != '\n') ≠ [] := by
      cases after with
      | nil => simp at *
      | cons c rest => simp [(hafter c rfl).1]
    unfold dropReturn
    rw [List.getLast?_append_of_ne_nil _ hbody, List.dropLast_append_of_ne_nil hbody]
    split
    · rfl
    · rfl

/-- The line that the line feeds of a text lead to has the last line of the text, and what
stands behind it up to the line break. -/
theorem line_behind {before after : List Char}
    (hafter : ∀ c ∈ after.head?, c ≠ '\n' ∧ c ≠ '\r') :
    line (before ++ after) (1 + before.count '\n') = lastLine before ++ firstLine after := by
  rw [line, Nat.add_sub_cancel_left, dropLines_count]
  exact firstLine_append (feed_not_mem_lastLine before) hafter

/-! ## Lines are parts of a text -/

theorem dropLines_suffix (n : Nat) (text : List Char) : dropLines n text <:+ text := by
  induction text generalizing n with
  | nil => exact List.suffix_nil.mpr (dropLines_nil n)
  | cons c text ih =>
      cases n with
      | zero => exact dropLines_zero (c :: text) ▸ List.suffix_refl _
      | succ n =>
          rw [dropLines]
          split
          · exact (ih n).trans (List.suffix_cons c text)
          · exact (ih (n + 1)).trans (List.suffix_cons c text)

theorem firstLine_prefix_self (text : List Char) : firstLine text <+: text := by
  have hrun : text.takeWhile (· != '\n') <+: text := List.takeWhile_prefix _
  simp only [firstLine, dropReturn]
  split
  · exact hrun
  · split
    · exact (List.dropLast_prefix _).trans hrun
    · exact hrun

/-- What is shown of a line stands in the text. -/
theorem line_infix (text : List Char) (number : Nat) : line text number <:+: text :=
  (firstLine_prefix_self _).isInfix.trans (dropLines_suffix _ _).isInfix

end Lines

end LoxReader
