/-
  `Proofs.Report.Painting`: what is written of spans, and what is left of it without colours.

  A control code starts with an escape character.  Where no text has one, the codes in what is
  written are those that turn a style on or off, and without them it is what is written without
  colours (`withoutCodes_paint`).
-/
import LoxReader.Report.Color

set_option autoImplicit false

namespace LoxReader

/-! ## Parts of a report -/

theorem paintOnto_eq (coloured : Bool) (out : String) (spans : List Span) :
    paintOnto coloured out spans = out ++ paint coloured spans := by
  rw [paint, paintOnto, paintOnto]
  induction spans generalizing out with
  | nil => exact (String.append_empty).symm
  | cons span spans ih =>
      rw [List.foldl_cons, List.foldl_cons, ih, ih ("" ++ span.paint coloured), String.empty_append,
        String.append_assoc]

theorem paint_append (coloured : Bool) (first second : List Span) :
    paint coloured (first ++ second) = paint coloured first ++ paint coloured second := by
  rw [← paintOnto_eq, paint, paint, paintOnto, paintOnto, paintOnto, List.foldl_append]

theorem paint_cons (coloured : Bool) (span : Span) (spans : List Span) :
    paint coloured (span :: spans) = span.paint coloured ++ paint coloured spans := by
  have hspan : paint coloured [span] = span.paint coloured := String.empty_append
  rw [← hspan, ← paint_append]
  rfl

/-- A part of a report is painted as it is on its own. -/
theorem exists_paint_of_infix {part spans : List Span} (h : part <:+: spans) (coloured : Bool) :
    ∃ above below, paint coloured spans = above ++ paint coloured part ++ below := by
  obtain ⟨first, second, rfl⟩ := h
  rw [paint_append, paint_append]
  exact ⟨_, _, rfl⟩

/-! ## Control codes -/

/-- The character that control codes start with. -/
def escape : Char := '\x1b'

/-- No control code starts in the text. -/
def Codeless (text : List Char) : Prop :=
  escape ∉ text

instance (text : List Char) : Decidable (Codeless text) :=
  inferInstanceAs (Decidable (escape ∉ text))

@[simp] theorem codeless_nil : Codeless [] :=
  List.not_mem_nil

@[simp] theorem codeless_cons {c : Char} {text : List Char} :
    Codeless (c :: text) ↔ c ≠ escape ∧ Codeless text := by
  rw [Codeless, List.mem_cons, not_or, ne_comm]
  rfl

@[simp] theorem codeless_append {first second : List Char} :
    Codeless (first ++ second) ↔ Codeless first ∧ Codeless second := by
  rw [Codeless, List.mem_append, not_or]
  rfl

/-- What stands behind the character that ends a control code, given what stands behind its
bracket.  The characters from the space to the question mark are parameters of the code, and
one from the at sign to the tilde ends it. -/
def behindFinal? : List Char → Option (List Char)
  | [] => none
  | c :: rest =>
    if '@' ≤ c ∧ c ≤ '~' then some rest
    else if ' ' ≤ c ∧ c ≤ '?' then behindFinal? rest
    else none

/-- What stands behind the control code that a text starts with. -/
def behindCode? : List Char → Option (List Char)
  | '\x1b' :: '[' :: rest => behindFinal? rest
  | _ => none

theorem length_lt_of_behindFinal? {text rest : List Char} (h : behindFinal? text = some rest) :
    rest.length < text.length := by
  induction text with
  | nil => cases h
  | cons c text ih =>
      rw [behindFinal?] at h
      split at h
      · cases h
        exact Nat.lt_succ_self _
      · split at h
        · exact Nat.lt_succ_of_lt (ih h)
        · cases h

theorem length_lt_of_behindCode? {text rest : List Char} (h : behindCode? text = some rest) :
    rest.length < text.length := by
  unfold behindCode? at h
  split at h
  · have hlength := length_lt_of_behindFinal? h
    simp only [List.length_cons]
    omega
  · cases h

/-- The text without its control codes. -/
def withoutCodes (text : List Char) : List Char :=
  match _h : behindCode? text with
  | some rest => withoutCodes rest
  | none =>
    match text with
    | [] => []
    | c :: rest => c :: withoutCodes rest
termination_by text.length
decreasing_by
  · exact length_lt_of_behindCode? ‹_›
  · exact Nat.lt_succ_self _

theorem withoutCodes_nil : withoutCodes [] = [] := by
  rw [withoutCodes]
  rfl

theorem withoutCodes_of_code {text rest : List Char} (h : behindCode? text = some rest) :
    withoutCodes text = withoutCodes rest := by
  rw [withoutCodes]
  split
  · rename_i rest' h'
    rw [Option.some.inj (h.symm.trans h')]
  · rename_i h'
    rw [h] at h'
    cases h'

theorem withoutCodes_cons {c : Char} (h : c ≠ escape) (rest : List Char) :
    withoutCodes (c :: rest) = c :: withoutCodes rest := by
  have hcode : behindCode? (c :: rest) = none := by
    unfold behindCode?
    split
    · rename_i heq
      exact absurd (List.cons.inj heq).1 h
    · rfl
  rw [withoutCodes]
  split
  · rename_i h'
    rw [hcode] at h'
    cases h'
  · rfl

theorem withoutCodes_append {text : List Char} (h : Codeless text) (rest : List Char) :
    withoutCodes (text ++ rest) = text ++ withoutCodes rest := by
  induction text with
  | nil => rfl
  | cons c text ih =>
      rw [codeless_cons] at h
      rw [List.cons_append, withoutCodes_cons h.1, ih h.2, List.cons_append]

/-! ## Styles -/

/-- The code of a style is a control code. -/
theorem behindCode?_code {style : Style} {code : String} (h : style.code? = some code)
    (rest : List Char) : behindCode? (code.toList ++ rest) = some rest := by
  cases style <;> cases h <;> rfl

theorem behindCode?_reset (rest : List Char) :
    behindCode? (Style.reset.toList ++ rest) = some rest :=
  rfl

/-- Whether the span is written with control codes where there are colours. -/
def Span.isStyled (span : Span) : Bool :=
  span.style.code?.isSome

theorem Span.paint_false (span : Span) : span.paint false = span.text := by
  unfold Span.paint
  split <;> rfl

/-- Without its control codes a span is what is written of it without colours. -/
theorem Span.withoutCodes_paint {span : Span} (h : Codeless span.text.toList)
    (rest : List Char) :
    withoutCodes ((span.paint true).toList ++ rest) = span.text.toList ++ withoutCodes rest := by
  unfold Span.paint
  split
  · exact withoutCodes_append h rest
  · rename_i code hcode
    rw [if_pos rfl, String.toList_append, String.toList_append, List.append_assoc,
      List.append_assoc, withoutCodes_of_code (behindCode?_code hcode _), withoutCodes_append h,
      withoutCodes_of_code (behindCode?_reset rest)]

/-- A span has two control codes if it is styled, and none if it is not. -/
theorem Span.count_paint {span : Span} (h : Codeless span.text.toList) :
    (span.paint true).toList.count escape = if span.isStyled then 2 else 0 := by
  have htext : span.text.toList.count escape = 0 := List.count_eq_zero.mpr h
  have hreset : Style.reset.toList.count escape = 1 := by decide
  unfold Span.paint Span.isStyled
  split
  · rename_i hcode
    rw [htext, hcode]
    rfl
  · rename_i code hcode
    have hone : code.toList.count escape = 1 := by
      cases hstyle : span.style <;> rw [hstyle] at hcode <;> cases hcode <;> decide
    rw [if_pos rfl, String.toList_append, String.toList_append, List.count_append,
      List.count_append, hone, htext, hreset, hcode]
    rfl

/-! ## Reports -/

/-- No control code starts in the text of a span. -/
def CodelessSpans (spans : List Span) : Prop :=
  ∀ span ∈ spans, Codeless span.text.toList

theorem toList_paint_false (spans : List Span) :
    (paint false spans).toList = spans.flatMap (·.text.toList) := by
  induction spans with
  | nil => rfl
  | cons span spans ih =>
      rw [paint_cons, String.toList_append, Span.paint_false, ih, List.flatMap_cons]

/-- Without its control codes a report is what is written of it without colours. -/
theorem withoutCodes_paint {spans : List Span} (h : CodelessSpans spans) :
    withoutCodes (paint true spans).toList = (paint false spans).toList := by
  rw [toList_paint_false]
  induction spans with
  | nil => exact withoutCodes_nil
  | cons span spans ih =>
      obtain ⟨hspan, hspans⟩ := List.forall_mem_cons.mp h
      rw [paint_cons, String.toList_append, Span.withoutCodes_paint hspan, ih hspans,
        List.flatMap_cons]

/-- A report has two control codes for each styled span. -/
theorem count_paint {spans : List Span} (h : CodelessSpans spans) :
    (paint true spans).toList.count escape = 2 * spans.countP Span.isStyled := by
  induction spans with
  | nil => rfl
  | cons span spans ih =>
      obtain ⟨hspan, hspans⟩ := List.forall_mem_cons.mp h
      rw [paint_cons, String.toList_append, List.count_append, Span.count_paint hspan, ih hspans,
        List.countP_cons]
      split <;> omega

theorem codeless_paint_false {spans : List Span} (h : CodelessSpans spans) :
    Codeless (paint false spans).toList := by
  rw [toList_paint_false, Codeless, List.mem_flatMap]
  rintro ⟨span, hspan, hescape⟩
  exact h span hspan hescape

end LoxReader
