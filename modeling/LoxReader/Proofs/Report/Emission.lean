/-
  `Proofs.Report.Emission`: colour is only decoration.

  Whatever is reported about a source, what is written with colours is what is written without
  them, and control codes.  No width depends on the codes, so that both are aligned in the same
  way.  The main statement is `written_decorates`.
-/
import LoxReader.Proofs.Report.Painting
import LoxReader.Proofs.Source.Lines
import LoxReader.Proofs.Tokenization.Decimal
import LoxReader.Report.Basic
import Mathlib.Algebra.GroupWithZero.Nat

set_option autoImplicit false

namespace LoxReader

/-- The texts of a diagnostic: its message, those of its labels, and its notes. -/
def Diagnostic.texts (d : Diagnostic) : List String :=
  d.message :: d.labels.map Label.message ++ d.notes

namespace Report

/-! ## What is written -/

/-- What is to be reported. -/
inductive Call where
  | one (d : Diagnostic)
  | all (ds : List Diagnostic)
  | summary (count : Nat)
  | flush

/-- The report of a call. -/
def Call.spans (source : List Char) (path : String) : Call → List Span
  | .one d => ofDiagnostic source path d
  | .all ds => ofDiagnostics source path ds
  | .summary count => Report.summary count
  | .flush => []

/-- What is written by calls one after the other. -/
def written (coloured : Bool) (source path : String) (calls : List Call) : String :=
  calls.foldl (fun out call => paintOnto coloured out (call.spans source.toList path)) ""

/-- The texts that a call reports. -/
def Call.texts : Call → List String
  | .one d => d.texts
  | .all ds => ds.flatMap Diagnostic.texts
  | .summary _ => []
  | .flush => []

/-- The number of pieces of a report that are coloured: the head and the code of each
diagnostic, the marker of each label and the head of each note. -/
def colouredPieces (d : Diagnostic) : Nat :=
  2 + d.labels.length + d.notes.length

/-- The number of pieces that are coloured in the report of a call. -/
def Call.colouredPieces : Call → Nat
  | .one d => Report.colouredPieces d
  | .all ds => (ds.map Report.colouredPieces).sum
  | .summary count => if count = 0 then 0 else 1
  | .flush => 0

theorem written_eq (coloured : Bool) (source path : String) (calls : List Call) :
    written coloured source path calls =
      paint coloured (calls.flatMap (·.spans source.toList path)) := by
  rw [paint, paintOnto, List.foldl_flatMap]
  rfl

/-! ## Texts without control codes -/

@[simp] theorem codeless_toDigits (n : Nat) : Codeless (Nat.toDigits 10 n) := by
  rw [← Nat.toList_repr]
  intro hescape
  cases isDigit_of_mem_repr hescape

@[simp] theorem codeless_text (loc : Location) : Codeless loc.text.toList := by
  have htext : loc.text = loc.line.repr ++ ":" ++ loc.column.repr := rfl
  simp +decide [htext]

@[simp] theorem codeless_spaces (count : Nat) : Codeless (spaces count).toList := by
  rw [spaces, String.toList_ofList]
  intro hescape
  cases List.eq_of_mem_replicate hescape

@[simp] theorem codeless_padding (line : List Char) (column : Nat) :
    Codeless (padding line column) := by
  intro hescape
  obtain ⟨c, -, hc⟩ := List.mem_map.mp hescape
  split at hc <;> cases hc

@[simp] theorem codeless_code (code : ErrorCode) : Codeless code.text.toList := by
  cases code <;> decide

theorem codeless_line {source : List Char} (h : Codeless source) (number : Nat) :
    Codeless (Lines.line source number) :=
  fun hescape => h ((Lines.line_infix source number).subset hescape)

/-! ## Reports without control codes -/

theorem codelessSpans_append {first second : List Span} (hfirst : CodelessSpans first)
    (hsecond : CodelessSpans second) : CodelessSpans (first ++ second) :=
  List.forall_mem_append.mpr ⟨hfirst, hsecond⟩

theorem codelessSpans_flatMap {α : Type} {items : List α} {spans : α → List Span}
    (h : ∀ item ∈ items, CodelessSpans (spans item)) : CodelessSpans (items.flatMap spans) := by
  intro span hspan
  obtain ⟨item, hitem, hspan⟩ := List.mem_flatMap.mp hspan
  exact h item hitem span hspan

section

variable {source : List Char} {path : String} (hsource : Codeless source)
  (hpath : Codeless path.toList)

include hsource in
theorem codeless_snippet (gutter : Nat) {label : Label} (h : Codeless label.message.toList) :
    CodelessSpans (snippet source gutter label) := by
  have hline := codeless_line hsource label.loc.line
  have hmarker : Codeless (marker label).text.toList := by
    unfold marker
    split <;> simp +decide [h]
  simp +decide [CodelessSpans, snippet, Span.plain, alignRight, hline, hmarker]

include hpath in
theorem codeless_arrow (gutter : Nat) (d : Diagnostic) : CodelessSpans (arrow path gutter d) := by
  unfold arrow
  split
  · exact List.forall_mem_nil _
  · simp +decide [CodelessSpans, Span.plain, hpath]

theorem codeless_noteLine (gutter : Nat) {note : String} (h : Codeless note.toList) :
    CodelessSpans (noteLine gutter note) := by
  simp +decide [CodelessSpans, noteLine, Span.plain, h]

include hsource hpath in
theorem codeless_ofDiagnostic {d : Diagnostic} (h : ∀ text ∈ d.texts, Codeless text.toList) :
    CodelessSpans (ofDiagnostic source path d) := by
  rw [Diagnostic.texts, List.cons_append, List.forall_mem_cons, List.forall_mem_append] at h
  obtain ⟨hmessage, hlabels, hnotes⟩ := h
  have hhead : CodelessSpans [⟨.error, "error"⟩, ⟨.strong, "[" ++ d.code.text ++ "]"⟩,
      .plain (": " ++ d.message ++ "\n")] := by
    simp +decide [CodelessSpans, Span.plain, hmessage]
  have hend : CodelessSpans [.plain "\n"] := List.forall_mem_singleton.mpr (by decide)
  refine codelessSpans_append (codelessSpans_append (codelessSpans_append
    (codelessSpans_append hhead (codeless_arrow hpath _ d)) ?_) ?_) hend
  · exact codelessSpans_flatMap fun label hlabel =>
      codeless_snippet hsource _ (hlabels _ (List.mem_map_of_mem hlabel))
  · exact codelessSpans_flatMap fun note hnote => codeless_noteLine _ (hnotes note hnote)

theorem codeless_summary (count : Nat) : CodelessSpans (summary count) := by
  unfold summary
  split
  · exact List.forall_mem_nil _
  · exact List.forall_mem_cons.mpr ⟨by decide, List.forall_mem_singleton.mpr (by decide)⟩
  · simp +decide [CodelessSpans, Span.plain]

include hsource hpath in
theorem codeless_call {call : Call} (h : ∀ text ∈ call.texts, Codeless text.toList) :
    CodelessSpans (call.spans source path) := by
  cases call with
  | one d => exact codeless_ofDiagnostic hsource hpath h
  | all ds =>
      refine codelessSpans_flatMap fun d hd => codeless_ofDiagnostic hsource hpath ?_
      exact fun text htext => h text (List.mem_flatMap.mpr ⟨d, hd, htext⟩)
  | summary count => exact codeless_summary count
  | flush => exact List.forall_mem_nil _

end

/-! ## Coloured pieces -/

theorem countP_flatMap_of_eq_one {α : Type} {items : List α} {spans : α → List Span}
    (h : ∀ item, (spans item).countP Span.isStyled = 1) :
    (items.flatMap spans).countP Span.isStyled = items.length := by
  induction items with
  | nil => rfl
  | cons item items ih =>
      rw [List.flatMap_cons, List.countP_append, h item, ih, List.length_cons, Nat.add_comm]

theorem countP_ofDiagnostic (source : List Char) (path : String) (d : Diagnostic) :
    (ofDiagnostic source path d).countP Span.isStyled = colouredPieces d := by
  have harrow : (arrow path (gutterWidth d.labels) d).countP Span.isStyled = 0 := by
    unfold arrow
    split <;> rfl
  have hlabel : ∀ label,
      (snippet source (gutterWidth d.labels) label).countP Span.isStyled = 1 := by
    intro label
    simp only [snippet, marker]
    split <;> rfl
  have hnote : ∀ note, (noteLine (gutterWidth d.labels) note).countP Span.isStyled = 1 :=
    fun _ => rfl
  simp only [ofDiagnostic, List.countP_append, harrow, countP_flatMap_of_eq_one hlabel,
    countP_flatMap_of_eq_one hnote]
  rfl

theorem countP_summary (count : Nat) :
    (summary count).countP Span.isStyled = if count = 0 then 0 else 1 := by
  unfold summary
  split
  · rfl
  · rfl
  · rename_i hzero _
    rw [if_neg hzero]
    rfl

theorem countP_call (source : List Char) (path : String) (call : Call) :
    (call.spans source path).countP Span.isStyled = call.colouredPieces := by
  cases call with
  | one d => exact countP_ofDiagnostic source path d
  | all ds =>
      rw [Call.spans, ofDiagnostics, List.countP_flatMap, Call.colouredPieces]
      simp only [Function.comp_def, countP_ofDiagnostic]
  | summary count => exact countP_summary count
  | flush => rfl

/-! ## Colour is decoration -/

/-- What is written with colours is what is written without them and two control codes for each
piece that is coloured, if no control code starts in what is reported. -/
theorem written_decorates {source path : String} {calls : List Call}
    (hsource : Codeless source.toList) (hpath : Codeless path.toList)
    (hcalls : ∀ call ∈ calls, ∀ text ∈ call.texts, Codeless text.toList) :
    withoutCodes (written true source path calls).toList =
        (written false source path calls).toList ∧
      Codeless (written false source path calls).toList ∧
      (written true source path calls).toList.count escape =
        2 * (calls.map Call.colouredPieces).sum := by
  have hspans : CodelessSpans (calls.flatMap (·.spans source.toList path)) :=
    codelessSpans_flatMap fun call hcall => codeless_call hsource hpath (hcalls call hcall)
  rw [written_eq, written_eq]
  refine ⟨withoutCodes_paint hspans, codeless_paint_false hspans, ?_⟩
  rw [count_paint hspans, List.countP_flatMap]
  simp only [Function.comp_def, countP_call]

/-- Two labels, one of them behind a tab, a label on a line that the source does not have, a note
and a summary. -/
theorem written_decorates_labels :
    let d : Diagnostic := ⟨.unclosedDelimiter, "unclosed", [⟨⟨2, 2, 3⟩, "here", true⟩,
      ⟨⟨1, 1, 0⟩, "opened", false⟩, ⟨⟨12, 0, 0⟩, "", false⟩], ["note"]⟩
    let calls : List Call := [.one d, .all [d, d], .summary 3]
    withoutCodes (written true "(\n\t1" "demo.lox" calls).toList =
        (written false "(\n\t1" "demo.lox" calls).toList ∧
      (written true "(\n\t1" "demo.lox" calls).toList.count escape = 38 := by
  intro d calls
  obtain ⟨hwritten, -, hcount⟩ :=
    @written_decorates "(\n\t1" "demo.lox" calls (by decide) (by decide) (by decide)
  exact ⟨hwritten, hcount⟩

end Report

end LoxReader
