/-
  `Proofs.Report.Snippet`: a label is shown below the character that it is about.

  Places count lines and columns while the source is read, and a report looks up the line of a
  place in the source as a whole.  The two agree at every place where a token stands: the line
  that is shown is the one around the place, and the blanks below it reach up to the place
  (`points_snippet`).  The main statement is `ofSource_snippets`.
-/
import LoxReader.Proofs.Diagnosis
import LoxReader.Proofs.Report.Painting
import LoxReader.Proofs.Source.Lines
import LoxReader.Proofs.Tokenization.Placement

set_option autoImplicit false

namespace LoxReader

namespace Report

/-! ## The two lines of a snippet -/

/-- A line of the source behind its number, which is set in to the width of the gutter. -/
def topLine (gutter number : Nat) (line : List Char) : List Char :=
  List.replicate (gutter - number.repr.length) ' ' ++ number.repr.toList ++ [' ', '|', ' '] ++ line

/-- The marker of a label. -/
def markerChar (label : Label) : Char :=
  if label.isPrimary then '^' else '-'

/-- A marker with its message, behind as much room as a number has and some blanks. -/
def bottomLine (gutter : Nat) (pad : List Char) (label : Label) : List Char :=
  List.replicate gutter ' ' ++ [' ', '|', ' '] ++ pad ++
    markerChar label :: ' ' :: label.message.toList

/-- Where the marker stands in its line: behind the gutter, the bar and the blanks. -/
def markerIndex (gutter : Nat) (label : Label) : Nat :=
  gutter + 3 + (label.loc.column - 1)

/-- The blank below a character: a tab below a tab, and a space below any other. -/
def Below (c blank : Char) : Prop :=
  (c = '\t' ∧ blank = '\t') ∨ (c ≠ '\t' ∧ blank = ' ')

/-- The snippet of a label points to the place where `before` ends in the source and `after`
starts. -/
structure Points (source : List Char) (gutter : Nat) (label : Label)
    (before after line pad : List Char) : Prop where
  source_eq : source = before ++ after
  place : label.loc.IsBehind before
  /-- The line around the place is shown, without its break. -/
  line_eq : ∃ rest, Lines.RestOfLine after rest ∧ line = lastLine before ++ rest
  /-- There is room for the number of the line. -/
  fits : label.loc.line.repr.length ≤ gutter
  text_eq : paint false (snippet source gutter label) =
    String.ofList
      (topLine gutter label.loc.line line ++ '\n' :: bottomLine gutter pad label ++ ['\n'])
  pad_length : pad.length = label.loc.column - 1
  pad_below : List.Forall₂ Below (line.take (label.loc.column - 1)) pad
  /-- The marker stands below the character at the place, if there is one. -/
  marker : (bottomLine gutter pad label)[markerIndex gutter label]? = some (markerChar label)
  above : (topLine gutter label.loc.line line)[markerIndex gutter label]? = after.head?
  /-- At the end of the source the marker stands directly behind the line. -/
  atEnd : after = [] → (topLine gutter label.loc.line line).length = markerIndex gutter label
  /-- Behind a line feed at the end of the source the line is empty. -/
  empty : after = [] → source.getLast? = some '\n' → line = []

theorem below_mirror (run : List Char) :
    List.Forall₂ Below run (run.map fun c => if c = '\t' then '\t' else ' ') := by
  rw [List.forall₂_map_right_iff, List.forall₂_same]
  intro c _
  by_cases hc : c = '\t'
  · rw [if_pos hc]
    exact .inl ⟨hc, rfl⟩
  · rw [if_neg hc]
    exact .inr ⟨hc, rfl⟩

theorem text_snippet {source line : List Char} {gutter : Nat} {label : Label}
    (hline : Lines.line source label.loc.line = line) :
    paint false (snippet source gutter label) =
      String.ofList (topLine gutter label.loc.line line ++ '\n' ::
        bottomLine gutter (padding line label.loc.column) label ++ ['\n']) := by
  have hmarker : (marker label).paint false =
      String.ofList (markerChar label :: ' ' :: label.message.toList) := by
    apply String.toList_injective
    unfold marker markerChar
    split <;> simp [Span.paint, Style.code?]
  apply String.toList_injective
  simp only [snippet, hline, paint, paintOnto, List.foldl_cons, List.foldl_nil, hmarker]
  simp [Span.plain, Span.paint, Style.code?, topLine, bottomLine, alignRight, spaces]

/-! ## What stands below what -/

theorem getElem?_length_append (front rest : List Char) :
    (front ++ rest)[front.length]? = rest.head? := by
  rw [List.getElem?_append_right (Nat.le_refl _), Nat.sub_self, List.head?_eq_getElem?]

section

variable {gutter : Nat} {label : Label} {last pad : List Char}

theorem getElem?_bottomLine (hpad : pad.length = label.loc.column - 1) :
    (bottomLine gutter pad label)[markerIndex gutter label]? = some (markerChar label) := by
  have hlength : (List.replicate gutter ' ' ++ [' ', '|', ' '] ++ pad).length =
      markerIndex gutter label := by
    rw [List.length_append, List.length_append, List.length_replicate, hpad]
    rfl
  rw [bottomLine, ← hlength, getElem?_length_append]
  rfl

theorem length_topLine (hfits : label.loc.line.repr.length ≤ gutter)
    (hlast : last.length = label.loc.column - 1) :
    (topLine gutter label.loc.line last).length = markerIndex gutter label := by
  simp only [topLine, markerIndex, List.length_append, List.length_replicate, hlast,
    String.length_toList, List.length_cons, List.length_nil]
  omega

theorem getElem?_topLine (hfits : label.loc.line.repr.length ≤ gutter)
    (hlast : last.length = label.loc.column - 1) (rest : List Char) :
    (topLine gutter label.loc.line (last ++ rest))[markerIndex gutter label]? = rest.head? := by
  have hsplit : topLine gutter label.loc.line (last ++ rest) =
      topLine gutter label.loc.line last ++ rest := (List.append_assoc _ _ _).symm
  rw [hsplit, ← length_topLine hfits hlast, getElem?_length_append]

end

theorem lastLine_of_getLast? {text : List Char} (h : text.getLast? = some '\n') :
    lastLine text = [] := by
  obtain ⟨front, rfl⟩ := List.getLast?_eq_some_iff.mp h
  exact List.rtakeWhile_concat_neg _ _ _ (by simp)

/-- A snippet points to the place of its label, unless that is inside of a line break. -/
theorem points_snippet {before after : List Char} {gutter : Nat} {label : Label}
    (hplace : label.loc.IsBehind before) (hfits : label.loc.line.repr.length ≤ gutter)
    (hafter : ∀ c ∈ after.head?, c ≠ '\n' ∧ c ≠ '\r') :
    ∃ line pad, Points (before ++ after) gutter label before after line pad := by
  have hrest := Lines.restOfLine_firstLine after
  have hline : _ = lastLine before ++ _ := Lines.line_behind hafter
  rw [← hplace.line] at hline
  have hcolumn : (lastLine before).length = label.loc.column - 1 := by
    rw [hplace.column, Nat.add_sub_cancel_left]
  have htake : (lastLine before ++ Lines.firstLine after).take (label.loc.column - 1) =
      lastLine before := List.take_left' hcolumn
  have hpad : (padding (lastLine before ++ Lines.firstLine after) label.loc.column).length =
      label.loc.column - 1 := by
    rw [padding, htake, List.length_map, hcolumn]
  refine ⟨_, _, rfl, hplace, ⟨_, hrest, rfl⟩, hfits, text_snippet hline, hpad, ?_,
    getElem?_bottomLine hpad, ?_, ?_, ?_⟩
  · rw [padding, htake]
    exact below_mirror _
  · rw [getElem?_topLine hfits hcolumn]
    exact hrest.head?_eq hafter
  · rintro rfl
    have hnone : Lines.firstLine [] = [] := rfl
    rw [hnone, List.append_nil]
    exact length_topLine hfits hcolumn
  · rintro rfl hfeed
    rw [List.append_nil] at hfeed
    rw [lastLine_of_getLast? hfeed]
    rfl

/-! ## The gutter -/

/-- The gutter has room for the line number of each label. -/
theorem length_le_gutterWidth {labels : List Label} {label : Label} (h : label ∈ labels) :
    label.loc.line.repr.length ≤ gutterWidth labels := by
  have hfold : ∀ (rest : List Label) (width : Nat),
      width ≤ rest.foldl (fun width l => max width l.loc.line.repr.length) width ∧
        ∀ l ∈ rest, l.loc.line.repr.length ≤
          rest.foldl (fun width l => max width l.loc.line.repr.length) width := by
    intro rest
    induction rest with
    | nil => exact fun width => ⟨Nat.le_refl _, fun l hl => absurd hl List.not_mem_nil⟩
    | cons first rest ih =>
        intro width
        obtain ⟨hwidth, hrest⟩ := ih (max width first.loc.line.repr.length)
        rw [List.foldl_cons]
        refine ⟨Nat.le_trans (Nat.le_max_left _ _) hwidth, List.forall_mem_cons.mpr ⟨?_, hrest⟩⟩
        exact Nat.le_trans (Nat.le_max_right _ _) hwidth
  cases labels with
  | nil => exact absurd h List.not_mem_nil
  | cons first rest =>
      obtain ⟨hwidth, hrest⟩ := hfold rest first.loc.line.repr.length
      rcases List.mem_cons.mp h with rfl | h
      · exact hwidth
      · exact hrest label h

/-- A report has the snippet of each label. -/
theorem snippet_infix_ofDiagnostic {d : Diagnostic} {label : Label} (h : label ∈ d.labels)
    (source : List Char) (path : String) :
    snippet source (gutterWidth d.labels) label <:+: ofDiagnostic source path d := by
  have hsnippets : snippet source (gutterWidth d.labels) label <:+:
      d.labels.flatMap (snippet source (gutterWidth d.labels)) := by
    rw [List.flatMap_def]
    exact List.infix_of_mem_flatten (List.mem_map_of_mem h)
  exact hsnippets.trans ⟨_, _, (List.append_assoc _ _ _).symm⟩

end Report

/-! ## All reports -/

/-- What is reported about a source that has an analysis is what reading and parsing find. -/
theorem Analysis.mem_diagnostics_of_ofSource {source : String} {a : Analysis}
    (h : ofSource source = .ok a) {d : Diagnostic} (hd : d ∈ a.diagnostics) :
    (∃ e ∈ (tokenize source).errors.toList, d = e.diagnostic) ∨
      ∃ e, (tokenize source).parse = .ok (.error e) ∧ d = e.diagnostic := by
  obtain ⟨result, hparse⟩ := exists_parse source
  cases hlex : lex source with
  | error f => simp [ofSource, hlex] at h
  | ok t =>
      obtain rfl := eq_tokenize_of_lex hlex
      obtain ⟨a', ha', -, -, hdiagnostics⟩ := exists_ofSource hlex hparse
      obtain rfl := Except.ok.inj (ha'.symm.trans h)
      exact hdiagnostics d hd

/-- Each label of each problem of a source is shown below the character that it is about. -/
theorem ofSource_snippets (source : String) :
    (∀ a, Analysis.ofSource source = .ok a → ∀ d ∈ a.diagnostics, ∀ label ∈ d.labels,
      (∃ before after line pad, Report.Points source.toList (Report.gutterWidth d.labels) label
        before after line pad) ∧
        ∀ path, ∃ above below, paint false (Report.ofDiagnostic source.toList path d) =
          above ++ paint false (Report.snippet source.toList (Report.gutterWidth d.labels) label) ++
            below) ∧
      (source.utf8ByteSize < SourceFault.maxBytes → ∃ a, Analysis.ofSource source = .ok a) := by
  refine ⟨?_, ?_⟩
  · intro a ha d hd label hlabel
    refine ⟨?_, ?_⟩
    · obtain ⟨token, htoken, hloc⟩ :=
        exists_token_of_label (Analysis.mem_diagnostics_of_ofSource ha hd) hlabel
      obtain ⟨before, after, hsource, hplace, hafter⟩ := exists_parts_of_token htoken
      rw [← hloc] at hplace
      have hbreak : ∀ c ∈ after.head?, c ≠ '\n' ∧ c ≠ '\r' := by
        intro c hc
        have hblank := hafter c hc
        constructor <;> · rintro rfl; revert hblank; decide
      obtain ⟨line, pad, hpoints⟩ :=
        Report.points_snippet hplace (Report.length_le_gutterWidth hlabel) hbreak
      rw [← hsource] at hpoints
      exact ⟨before, after, line, pad, hpoints⟩
    · intro path
      exact exists_paint_of_infix (Report.snippet_infix_ofDiagnostic hlabel _ path) false
  · intro h
    obtain ⟨a, ha, -⟩ := exists_ofSource_runs h
    exact ⟨a, ha⟩

/-- A stray character behind a tab, on a line that a string with a carriage return leads to. -/
theorem ofSource_snippets_multiline :
    ∃ a d label, Analysis.ofSource "\"é\r\n\t\" \t#λ" = .ok a ∧ d ∈ a.diagnostics ∧
      label ∈ d.labels ∧ label.loc = ⟨2, 5, 9⟩ ∧
        ∃ before after line pad, Report.Points "\"é\r\n\t\" \t#λ".toList
          (Report.gutterWidth d.labels) label before after line pad := by
  have herrors : (tokenize "\"é\r\n\t\" \t#λ").errors =
      #[⟨.unexpectedCharacter '#', ⟨2, 5, 9⟩⟩, ⟨.unexpectedCharacter 'λ', ⟨2, 6, 10⟩⟩] := by
    decide +kernel
  have hlex : lex "\"é\r\n\t\" \t#λ" = .ok _ := lex_of_lt (by decide)
  have ha := Analysis.ofSource_of_errors hlex (by rw [herrors]; decide)
  rw [herrors] at ha
  obtain ⟨hpoints, -⟩ :=
    (ofSource_snippets "\"é\r\n\t\" \t#λ").1 _ ha _ List.mem_cons_self _ List.mem_cons_self
  exact ⟨_, _, _, ha, List.mem_cons_self, List.mem_cons_self, rfl, hpoints⟩

end LoxReader
