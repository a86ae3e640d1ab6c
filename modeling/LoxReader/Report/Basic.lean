/-
  `Report.Basic`: diagnostics as they are shown on a terminal.

    error[E1003]: unclosed delimiter `(`
     --> demo.lox:1:7
      |
    1 | (1 + 2
      |       ^ expected `)`
    1 | (1 + 2
      | - unclosed delimiter opened here

  A label shows its line of the source, and below it a marker under its column.  The
  lines of one diagnostic are aligned by a gutter as wide as its longest line
  number.
-/
import LoxReader.Diagnostic.Basic
import LoxReader.Report.Color
import LoxReader.Source.Lines

set_option autoImplicit false

namespace LoxReader.Report

/-- A run of spaces. -/
def spaces (count : Nat) : String :=
  String.ofList (List.replicate count ' ')

/-- The text with spaces before it, up to the given width. -/
def alignRight (width : Nat) (text : String) : String :=
  spaces (width - text.length) ++ text

/-- The width of the longest line number among the labels; 1 if there are none. -/
def gutterWidth : List Label → Nat
  | [] => 1
  | label :: rest => rest.foldl (fun width l => max width l.loc.line.repr.length)
      label.loc.line.repr.length

/-- Blanks that reach up to a column of a line.  A tab stays a tab, so that both
take up the same room. -/
def padding (line : List Char) (column : Nat) : List Char :=
  (line.take (column - 1)).map fun c => if c = '\t' then '\t' else ' '

/-- The marker of a label with its message. -/
def marker (label : Label) : Span :=
  if label.isPrimary then
    ⟨.error, "^ " ++ label.message⟩
  else
    ⟨.related, "- " ++ label.message⟩

/-- The line that a label points to, and its marker below. -/
def snippet (source : List Char) (gutter : Nat) (label : Label) : List Span :=
  let line := Lines.line source label.loc.line
  [.plain (alignRight gutter label.loc.line.repr ++ " | " ++ String.ofList line ++ "\n" ++
      spaces gutter ++ " | " ++ String.ofList (padding line label.loc.column)),
    marker label, .plain "\n"]

/-- The place that a diagnostic is about: its first primary label, or its first
label. -/
def focus? (d : Diagnostic) : Option Location :=
  d.primaryLoc?.or (d.labels.head?.map Label.loc)

/-- The lines that name the place of a diagnostic. -/
def arrow (path : String) (gutter : Nat) (d : Diagnostic) : List Span :=
  match focus? d with
  | none => []
  | some loc =>
    [.plain (spaces gutter ++ "--> " ++ path ++ ":" ++ loc.text ++ "\n" ++ spaces gutter ++ " |\n")]

/-- The line of a note. -/
def noteLine (gutter : Nat) (note : String) : List Span :=
  [.plain (spaces gutter ++ " = "), ⟨.strong, "note"⟩, .plain (": " ++ note ++ "\n")]

/-- A diagnostic about a source that was read from `path`. -/
def ofDiagnostic (source : List Char) (path : String) (d : Diagnostic) : List Span :=
  let gutter := gutterWidth d.labels
  [⟨.error, "error"⟩, ⟨.strong, "[" ++ d.code.text ++ "]"⟩, .plain (": " ++ d.message ++ "\n")] ++
    arrow path gutter d ++ d.labels.flatMap (snippet source gutter) ++
    d.notes.flatMap (noteLine gutter) ++ [.plain "\n"]

/-- Diagnostics one after the other. -/
def ofDiagnostics (source : List Char) (path : String) (ds : List Diagnostic) : List Span :=
  ds.flatMap (ofDiagnostic source path)

/-- The last line of a report of `count` diagnostics; there is none without
diagnostics. -/
def summary (count : Nat) : List Span :=
  match count with
  | 0 => []
  | 1 => [⟨.error, "error"⟩, .plain ": aborting due to previous error\n"]
  | n => [⟨.error, "error"⟩, .plain (": aborting due to " ++ n.repr ++ " previous errors\n")]

end LoxReader.Report
