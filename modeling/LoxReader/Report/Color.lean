/-
  `Report.Color`: text with colours for a terminal.

  A report is a list of spans, each in one style.  Colour is only decoration: a span
  has the same text with it and without, between control codes or bare.
-/

set_option autoImplicit false

namespace LoxReader

/-! ## When to use colours -/

/-- Whether output is coloured. -/
inductive ColorMode where
  /-- Where the output is a terminal. -/
  | auto
  | always
  | never
deriving DecidableEq

namespace ColorMode

/-- The mode when none is asked for. -/
def standard : ColorMode := .auto

/-- Whether to use colours, where `tty` tells whether the output is a terminal. -/
def uses (mode : ColorMode) (tty : Bool) : Bool :=
  match mode with
  | .auto => tty
  | .always => true
  | .never => false

/-- The mode that a flag asks for. -/
def ofFlag? : String → Option ColorMode
  | "auto" => some .auto
  | "always" => some .always
  | "never" => some .never
  | _ => none

end ColorMode

/-! ## Styles -/

/-- What a span of text is for. -/
inductive Style where
  /-- Ordinary text. -/
  | plain
  /-- The problem itself, in bold red. -/
  | error
  /-- A heading, in bold. -/
  | strong
  /-- A place that helps to understand the problem, in bold blue. -/
  | related
deriving DecidableEq

/-- The code that turns a style on; ordinary text needs none. -/
def Style.code? : Style → Option String
  | .plain => none
  | .error => some "\x1b[1;31m"
  | .strong => some "\x1b[1m"
  | .related => some "\x1b[1;34m"

/-- The code that turns every style off. -/
def Style.reset : String := "\x1b[0m"

/-- A piece of text in one style. -/
structure Span where
  style : Style
  text : String
deriving DecidableEq

/-- Text in the ordinary style. -/
def Span.plain (text : String) : Span :=
  ⟨.plain, text⟩

/-- The span as it is written, with or without colours. -/
def Span.paint (coloured : Bool) (span : Span) : String :=
  match span.style.code? with
  | none => span.text
  | some code => if coloured then code ++ span.text ++ Style.reset else span.text

/-- The text `out` followed by spans. -/
def paintOnto (coloured : Bool) (out : String) (spans : List Span) : String :=
  spans.foldl (fun out span => out ++ span.paint coloured) out

/-- The text of a report. -/
def paint (coloured : Bool) (spans : List Span) : String :=
  paintOnto coloured "" spans

end LoxReader
