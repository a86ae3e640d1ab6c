/-
  `Analysis`: all that is found out about one source.

  A source with a lexical error is not parsed: its lexical errors are all that is
  reported.  Otherwise there is an expression or one error.
-/
import LoxReader.Ast.Layout
import LoxReader.Ast.Printer
import LoxReader.Expr.Parser
import LoxReader.Tokenization.Listing

set_option autoImplicit false

namespace LoxReader

/-- Why a source has no analysis, or an analysis no text.  No source of fewer than
`SourceFault.maxBytes` bytes has such a fault. -/
inductive Fault where
  | source (f : SourceFault)
  | table (e : OutOfRange)
  | cursor (f : CursorFault)
  | arena (f : ArenaFault)
  | entry (f : EntryFault)
  | ast (f : AstFault)
deriving DecidableEq

/-- The fault in words. -/
def Fault.message : Fault → String
  | .source f => f.message
  | .table e => e.message
  | .cursor f => f.message
  | .arena f => f.message
  | .entry _ => "the tree does not hold an expression"
  | .ast f => f.message

/-- The expression that tokens hold, or the first error.  Error tokens are like any
other that cannot stand in an expression. -/
def Tokenization.parse (t : Tokenization) : Except Fault (Except ParseError Ast) :=
  match Cursor.ofTokens t.tokens.toList with
  | .error f => .error (.cursor f)
  | .ok c =>
    match Parser.expression c with
    | .error e => .ok (.error e)
    | .ok e =>
      match Ast.ofExpr c.loc e with
      | .error (.arena f) => .error (.arena f)
      | .error (.entry f) => .error (.entry f)
      | .ok ast => .ok (.ok ast)

/-- The tokens of a source, its expression if it holds one, and its problems if
not. -/
structure Analysis where
  tokens : Tokenization
  ast : Option Ast
  diagnostics : List Diagnostic

namespace Analysis

/-- Find out about a source. -/
def ofSource (source : String) : Except Fault Analysis :=
  match lex source with
  | .error f => .error (.source f)
  | .ok tokens =>
    match tokens.errors.toList.map LexError.diagnostic with
    | [] =>
      match tokens.parse with
      | .error f => .error f
      | .ok (.error e) => .ok ⟨tokens, none, [e.diagnostic]⟩
      | .ok (.ok ast) => .ok ⟨tokens, some ast, []⟩
    | diagnostics => .ok ⟨tokens, none, diagnostics⟩

/-- Whether there is a problem. -/
def hasErrors (a : Analysis) : Bool :=
  !a.diagnostics.isEmpty

/-- The tokens as text. -/
def listing (a : Analysis) : Except Fault String :=
  match a.tokens.listing with
  | .error e => .error (.table e)
  | .ok text => .ok text

/-- The expression as a list. -/
def sexp (a : Analysis) : Except Fault (Option String) :=
  match a.ast with
  | none => .ok none
  | some ast =>
    match ast.sexp a.tokens.tables with
    | .error f => .error (.ast f)
    | .ok text => .ok (some text)

/-- The expression as source text. -/
def sourceText (a : Analysis) : Except Fault (Option String) :=
  match a.ast with
  | none => .ok none
  | some ast =>
    match ast.sourceText a.tokens.tables with
    | .error f => .error (.ast f)
    | .ok text => .ok (some text)

/-- The tokens as text, and then the expression, on a line of its own, if there is
one. -/
def fullText (a : Analysis) : Except Fault String :=
  match a.listing with
  | .error f => .error f
  | .ok listing =>
    match a.sexp with
    | .error f => .error f
    | .ok none => .ok listing
    | .ok (some sexp) => .ok (listing ++ sexp ++ "\n")

end Analysis

end LoxReader
