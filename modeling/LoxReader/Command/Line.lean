/-
  `Command.Line`: what the words of a command line ask for, and the answer.

  A flag for colours may stand anywhere and the last one counts; a bad one ends the
  command at once.  What is left is a command with its argument, or the path of a
  file.
-/
import LoxReader.Command.Folder
import LoxReader.Diagnostic.Explanation
import LoxReader.Session

set_option autoImplicit false

namespace LoxReader.Command

/-- The end of a command: its exit code and what it wrote. -/
structure Outcome where
  exit : Nat
  stdout : String
  stderr : String
deriving DecidableEq

/-- What to show about a file. -/
inductive View where
  /-- Its tokens. -/
  | tokens
  /-- Its expression. -/
  | expression
  | both
deriving DecidableEq

/-- What a command line asks for. -/
inductive Request where
  /-- Answer lines of the standard input. -/
  | session (color : ColorMode)
  /-- Show what a file holds. -/
  | file (view : View) (path : String) (color : ColorMode)
  /-- Nothing that has to be read. -/
  | answer (outcome : Outcome)
deriving DecidableEq

/-! ## Texts -/

/-- The name and version of the program. -/
def version : String := "loxt 0.1.0"

/-- How to use the program. -/
def usage : String :=
  "loxt - Lox expression front end\n" ++
  "\n" ++
  "Usage: loxt [--color=<mode>] [command | <file>]\n" ++
  "\n" ++
  "Commands:\n" ++
  "  <file>               Lex and parse a file, print tokens and tree\n" ++
  "  lex <file>           Tokenize a file and print the tokens\n" ++
  "  parse <file>         Parse a file and print the tree\n" ++
  "  explain <code>       Explain an error code (e.g., E1002)\n" ++
  "  help                 Show this help message\n" ++
  "  version              Show version information\n" ++
  "\n" ++
  "With no command, starts an interactive prompt.\n" ++
  "\n" ++
  "Options:\n" ++
  "  --color=<mode>       auto (default), always, never\n" ++
  "\n" ++
  "Logging:\n" ++
  "  LOXT_LOG=<filter>    e.g. LOXT_LOG=loxt_parse=trace\n"

/-- The codes that can be explained. -/
def knownCodes : String :=
  ", ".intercalate (ErrorCode.all.map ErrorCode.text)

/-! ## Outcomes -/

/-- The command did what it was asked for. -/
def done (stdout : String) : Outcome :=
  ⟨0, stdout, ""⟩

/-- The command could not do what it was asked for. -/
def failed (stderr : String) : Outcome :=
  ⟨1, "", stderr⟩

/-- The answer to a question about a code. -/
def explain (code : String) : Outcome :=
  match ErrorCode.explain? code with
  | some text => done (text ++ "\n")
  | none =>
    failed ("Unknown error code: " ++ code ++ "\n\n" ++
      "Codes have the format EXXXX where X is a digit.\n" ++
      "Known codes: " ++ knownCodes ++ "\n")

/-! ## Reading the words -/

/-- The words without the flags for colours, and the mode that those ask for; or
the value of the first flag that asks for none. -/
def colorFlags (color : ColorMode) : List String → Except String (ColorMode × List String)
  | [] => .ok (color, [])
  | word :: rest =>
    match word.dropPrefix? "--color=" with
    | some value =>
      match ColorMode.ofFlag? value.copy with
      | none => .error value.copy
      | some color => colorFlags color rest
    | none =>
      match colorFlags color rest with
      | .error value => .error value
      | .ok (color, words) => .ok (color, word :: words)

/-- What the words ask for that are left without flags for colours. -/
def ofWords (color : ColorMode) : List String → Request
  | [] => .session color
  | command :: args =>
    if command = "lex" then
      match args with
      | [] => .answer (failed "Usage: loxt lex <file>\n")
      | path :: _ => .file .tokens path color
    else if command = "parse" then
      match args with
      | [] => .answer (failed "Usage: loxt parse <file>\n")
      | path :: _ => .file .expression path color
    else if command = "help" ∨ command = "--help" ∨ command = "-h" then
      .answer (done usage)
    else if command = "version" ∨ command = "--version" ∨ command = "-V" then
      .answer (done (version ++ "\n"))
    else if command = "explain" ∨ command = "--explain" then
      match args with
      | [] =>
        .answer (failed "Usage: loxt explain <ERROR_CODE>\nExample: loxt explain E1002\n")
      | code :: _ => .answer (explain code)
    else if command.startsWith "-" then
      .answer ⟨1, usage, "Unknown option: " ++ command ++ "\n\n"⟩
    else
      .file .both command color

/-- What a command line asks for. -/
def ofArgs (args : List String) : Request :=
  match colorFlags .standard args with
  | .error value =>
    .answer (failed ("error: invalid --color value '" ++ value ++
      "' (expected auto, always or never)\n"))
  | .ok (color, words) => ofWords color words

/-! ## Files -/

/-- The message about a file that cannot be read, with what the system says. -/
def systemFailure (path details : String) (code : Nat) : String :=
  s!"error reading '{path}': {details} (os error {code})"

/-- The message about a file that cannot be read. -/
def readFailure (path : String) : ReadFault → String
  | .notFound => s!"cannot find file '{path}'"
  | .permissionDenied => s!"permission denied reading '{path}'"
  | .isFolder => systemFailure path "Is a directory" 21
  | .throughFile => systemFailure path "Not a directory" 20
  | .nameTooLong => systemFailure path "File name too long" 36
  | .system details code => systemFailure path details code

/-- What a view shows of an analysis. -/
def viewText (view : View) (a : Analysis) : Except Fault String :=
  match view with
  | .tokens => a.listing
  | .expression =>
    match a.sexp with
    | .error f => .error f
    | .ok none => .ok ""
    | .ok (some sexp) => .ok (sexp ++ "\n")
  | .both => a.fullText

/-- The problems that a view reports: the view of the tokens leaves out those that
are about the expression. -/
def viewDiagnostics (view : View) (a : Analysis) : List Diagnostic :=
  match view with
  | .tokens => a.diagnostics.filter (·.code.isLexical)
  | .expression => a.diagnostics
  | .both => a.diagnostics

/-- The report of problems with its last line. -/
def reportText (coloured : Bool) (source path : String) (ds : List Diagnostic) : String :=
  paint coloured (Report.ofDiagnostics source.toList path ds ++ Report.summary ds.length)

/-- Show what a source holds that was read from `path`. -/
def showSource (view : View) (path : String) (coloured : Bool) (source : String) : Outcome :=
  match Analysis.ofSource source with
  | .error f => failed (f.message ++ "\n")
  | .ok a =>
    match viewText view a with
    | .error f => failed (f.message ++ "\n")
    | .ok text =>
      let ds := viewDiagnostics view a
      ⟨if ds.isEmpty then 0 else 1, text, reportText coloured source path ds⟩

/-- Show what a file holds, given its bytes or why they cannot be had. -/
def showFile (view : View) (path : String) (coloured : Bool) :
    Except ReadFault (List UInt8) → Outcome
  | .error f => failed ("error: " ++ readFailure path f ++ "\n")
  | .ok bytes =>
    match Session.decode? bytes with
    | none => failed ("error: '" ++ path ++ "' contains invalid UTF-8 data\n")
    | some source => showSource view path coloured source

/-! ## Running -/

/-- The outcome of a session. -/
def sessionOutcome (transcript : Session.Transcript) : Outcome :=
  match transcript.ending.message? with
  | none => done transcript.output
  | some message => ⟨1, transcript.output, "error: " ++ message ++ "\n"⟩

/-- Run a command line with files from `read` and with a standard input, where no
output is a terminal. -/
def run (read : String → Except ReadFault (List UInt8)) (stdin : List UInt8)
    (args : List String) : Outcome :=
  match ofArgs args with
  | .session color => sessionOutcome (Session.run (color.uses false) stdin)
  | .file view path color => showFile view path (color.uses false) (read path)
  | .answer outcome => outcome

end LoxReader.Command
