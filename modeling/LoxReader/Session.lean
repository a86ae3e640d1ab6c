/-
  `Session`: reading expressions line by line.

  Each line is answered before the next is read, and an answer depends on its line
  alone.  Errors in a line do not end the session; a line that is not UTF-8 does.
-/
import LoxReader.Analysis
import LoxReader.Report.Basic

set_option autoImplicit false

namespace LoxReader.Session

/-- What is written before each line is read. -/
def prompt : String := "loxt> "

/-- The name under which lines are reported. -/
def path : String := "<repl>"

/-- Why a session ended. -/
inductive Ending where
  /-- There were no more lines. -/
  | endOfInput
  /-- A line is not UTF-8. -/
  | notText
  | fault (f : Fault)
deriving DecidableEq

/-- What to say about the end of a session, if anything. -/
def Ending.message? : Ending → Option String
  | .endOfInput => none
  | .notText => some "stream did not contain valid UTF-8"
  | .fault f => some f.message

/-- All that a session wrote, and why it ended. -/
structure Transcript where
  output : String
  ending : Ending
deriving DecidableEq

/-- The text that UTF-8 bytes stand for. -/
def decode? (bytes : List UInt8) : Option String :=
  String.fromUTF8? ⟨bytes.toArray⟩

/-- The line without the line feeds and carriage returns at its end. -/
def trimLine (line : String) : String :=
  String.ofList
    ((line.toList.reverse.dropWhile fun c => c == '\n' || c == '\r').reverse)

/-- The answer to a line: its tokens, and then its expression or its problems. -/
def reply (coloured : Bool) (line : String) : Except Fault String :=
  match Analysis.ofSource line with
  | .error f => .error f
  | .ok a =>
    match a.fullText with
    | .error f => .error f
    | .ok text => .ok (paintOnto coloured text (Report.ofDiagnostics line.toList path a.diagnostics))

/-- The answer to the bytes of a line. -/
def answer (coloured : Bool) (bytes : List UInt8) : Except Ending String :=
  match decode? bytes with
  | none => .error .notText
  | some line =>
    match reply coloured (trimLine line) with
    | .error f => .error (.fault f)
    | .ok text => .ok text

/-! ## Lines of bytes -/

/-- The bytes up to the first line feed, included, and those behind it. -/
def splitLine (bytes : List UInt8) : List UInt8 × List UInt8 :=
  match bytes.dropWhile (· != 10) with
  | [] => (bytes, [])
  | feed :: rest => (bytes.takeWhile (· != 10) ++ [feed], rest)

/-- Cutting off a line loses nothing. -/
theorem append_splitLine (bytes : List UInt8) :
    (splitLine bytes).1 ++ (splitLine bytes).2 = bytes := by
  have h := List.takeWhile_append_dropWhile (p := (· != 10)) (l := bytes)
  unfold splitLine
  split
  · simp
  · rename_i feed rest hrest
    rw [hrest] at h
    simpa using h

/-- A line has at least one byte. -/
theorem length_splitLine_lt (b : UInt8) (rest : List UInt8) :
    (splitLine (b :: rest)).2.length < (b :: rest).length := by
  have h := (List.dropWhile_sublist (· != 10) (l := b :: rest)).length_le
  unfold splitLine
  split
  · exact Nat.succ_pos _
  · rename_i feed after hafter
    rw [hafter] at h
    exact h

/-- Answer every line of the input, after the output so far. -/
def runFrom (coloured : Bool) (output : String) : List UInt8 → Transcript
  | [] => ⟨output ++ prompt ++ "\n", .endOfInput⟩
  | b :: rest =>
    match answer coloured (splitLine (b :: rest)).1 with
    | .error ending => ⟨output ++ prompt, ending⟩
    | .ok text => runFrom coloured (output ++ prompt ++ text) (splitLine (b :: rest)).2
termination_by bytes => bytes.length
decreasing_by exact length_splitLine_lt b rest

/-- Answer every line of the input. -/
def run (coloured : Bool) (input : List UInt8) : Transcript :=
  runFrom coloured "" input

end LoxReader.Session
