/-
  `Main`: the program as it meets the outside world.

  This module reads files and lines and writes answers; what the answers are is
  decided elsewhere.
-/
import LoxReader.Command.Line

set_option autoImplicit false

namespace LoxReader.Command

/-- The number of a system error; some calls report it with its sign changed. -/
def errorNumber (code : UInt32) : Nat :=
  if code < 0x80000000 then code.toNat else (0 - code).toNat

/-- Why a file cannot be read, from the number of the system error. -/
def readFault (details : String) (code : UInt32) : ReadFault :=
  match errorNumber code with
  | 20 => .throughFile
  | 21 => .isFolder
  | 36 => .nameTooLong
  | code => .system details code

/-- The bytes of a file, or why they cannot be had. -/
def readFile (path : String) : IO (Except ReadFault (List UInt8)) := do
  try
    let bytes ← IO.FS.readBinFile path
    return .ok bytes.toList
  catch
    | .noFileOrDirectory .. => return .error .notFound
    | .permissionDenied .. => return .error .permissionDenied
    | .inappropriateType _ code details => return .error (readFault details code)
    | .invalidArgument _ code details => return .error (readFault details code)
    | .noSuchThing _ code details => return .error (readFault details code)
    | .resourceExhausted _ code details => return .error (readFault details code)
    | .otherError code details => return .error (readFault details code)
    | e => return .error (.system (toString e) 0)

/-- Write what a command wrote, and end with its exit code. -/
def finish (outcome : Outcome) : IO UInt32 := do
  IO.print outcome.stdout
  IO.eprint outcome.stderr
  return UInt32.ofNat outcome.exit

/-- The bytes of one line, read one by one, after those in `line`. -/
partial def readLine (input : IO.FS.Stream) (line : ByteArray) : IO ByteArray := do
  let read ← input.read 1
  if read.isEmpty then
    return line
  else
    let line := line ++ read
    if read[0]? = some 10 then return line else readLine input line

/-- Answer lines until there are no more. -/
partial def converse (coloured : Bool) (input output : IO.FS.Stream) : IO UInt32 := do
  output.putStr Session.prompt
  output.flush
  let line ← readLine input .empty
  if line.isEmpty then
    output.putStr "\n"
    return 0
  else
    match Session.answer coloured line.toList with
    | .ok text =>
      output.putStr text
      converse coloured input output
    | .error ending => finish (sessionOutcome ⟨"", ending⟩)

end LoxReader.Command

open LoxReader in
/-- Run the command line. -/
def main (args : List String) : IO UInt32 := do
  match Command.ofArgs args with
  | .session color =>
    let output ← IO.getStdout
    Command.converse (color.uses (← output.isTty)) (← IO.getStdin) output
  | .file view path color =>
    let tty ← (← IO.getStderr).isTty
    Command.finish (Command.showFile view path (color.uses tty) (← Command.readFile path))
  | .answer outcome => Command.finish outcome
