/-
  `Command.Folder`: a folder of files held in memory.

  A path is followed from the folder, part by part.  A path that leaves the folder
  leads to nothing but folders.
-/

set_option autoImplicit false

namespace LoxReader

/-- Why a file cannot be read. -/
inductive ReadFault where
  | notFound
  | permissionDenied
  /-- A folder was read as a file. -/
  | isFolder
  /-- A path goes through a file. -/
  | throughFile
  /-- A path, or a part of it, is longer than any may be. -/
  | nameTooLong
  /-- Another fault, in the words of the system. -/
  | system (details : String) (code : Nat)
deriving DecidableEq

/-- The longest name of a file, in bytes. -/
def maxNameBytes : Nat := 255

/-- The longest path, in bytes. -/
def maxPathBytes : Nat := 4095

/-- What a folder holds: names of files with their bytes, and names of folders.  Of
two entries with one name the later counts. -/
structure Folder where
  entries : List (String × Option (List UInt8))

namespace Folder

/-- Where a path has led so far. -/
inductive Spot where
  /-- A folder, given by the names that lead to it, last first. -/
  | folder (names : List String)
  /-- The folder so many levels above this one. -/
  | above (levels : Nat)
  | file (bytes : List UInt8)

/-- The names that a path consists of. -/
def parts (path : String) : List String :=
  path.splitOn "/"

/-- What stands in the folder under the names, last first. -/
def find? (folder : Folder) (names : List String) : Option Spot :=
  let wanted := names.reverse
  match folder.entries.reverse.find? fun entry => parts entry.1 == wanted with
  | some (_, some bytes) => some (.file bytes)
  | some (_, none) => some (.folder names)
  | none =>
    if folder.entries.any fun entry => wanted.isPrefixOf (parts entry.1) then
      some (.folder names)
    else
      none

/-- Go on from a spot to a part of a path. -/
def step (folder : Folder) (spot : Spot) (part : String) : Except ReadFault Spot :=
  match spot with
  | .file _ => .error .throughFile
  | .folder names =>
    if part = "" ∨ part = "." then
      .ok spot
    else if part = ".." then
      match names with
      | [] => .ok (.above 1)
      | _ :: names => .ok (.folder names)
    else if maxNameBytes < part.utf8ByteSize then
      .error .nameTooLong
    else
      match folder.find? (part :: names) with
      | some spot => .ok spot
      | none => .error .notFound
  | .above levels =>
    if part = "" ∨ part = "." then
      .ok spot
    else if part = ".." then
      .ok (.above (levels + 1))
    else if maxNameBytes < part.utf8ByteSize then
      .error .nameTooLong
    else
      .error .notFound

/-- Follow the parts of a path from a spot. -/
def walk (folder : Folder) : Spot → List String → Except ReadFault Spot
  | spot, [] => .ok spot
  | spot, part :: rest =>
    match folder.step spot part with
    | .error f => .error f
    | .ok spot => folder.walk spot rest

/-- Read the file at a path. -/
def read (folder : Folder) (path : String) : Except ReadFault (List UInt8) :=
  if path = "" then
    .error .notFound
  else if maxPathBytes < path.utf8ByteSize then
    .error .nameTooLong
  else
    match folder.walk (if path.startsWith "/" then .above 0 else .folder []) (parts path) with
    | .error f => .error f
    | .ok (.file bytes) => .ok bytes
    | .ok (.folder _) => .error .isFolder
    | .ok (.above _) => .error .isFolder

end Folder

end LoxReader
