import FieldSelection.Text.Position

/-!
# Files

A small file tree and what reading a path in it answers. Paths are relative to the top of the tree:
a path is walked segment by segment, every segment but the last has to lead to a directory, and only
a file that holds UTF-8 text can be read.

Everything that reads files takes a reading function `String → Except FileError String`, so that it
runs on such a tree as well as on a disk.
-/

namespace FieldSelection

/-- Why a file cannot be read. -/
inductive FileError where
  | notFound
  | notADirectory
  | isADirectory
  | nameTooLong
  | notText
  | nulInPath
  | other (reason : String)
  deriving DecidableEq, Repr

/-- The text of a file error. -/
def FileError.message : FileError → String
  | .notFound => "No such file or directory (os error 2)"
  | .notADirectory => "Not a directory (os error 20)"
  | .isADirectory => "Is a directory (os error 21)"
  | .nameTooLong => "File name too long (os error 36)"
  | .notText => "stream did not contain valid UTF-8"
  | .nulInPath => "file name contained an unexpected NUL byte"
  | .other reason => reason

/-- How files are read. -/
abbrev ReadFile := String → Except FileError String

/-- Files and directories by the segments of their path. A directory with something in it needs no
    entry of its own. -/
structure FileTree where
  entries : List (List String × Option ByteArray)

namespace FileTree

/-- The segments of a path. -/
def pathSegments (path : String) : List String :=
  (path.toList.splitOn '/').map String.ofList

/-- The tree of the given paths: a file's bytes, or nothing for a directory. -/
def ofPaths (paths : List (String × Option ByteArray)) : FileTree :=
  ⟨paths.map fun e => ((pathSegments e.1).filter fun s => s != "" && s != ".", e.2)⟩

/-- What stands at a place: nothing, a directory, or a file. -/
def at? (t : FileTree) (place : List String) : Option (Option ByteArray) :=
  match t.entries.lookup place with
  | some found => some found
  | none =>
    if place.isEmpty || t.entries.any fun e => place.isPrefixOf e.1 then some none else none

/-- The greatest length of a name, in bytes. -/
def maxNameBytes : Nat := 255

/-- The length in bytes that a path stays below. -/
def maxPathBytes : Nat := 4096

/-- Follows segments from a directory, none meaning a directory above the tree, of which nothing is
    known. Answers the file that it ends at. -/
def walk (t : FileTree) : (place : Option (List String)) → (segments : List String) →
    Except FileError ByteArray
  | _, [] => .error .isADirectory
  | place, segment :: rest =>
    if segment = "" || segment = "." then walk t place rest
    else if segment = ".." then
      match place with
      | some (name :: names) => walk t (some (name :: names).dropLast) rest
      | _ => walk t none rest
    else if maxNameBytes < segment.utf8ByteSize then .error .nameTooLong
    else
      match place with
      | none => .error .notFound
      | some place =>
        match t.at? (place ++ [segment]) with
        | none => .error .notFound
        | some none => walk t (some (place ++ [segment])) rest
        | some (some bytes) => if rest.isEmpty then .ok bytes else .error .notADirectory

/-- The text of the file at a path. -/
def read (t : FileTree) : ReadFile := fun path => do
  if path.toList.contains '\x00' then throw .nulInPath
  if path.isEmpty then throw .notFound
  if maxPathBytes ≤ path.utf8ByteSize then throw .nameTooLong
  let top := if path.toList.head? = some '/' then none else some []
  let bytes ← t.walk top (pathSegments path)
  match String.fromUTF8? bytes with
  | some text => return text
  | none => throw .notText

end FileTree

/-- What the extension of a path is: the part of its last name after the last dot, unless that dot
    comes first. -/
def pathExtension? (path : String) : Option String :=
  match (path.toList.splitOn '/').reverse.find? (fun s => s ≠ [] && s ≠ ['.']) with
  | none => none
  | some name =>
    if name = ['.', '.'] then none
    else
      match (name.splitOn '.').reverse with
      | last :: before =>
        if before.length = 0 || before = [[]] then none else some (String.ofList last)
      | [] => none

example : pathExtension? "a/b.json.yaml" = some "yaml" := by decide
example : pathExtension? "a/.yaml" = none := by decide
example : pathExtension? "schema.yaml." = some "" := by decide

end FieldSelection
