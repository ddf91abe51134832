import FieldSelection.CommandLine.Run

/-!
# The program

`selection-engine` on a real system: the environment and the files that a run depends on are read,
`CommandLine.run` does the work, and its outcome is written.
-/

namespace FieldSelection

/-- The number of a system error, which may come with a minus sign. -/
def errorNumber (code : UInt32) : Nat := code.toInt32.toInt.natAbs

/-- Why the system does not read a file. -/
def FileError.ofSystem (error : IO.Error) : FileError :=
  match error with
  | .noFileOrDirectory .. => .notFound
  | .inappropriateType _ code _ =>
    match errorNumber code with
    | 20 => .notADirectory
    | 21 => .isADirectory
    | _ => .other (toString error)
  | .invalidArgument _ code _ =>
    if errorNumber code = 36 then .nameTooLong else .other (toString error)
  | _ => .other (toString error)

/-- Reads a file of the system. -/
def readSystemFile (path : String) : IO (Except FileError String) := do
  if path.toList.contains '\x00' then return .error .nulInPath
  if path.isEmpty then return .error .notFound
  match ← (IO.FS.readBinFile path).toBaseIO with
  | .error error => return .error (.ofSystem error)
  | .ok bytes =>
    match String.fromUTF8? bytes with
    | some text => return .ok text
    | none => return .error .notText

/-- Runs the program on the arguments that follow its name, and answers the exit code. -/
def runProgram (args : List String) : IO UInt32 := do
  let environment ← CommandLine.variableNames.filterMapM fun name => do
    return (← IO.getEnv name).map (name, ·)
  let env : CommandLine.Environment := fun name => environment.lookup name
  let files ← (CommandLine.paths env args).mapM fun path => do
    return (path, ← readSystemFile path)
  let read : ReadFile := fun path => (files.lookup path).getD (.error .notFound)
  let outcome := CommandLine.run env read args
  IO.print outcome.output
  IO.eprint outcome.report
  return outcome.exit.toUInt32

end FieldSelection

/-- The program. -/
def main (args : List String) : IO UInt32 := FieldSelection.runProgram args
