import FieldSelection.CommandLine.Help
import FieldSelection.CommandLine.LogFilter
import FieldSelection.Schema.Load
import FieldSelection.Selection.Document
import FieldSelection.Selection.Request

/-!
# Running the program

From arguments, environment and files to what the program writes and how it exits: 0 with its
output, 1 with a report of what failed, 2 where the arguments cannot be used, 101 where the log
filter cannot be cut into its parts. The work is done in this order: log filter, configuration,
schema, default selection, resolution, output; the first failure ends it.
-/

namespace FieldSelection.CommandLine

/-- How a run ends. -/
structure Outcome where
  exit : Nat
  output : String
  report : String
  deriving DecidableEq, Repr

/-! ## 1. Reports -/

/-- The causes of a failure, numbered if there are several. -/
def causeLines : List String → List String
  | [cause] => [indentLines "    " "    " cause]
  | causes => causes.zipIdx.map fun (cause, n) =>
      indentLines ("    " ++ toString n ++ ": ") "       " cause

/-- The report of a failure: its message, then its causes. -/
def report (message : String) (causes : List String) : String :=
  "Error: " ++ message ++
    (if causes.isEmpty then ""
      else "\n\nCaused by:\n" ++ String.intercalate "\n" (causeLines causes)) ++ "\n"

/-- The end of a run that fails. -/
def failed (message : String) (causes : List String) : Outcome := ⟨1, "", report message causes⟩

/-- The end of a run without a selection. A file that cannot be read is also its own cause. -/
def failedSelection (e : SelectionError) : Outcome :=
  failed e.message <| match e with
    | .unreadable _ error => [error.message]
    | _ => []

/-- The end of a run without a configuration. -/
def failedConfiguration (path : String) (e : ConfigurationError) : Outcome :=
  failed ("could not load configuration from " ++ path) (e.message :: e.cause?.toList)

/-! ## 2. Commands -/

/-- The configuration that arguments name, or the default one. -/
def configuration (read : ReadFile) : Option String → Except Outcome Configuration
  | some path => (Configuration.ofFile read path).mapError (failedConfiguration path)
  | none => .ok {}

/-- The command's own selection, from its text. -/
def defaultSelection : Option String → Except Outcome (Option Selection)
  | none => .ok none
  | some text =>
    match Selection.parse text with
    | .ok s => .ok (some s)
    | .error e => .error (failed "invalid default selection" [e.message])

/-- The type that a selection is printed for: the one given, or else that of the resource. -/
def printType? (config : Configuration) (a : ResolveArguments) : Option String :=
  a.type.or (a.resource.bind config.rootType?)

/-- What arguments ask for. -/
def request (a : ResolveArguments) (defaultSelection : Option Selection) : Request where
  mode := a.mode
  rootType := a.type
  resource := a.resource
  defaultSelection
  override := a.select.map Source.ofArgument
  fieldPaths := a.fields
  included := a.included
  requireId := a.requireId

/-- The text of a selection in a format. -/
def print (schema : Schema) (format : Format) (type? : Option String) (s : Selection) : String :=
  match format, type? with
  | .json, _ => s.toJson.pretty
  | .graphql, some type => s.requestText schema type
  | .graphql, none => s.text

/-- Resolves a selection and prints it. -/
def resolve (read : ReadFile) (a : ResolveArguments) : Except Outcome String := do
  let config ← configuration read a.config
  let schema ← (Schema.ofFile read a.schema config.connectionSuffix).mapError failedSelection
  let own ← defaultSelection a.default
  let resolver ← (Resolver.make schema config).mapError failedSelection
  let s ← (resolver.resolve read (request a own)).mapError failedSelection
  return print schema a.format (printType? config a) s

/-! ## 3. The program -/

/-- The end of a run without a log filter. One that is cut inside of a character stops the program
    as it is. -/
def failedLogFilter (e : LogFilter.Failure) : Outcome :=
  let outcome := failed "could not parse log" e.messages
  if e = .splitCharacter then { outcome with exit := 101 } else outcome

/-- Does what is asked for under a log filter. -/
def perform (read : ReadFile) (log : String) (action : Action) : Except Outcome String := do
  (LogFilter.check log).mapError failedLogFilter
  match action with
  | .resolve a => resolve read a
  | .configSchema => return (Configuration.jsonSchema {}).pretty

/-- A run of the program. -/
def run (env : Environment) (read : ReadFile) (args : List String) : Outcome :=
  match parse env args with
  | .error (.usage _) => ⟨2, "", "error: invalid arguments, see --help\n"⟩
  | .error (.help topic) => ⟨0, helpText env topic, ""⟩
  | .ok invocation =>
    match perform read ((env "RUST_LOG").getD invocation.log) invocation.action with
    | .ok output => ⟨0, output ++ "\n", ""⟩
    | .error outcome => outcome

/-! ## 4. What a run depends on -/

/-- The variables of the environment that a run looks at. -/
def variableNames : List String :=
  ((Opt.allowed (some .resolve)).filterMap Opt.standIn?) ++ ["RUST_LOG"]

/-- The file that a source is read from. -/
def sourcePath? : Source → Option String
  | .inline _ => none
  | .file path => some path

/-- The files that a resolution reads. -/
def ResolveArguments.paths (a : ResolveArguments) : List String :=
  a.schema :: a.config.toList ++ ((a.select.map Source.ofArgument).bind sourcePath?).toList

/-- The files that a run reads. -/
def paths (env : Environment) (args : List String) : List String :=
  match parse env args with
  | .ok ⟨_, .resolve a⟩ => a.paths
  | _ => []

end FieldSelection.CommandLine
