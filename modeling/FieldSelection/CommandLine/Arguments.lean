import FieldSelection.Resolution

/-!
# Command line arguments

```text
selection-engine [--log LEVEL] resolve --schema FILE [options]
selection-engine [--log LEVEL] config-schema
selection-engine help [COMMAND]
```

An option stands as `--name value` or `--name=value`, a short one also as `-cvalue` and `-c=value`.
A value that follows as an argument of its own does not start with a dash, unless it is the dash
alone. Only the options that are lists may occur more than once. Some options fall back to a
variable of the environment.
-/

namespace FieldSelection.CommandLine

/-! ## 1. Options -/

/-- The options. -/
inductive Opt where
  | log | help
  | schema | config | mode | type | resource | default | select | field | included | requireId
  | format
  deriving DecidableEq, Repr

/-- The commands. -/
inductive Command where
  | resolve
  | configSchema
  deriving DecidableEq, Repr

namespace Command

/-- The name of a command. -/
def name : Command → String
  | .resolve => "resolve"
  | .configSchema => "config-schema"

/-- The command with a name. -/
def ofName? (s : String) : Option Command :=
  [resolve, configSchema].find? fun c => c.name == s

end Command

namespace Opt

/-- The names after two dashes, the one of help texts first. -/
def names : Opt → List String
  | .log => ["log", "log-level"]
  | .help => ["help"]
  | .schema => ["schema"]
  | .config => ["config"]
  | .mode => ["mode"]
  | .type => ["type"]
  | .resource => ["resource"]
  | .default => ["default"]
  | .select => ["select"]
  | .field => ["field"]
  | .included => ["include"]
  | .requireId => ["require-id"]
  | .format => ["format"]

/-- The letter after one dash. -/
def letter? : Opt → Option Char
  | .help => some 'h'
  | .config => some 'c'
  | _ => none

/-- The options that a command knows; none stands for the program itself. -/
def allowed : Option Command → List Opt
  | some .resolve =>
    [log, schema, config, mode, type, resource, default, select, field, included, requireId, format,
      help]
  | _ => [log, help]

/-- Whether an option has a value. -/
def takesValue : Opt → Bool
  | .help | .requireId => false
  | _ => true

/-- Whether an option may occur more than once. -/
def repeats : Opt → Bool
  | .field | .included => true
  | _ => false

/-- The variable of the environment that stands in for an option. -/
def standIn? : Opt → Option String
  | .log => some "SELECTION_ENGINE_LOG"
  | .schema => some "SELECTION_ENGINE_SCHEMA"
  | .config => some "SELECTION_ENGINE_CONFIG"
  | _ => none

/-- Whether an option can have a value: files have a name, modes and formats are known. -/
def accepts : Opt → String → Bool
  | .schema, value | .config, value => !value.isEmpty
  | .mode, value => (Mode.ofName? value).isSome
  | .format, value => value == "graphql" || value == "json"
  | _, _ => true

end Opt

/-! ## 2. Reading arguments -/

/-- Why arguments cannot be used. -/
inductive UsageError where
  | unknownArgument (argument : String)
  | missingValue (option : Opt)
  | unneededValue (option : Opt)
  | invalidValue (option : Opt) (value : String)
  | repeated (option : Opt)
  | missingOption (option : Opt)
  | missingCommand
  | unknownCommand (name : String)
  deriving DecidableEq, Repr

/-- What a help text is about. -/
inductive Topic where
  | program
  | command (c : Command)
  /-- Asking for help itself. -/
  | help
  deriving DecidableEq, Repr

/-- The topic of the help option of a command, or of the program. -/
def Topic.ofCommand : Option Command → Topic
  | some c => .command c
  | none => .program

/-- What ends the reading of arguments early. -/
inductive Stop where
  | usage (error : UsageError)
  | help (topic : Topic)
  deriving DecidableEq, Repr

/-- The options given so far with their values, the latest first. -/
abbrev Given := List (Opt × String)

/-- The values of an option in the order in which they were given. -/
def Given.values (g : Given) (o : Opt) : List String :=
  (g.reverse.filter fun e => e.1 == o).map Prod.snd

/-- The value of an option. -/
def Given.value? (g : Given) (o : Opt) : Option String := (g.values o).head?

/-- Adds an option with its value. -/
def Given.add (g : Given) (o : Opt) (value : String) : Except Stop Given :=
  if !o.accepts value then .error (.usage (.invalidValue o value))
  else if !o.repeats && (g.any fun e => e.1 == o) then .error (.usage (.repeated o))
  else .ok ((o, value) :: g)

/-- An option with its value: the one attached to it, or else the next argument. Answers what is
    left of the arguments. -/
def addOption (command : Option Command) (g : Given) (o : Opt) (attached : Option String)
    (args : List String) : Except Stop (Given × List String) :=
  if o.takesValue then
    match attached, args with
    | some value, _ => do return (← g.add o value, args)
    | none, [] => .error (.usage (.missingValue o))
    | none, value :: rest =>
      if value.toList.head? == some '-' && value != "-" then .error (.usage (.missingValue o))
      else do return (← g.add o value, rest)
  else
    match attached with
    | some _ => .error (.usage (.unneededValue o))
    | none =>
      if o = .help then .error (.help (.ofCommand command))
      else do return (← g.add o "", args)

/-- The options behind one dash: letters without a value, and at last one that may have a value. -/
def addLetters (command : Option Command) (argument : String) :
    (letters : List Char) → Given → List String → Except Stop (Given × List String)
  | [], g, args => .ok (g, args)
  | c :: rest, g, args =>
    match (Opt.allowed command).find? fun o => o.letter? == some c with
    | none => .error (.usage (.unknownArgument argument))
    | some o =>
      if o.takesValue then
        let attached := match rest with
          | [] => none
          | '=' :: value => some (String.ofList value)
          | value => some (String.ofList value)
        addOption command g o attached args
      else do
        let (g, args) ← addOption command g o none args
        addLetters command argument rest g args

/-- An argument that starts with a dash. -/
def addArgument (command : Option Command) (g : Given) (argument : String) (args : List String) :
    Except Stop (Given × List String) :=
  match argument.toList with
  | '-' :: '-' :: text =>
    let name := String.ofList (text.takeWhile (· != '='))
    let attached := match text.dropWhile (· != '=') with
      | [] => none
      | _ :: value => some (String.ofList value)
    match (Opt.allowed command).find? fun o => o.names.contains name with
    | some o => addOption command g o attached args
    | none => .error (.usage (.unknownArgument argument))
  | _ :: letters => addLetters command argument letters g args
  | [] => .error (.usage (.unknownArgument argument))

/-- Whether an argument is an option: it starts with a dash and is not the dash alone. -/
def isOption (argument : String) : Bool :=
  match argument.toList with
  | '-' :: _ :: _ => true
  | _ => false

/-- Reads options up to the first argument that is none. Answers that argument and those after
    it. -/
def readOptions (command : Option Command) :
    (fuel : Nat) → Given → List String → Except Stop (Given × List String)
  | 0, g, args => .ok (g, args)
  | fuel + 1, g, args =>
    match args with
    | [] => .ok (g, [])
    | argument :: rest =>
      if argument = "--" then
        match rest with
        | [] => .ok (g, [])
        | next :: _ => .error (.usage (.unknownArgument next))
      else if isOption argument then do
        let (g, args) ← addArgument command g argument rest
        readOptions command fuel g args
      else .ok (g, args)

/-! ## 3. Invocations -/

/-- How a selection is printed. -/
inductive Format where
  | graphql
  | json
  deriving DecidableEq, Repr

/-- The format of a name. -/
def Format.ofName? : String → Option Format
  | "graphql" => some .graphql
  | "json" => some .json
  | _ => none

/-- The arguments of the command that resolves a selection. -/
structure ResolveArguments where
  schema : String
  config : Option String
  mode : Mode
  type : Option String
  resource : Option String
  default : Option String
  select : Option String
  fields : List String
  included : List String
  requireId : Bool
  format : Format
  deriving DecidableEq, Repr

/-- What the program is asked to do. -/
inductive Action where
  | resolve (arguments : ResolveArguments)
  | configSchema
  deriving DecidableEq, Repr

/-- What the program is asked to do, and the log filter to do it under. -/
structure Invocation where
  log : String
  action : Action
  deriving DecidableEq, Repr

/-- The variables of the environment. -/
abbrev Environment := String → Option String

/-- The options with those that only the environment gives. -/
def Given.fill (env : Environment) (command : Command) (g : Given) : Except Stop Given :=
  (Opt.allowed (some command)).foldlM (fun g o =>
    match g.value? o, o.standIn?.bind env with
    | none, some value => g.add o value
    | _, _ => .ok g) g

/-- The arguments of the command that resolves a selection, from its options. -/
def ResolveArguments.ofGiven (g : Given) : Except Stop ResolveArguments :=
  match g.value? .schema with
  | none => .error (.usage (.missingOption .schema))
  | some schema => .ok {
      schema
      config := g.value? .config
      mode := ((g.value? .mode).bind Mode.ofName?).getD .default
      type := g.value? .type
      resource := g.value? .resource
      default := g.value? .default
      select := g.value? .select
      fields := g.values .field
      included := g.values .included
      requireId := (g.value? .requireId).isSome
      format := ((g.value? .format).bind Format.ofName?).getD .graphql }

/-- The help text that `help` and the names after it ask for. -/
def helpFor : List String → Stop
  | [] => .help .program
  | ["help"] => .help .help
  | [name] =>
    match Command.ofName? name with
    | some command => .help (.command command)
    | none => .usage (.unknownCommand name)
  | name :: _ => .usage (.unknownCommand name)

/-- What arguments ask for. A log filter given to the command goes ahead of one given to the
    program, and both ahead of the environment. -/
def parse (env : Environment) (args : List String) : Except Stop Invocation := do
  let (general, args) ← readOptions none (args.length + 1) [] args
  match args with
  | [] => throw (.usage .missingCommand)
  | name :: args =>
    if name = "help" then throw (helpFor args)
    match Command.ofName? name with
    | none => throw (.usage (.unknownCommand name))
    | some command =>
      let (given, args) ← readOptions (some command) (args.length + 1) [] args
      match args with
      | argument :: _ => throw (.usage (.unknownArgument argument))
      | [] =>
        let log := (given.value? .log).or <| (general.value? .log).or (env "SELECTION_ENGINE_LOG")
        let given ← given.fill env command
        let action ← match command with
          | .resolve => Action.resolve <$> ResolveArguments.ofGiven given
          | .configSchema => pure .configSchema
        return ⟨log.getD "info", action⟩

end FieldSelection.CommandLine
