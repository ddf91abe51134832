import FieldSelection.CommandLine.Arguments
import FieldSelection.Text.Terminal

/-!
# Help texts

The help text of the program and of each command: what it does, how it is called, and its commands
and options in two columns. No line is broken, however long it is.

The text is set for a terminal, with names in bold, and then shown without control sequences. A
sequence in the value of a variable is left out with them, and one that the value leaves open goes
on in the text after it.
-/

namespace FieldSelection.CommandLine

open Text.Terminal (bold shown)

/-- What a command does. -/
def Command.about : Command → String
  | .resolve => "Resolves the selection a command would send, and prints it"
  | .configSchema => "Prints the JSON schema of the engine configuration"

namespace Opt

/-- The name of an option's value in help texts. -/
def valueName : Opt → String
  | .log => "LOG_LEVEL"
  | .schema => "SCHEMA"
  | .config => "CONFIG_PATH"
  | .mode => "MODE"
  | .type => "ROOT_TYPE"
  | .resource => "RESOURCE"
  | .default => "DEFAULT_SELECTION"
  | .select => "SELECTION"
  | .field => "FIELDS"
  | .included => "INCLUDE"
  | .format => "FORMAT"
  | .help | .requireId => ""

/-- What an option does. -/
def about : Opt → String
  | .log => "Log level (off|error|warn|info|debug|trace)"
  | .help => "Print help"
  | .schema => "The schema description, as JSON or YAML"
  | .config => "Engine configuration file"
  | .mode => "How the base selection is chosen (raw|all|default) [default: default]"
  | .type => "Root type of the selection"
  | .resource => "Resource whose root type is looked up in the configuration"
  | .default => "The command's own selection, used in `default` mode"
  | .select =>
    "Selection text replacing the base selection, or `@path` to read it from a file"
  | .field => "Field paths such as `variants.nodes.sku`"
  | .included => "Connections to include in `all` mode"
  | .requireId => "Always select `id`"
  | .format => "Output format [default: graphql] [possible values: graphql, json]"

/-- The left column of an option: letter, name and value. -/
def usage (o : Opt) : String :=
  let letter := match o.letter? with
    | some c => bold ("-" ++ String.singleton c) ++ ", "
    | none => "    "
  let value := if o.takesValue then " <" ++ o.valueName ++ ">" else ""
  letter ++ bold ("--" ++ o.names.headD "") ++ value

/-- The right column of an option: what it does, and the variable that stands in for it. -/
def description (env : Environment) (o : Opt) : String :=
  let standIn := match o.standIn? with
    | some name => " [env: " ++ name ++ "=" ++ (env name).getD "" ++ "]"
    | none => ""
  o.about ++ standIn ++ (if o = .log then " [default: info]" else "")

end Opt

/-! ## Layout -/

/-- A text with a head, and with a margin ahead of its lines but the first. -/
def indentLines (head margin text : String) : String :=
  head ++ String.intercalate ("\n" ++ margin) ((text.toList.splitOn '\n').map String.ofList)

/-- A number of blanks. -/
def blanks (n : Nat) : String := String.ofList (List.replicate n ' ')

/-- The width of the left column. -/
def leftWidth (rows : List (String × String)) : Nat :=
  rows.foldl (fun w r => max w (shown r.1).length) 0

/-- Lines of two columns. What follows a line feed on the right stays on the right. -/
def columns (rows : List (String × String)) : List String :=
  let width := leftWidth rows
  rows.map fun (left, right) =>
    "  " ++ left ++ blanks (width - (shown left).length) ++
      indentLines "  " (blanks (width + 4)) right

/-- The lines of the option table of a command, or of the program. -/
def optionLines (env : Environment) (command : Option Command) : List String :=
  "Options:" :: columns ((Opt.allowed command).map fun o => (o.usage, o.description env))

/-! ## Texts -/

/-- What asking for help does. -/
def aboutHelp : String := "Print this message or the help of the given subcommand(s)"

/-- The help text of a topic. -/
def helpText (env : Environment) (topic : Topic) : String :=
  let row (c : Command) := (bold c.name, c.about)
  let lines := match topic with
    | .program =>
      ["Resolves field selections against a schema", "",
        "Usage: selection-engine [OPTIONS] <COMMAND>", "", "Commands:"] ++
      columns [row .resolve, row .configSchema, (bold "help", aboutHelp)] ++
      [""] ++ optionLines env none
    | .command .resolve =>
      [Command.resolve.about, "",
        "Usage: selection-engine resolve [OPTIONS] --schema <SCHEMA>", ""] ++
        optionLines env (some .resolve)
    | .command .configSchema =>
      [Command.configSchema.about, "", "Usage: selection-engine config-schema [OPTIONS]", ""] ++
        optionLines env (some .configSchema)
    | .help =>
      [aboutHelp, "", "Usage: selection-engine help [COMMAND]...", "", "Arguments:"] ++
        columns [("[COMMAND]...", "Print help for the subcommand(s)")]
  shown (String.join (lines.map (· ++ "\n")))

end FieldSelection.CommandLine
