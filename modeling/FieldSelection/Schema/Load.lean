import FieldSelection.Json.Reader
import FieldSelection.Schema.Basic
import FieldSelection.SelectionError
import FieldSelection.Yaml.Node

/-!
# Loading a schema

A schema description is a JSON document, or a YAML document in a file with the extension `yaml` or
`yml`.
-/

namespace FieldSelection

/-- Why a document is no schema description. -/
def SchemaDescription.wrongShape : SelectionError :=
  .invalidSchema "the document does not describe types"

/-- Reads a schema description from a JSON document. -/
def SchemaDescription.ofJson (text : String) : Except SelectionError SchemaDescription :=
  match Json.parse? text with
  | none => .error (.invalidSchema "the text is no JSON document")
  | some j =>
    match SchemaDescription.ofDatum? (Datum.ofJson j) with
    | some types => .ok types
    | none => .error SchemaDescription.wrongShape

/-- Reads a schema description from a YAML document. -/
def SchemaDescription.ofYaml (text : String) : Except SelectionError SchemaDescription :=
  match Yaml.datum text with
  | .error failure => .error (.invalidSchema failure.message)
  | .ok d =>
    match SchemaDescription.ofDatum? d with
    | some types => .ok types
    | none => .error SchemaDescription.wrongShape

/-- Whether a path names a YAML file. -/
def isYamlPath (path : String) : Bool :=
  match pathExtension? path with
  | some extension => extension == "yaml" || extension == "yml"
  | none => false

/-- Reads the schema in a file. -/
def Schema.ofFile (read : ReadFile) (path connectionSuffix : String) :
    Except SelectionError Schema := do
  match read path with
  | .error error => throw (.unreadable path error)
  | .ok text =>
    let types ←
      if isYamlPath path then SchemaDescription.ofYaml text else SchemaDescription.ofJson text
    return ⟨types, connectionSuffix⟩

end FieldSelection
