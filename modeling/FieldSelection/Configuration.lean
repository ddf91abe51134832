import FieldSelection.Schema.Basic
import FieldSelection.SelectionError
import FieldSelection.Yaml.Node

/-!
# Configuration

How many entries a paged connection asks for, how deep full selections go, which types are
connections, and which type a resource has. A configuration is a YAML document; settings that it
leaves out have their defaults. A page size of zero and an empty suffix are refused.
-/

namespace FieldSelection

/-- The settings of the program. -/
structure Configuration where
  /-- The `first` argument of every connection that becomes paged. -/
  defaultPageSize : Nat := 25
  /-- How many levels of nested objects a full selection may descend. -/
  maxDepth : Nat := 2
  /-- The ending of the names of connection types. -/
  connectionSuffix : String := Schema.defaultConnectionSuffix
  /-- The root type of each resource. -/
  resources : List (String × String) := []
  deriving DecidableEq, Repr

/-- Why there is no configuration. -/
inductive ConfigurationError where
  | unreadable (error : FileError)
  | malformed (reason : String)
  | invalid (setting reason : String)
  deriving DecidableEq, Repr

/-- The message of a configuration error. -/
def ConfigurationError.message : ConfigurationError → String
  | .unreadable error => "could not read configuration file: " ++ error.message
  | .malformed reason => "could not deserialize configuration: " ++ reason
  | .invalid setting reason => "invalid " ++ setting ++ ": " ++ reason

/-- The message of what a configuration error goes back to, if it has a cause of its own. -/
def ConfigurationError.cause? : ConfigurationError → Option String
  | .unreadable error => some error.message
  | .malformed reason => some reason
  | .invalid _ _ => none

namespace Configuration

/-- Reads the settings from a datum. -/
def ofDatum? (d : Datum) : Option Configuration := do
  let field ← d.record? ["default_page_size", "max_depth", "connection_suffix", "resources"]
  let defaults : Configuration := {}
  let defaultPageSize ←
    Datum.orElse (field "default_page_size") (Datum.natural? (Nat.pow 2 32))
      defaults.defaultPageSize
  let maxDepth ←
    Datum.orElse (field "max_depth") (Datum.natural? (Nat.pow 2 64)) defaults.maxDepth
  let connectionSuffix ←
    Datum.orElse (field "connection_suffix") Datum.text? defaults.connectionSuffix
  let resources ←
    Datum.orElse (field "resources") (Datum.tableOf? Datum.text?) defaults.resources
  return { defaultPageSize, maxDepth, connectionSuffix, resources }

/-- Refuses settings that make no sense. -/
def validate (c : Configuration) : Except ConfigurationError Configuration :=
  if c.defaultPageSize = 0 then .error (.invalid "default_page_size" "must be greater than zero")
  else if c.connectionSuffix.isEmpty then
    .error (.invalid "connection_suffix" "must not be empty")
  else .ok c

/-- Reads a configuration from a YAML document. -/
def ofYaml (text : String) : Except ConfigurationError Configuration :=
  match Yaml.datum text with
  | .error failure => .error (.malformed failure.message)
  | .ok d =>
    match ofDatum? d with
    | none => .error (.malformed "the document does not describe a configuration")
    | some c => c.validate

/-- Reads a configuration file. -/
def ofFile (read : ReadFile) (path : String) : Except ConfigurationError Configuration :=
  match read path with
  | .error error => .error (.unreadable error)
  | .ok text => ofYaml text

/-- The root type of a resource. -/
def rootType? (c : Configuration) (resource : String) : Option String :=
  Table.get? resource c.resources

/-- The JSON form of a configuration. -/
def toJson (c : Configuration) : Json :=
  .object [
    ("default_page_size", .ofNat c.defaultPageSize),
    ("max_depth", .ofNat c.maxDepth),
    ("connection_suffix", .string c.connectionSuffix),
    ("resources", .object (c.resources.map fun (name, type) => (name, .string type)))]

end Configuration

/-! ## The JSON schema of configurations -/

namespace Configuration

/-- The JSON schema of one setting. -/
def settingSchema (description : String) (rest : List (String × Json)) : Json :=
  .object (("description", .string description) :: rest)

/-- The JSON schema of configurations, with the defaults of `c`. -/
def jsonSchema (c : Configuration) : Json :=
  let zero : Json := .number (.double ⟨false, 0, Binary64.minExponent⟩)
  .object [
    ("$schema", .string "http://json-schema.org/draft-07/schema#"),
    ("title", .string "EngineConfig"),
    ("description", .string "The configuration for the selection engine."),
    ("type", .string "object"),
    ("properties", .object [
      ("connection_suffix",
        settingSchema "Type names ending with this suffix are treated as connections." [
          ("default", .string c.connectionSuffix),
          ("type", .string "string")]),
      ("default_page_size",
        settingSchema "The `first` argument given to every connection the engine paginates." [
          ("default", .ofNat c.defaultPageSize),
          ("type", .string "integer"),
          ("format", .string "uint32"),
          ("minimum", zero)]),
      ("max_depth",
        settingSchema "How many levels of nested objects a synthesized selection may descend." [
          ("default", .ofNat c.maxDepth),
          ("type", .string "integer"),
          ("format", .string "uint"),
          ("minimum", zero)]),
      ("resources",
        settingSchema
          ("Root type name for each resource, used when every field is requested without an " ++
            "explicit type.") [
          ("default", .object []),
          ("type", .string "object"),
          ("additionalProperties", .object [("type", .string "string")])])]),
    ("additionalProperties", .boolean false)]

end Configuration

end FieldSelection
