import FieldSelection.Configuration
import FieldSelection.Source
import FieldSelection.Synthesis

/-!
# Resolving a request

From what a command asks for to the selection that it sends:

1. a base, chosen by the mode: nothing, the full selection of a type, or the command's own;
2. in its place the caller's selection text, if there is one; the base has to be there all the same;
3. the field paths, added one after another;
4. the field `id`, if it is required and not selected yet.

A resolution that selects nothing is an error.
-/

namespace FieldSelection

/-- How the base of a selection is chosen. -/
inductive Mode where
  /-- Nothing but what is asked for. -/
  | raw
  /-- Everything that the type offers. -/
  | all
  /-- The command's own selection. -/
  | default
  deriving DecidableEq, Repr

namespace Mode

/-- The name of a mode. -/
def name : Mode → String
  | .raw => "raw"
  | .all => "all"
  | .default => "default"

/-- The mode of a name. -/
def ofName? (s : String) : Option Mode :=
  [raw, all, default].find? fun m => m.name == s

theorem ofName?_name (m : Mode) : ofName? m.name = some m := by
  cases m <;> rfl

end Mode

/-- What a command asks for. -/
structure Request where
  mode : Mode := .default
  /-- The type of a full selection; it goes ahead of the resource. -/
  rootType : Option String := none
  /-- The resource whose type the configuration knows. -/
  resource : Option String := none
  /-- The command's own selection. -/
  defaultSelection : Option Selection := none
  /-- Selection text that takes the place of the base. -/
  override : Option Source := none
  /-- The paths to add. -/
  fieldPaths : List String := []
  /-- The connections that a full selection follows. -/
  included : List String := []
  requireId : Bool := false

/-- A schema with a configuration for it. -/
structure Resolver where
  schema : Schema
  config : Configuration
  deriving DecidableEq, Repr

namespace Resolver

/-- Puts a schema and a configuration together; they have to agree on the ending of connection
    types. -/
def make (schema : Schema) (config : Configuration) : Except SelectionError Resolver :=
  if schema.connectionSuffix = config.connectionSuffix then .ok ⟨schema, config⟩
  else .error (.suffixMismatch schema.connectionSuffix config.connectionSuffix)

/-- The resolver for types under a configuration. -/
def ofTypes (types : SchemaDescription) (config : Configuration) : Resolver :=
  ⟨⟨types, config.connectionSuffix⟩, config⟩

/-! ## 1. Bases -/

/-- The type of a full selection. -/
def rootType (r : Resolver) (request : Request) : Except SelectionError String :=
  match request.rootType, request.resource with
  | some type, _ => .ok type
  | none, none => .error .missingRootType
  | none, some resource =>
    match r.config.rootType? resource with
    | some type => .ok type
    | none => .error (.unknownResource resource)

/-- Whether a field of a type can be included: it is a connection that needs no arguments. -/
def checkInclude (d : TypeDescriptor) (field : String) : Except SelectionError Unit :=
  match d.field? field with
  | none => .error (.unknownField d.name field)
  | some f =>
    if !f.isConnection then .error (.notAConnection d.name field)
    else if f.needsArguments then .error (.connectionNeedsArguments d.name field)
    else .ok ()

/-- Whether all fields can be included. -/
def checkIncludes (d : TypeDescriptor) : List String → Except SelectionError Unit
  | [] => .ok ()
  | field :: rest => do
    checkInclude d field
    checkIncludes d rest

/-- The full selection that a request asks for. -/
def fullSelection (r : Resolver) (request : Request) : Except SelectionError Selection := do
  let type ← r.rootType request
  match r.schema.descriptor? type with
  | none => throw (.unknownType type)
  | some d =>
    checkIncludes d request.included
    r.schema.fullSelection r.config.defaultPageSize r.config.maxDepth request.included type

/-- The base of a request. The command's own selection may be missing where it is replaced. -/
def base (r : Resolver) (request : Request) : Except SelectionError Selection :=
  match request.mode with
  | .raw => .ok .empty
  | .all => r.fullSelection request
  | .default =>
    match request.defaultSelection, request.override with
    | some s, _ => .ok s
    | none, some _ => .ok .empty
    | none, none => .error .missingDefaultSelection

/-! ## 2. Additions -/

/-- Adds paths, one after another. -/
def addPaths (pageSize : Nat) : List String → Selection → Except SelectionError Selection
  | [], s => .ok s
  | path :: rest, s =>
    match s.addPath pageSize path with
    | (s, none) => addPaths pageSize rest s
    | (_, some failure) => .error (.fieldPath failure)

/-- Adds the field `id` unless it is selected. -/
def addId (s : Selection) : Selection :=
  if s.hasField "id" then s else s.withLeaf "id"

/-- The error of a selection of nothing. -/
def emptyError : Mode → SelectionError
  | .raw => .emptyRawSelection
  | _ => .emptySelection

/-- The selection that a command sends. -/
def resolve (r : Resolver) (read : ReadFile) (request : Request) :
    Except SelectionError Selection := do
  let base ← r.base request
  let s ← match request.override with
    | some source => source.selection read
    | none => pure base
  let s ← addPaths r.config.defaultPageSize request.fieldPaths s
  let s := if request.requireId then addId s else s
  if s.isEmpty then throw (emptyError request.mode) else return s

end Resolver

end FieldSelection
