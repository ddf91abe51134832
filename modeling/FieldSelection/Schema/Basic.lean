import FieldSelection.Datum
import FieldSelection.Schema.Signature

/-!
# Schemas

A schema description lists, type by type, the scalar fields and the fields with their target type
and arguments. With the name ending that makes a type a connection it is a schema, and
`descriptor?` answers what there is to know about a type:

* a field is a scalar if the type lists it as one;
* a field is a connection if the name of its target type has the ending; the type of the entries is
  found through `nodes`, or else through `edges` and `node`;
* a field needs arguments if the signature of one of them is non-null.
-/

namespace FieldSelection

/-! ## 1. Descriptions -/

/-- A field of a type: the signature of its target, and the signatures of its arguments. -/
structure FieldDescription where
  signature : String
  arguments : List (String × String)
  deriving DecidableEq, Repr

/-- A type: the names of its scalar fields, and its fields. -/
structure TypeDescription where
  scalars : List String
  fields : List (String × FieldDescription)
  deriving DecidableEq, Repr

/-- The types of a schema by their names. -/
abbrev SchemaDescription := List (String × TypeDescription)

/-- Reads a field of a type. -/
def FieldDescription.ofDatum? (d : Datum) : Option FieldDescription := do
  let field ← d.record? ["type", "args"]
  let signature ← (← field "type").text?
  let arguments ← Datum.orElse (field "args") (Datum.tableOf? Datum.text?) []
  return ⟨signature, arguments⟩

/-- Reads a type. -/
def TypeDescription.ofDatum? (d : Datum) : Option TypeDescription := do
  let field ← d.record? ["scalars", "fields"]
  let scalars ← Datum.orElse (field "scalars") (Datum.listOf? Datum.text?) []
  let fields ← Datum.orElse (field "fields") (Datum.tableOf? FieldDescription.ofDatum?) []
  return ⟨scalars, fields⟩

/-- Reads a schema description. -/
def SchemaDescription.ofDatum? (d : Datum) : Option SchemaDescription :=
  d.tableOf? TypeDescription.ofDatum?

/-- The JSON form of a field of a type. -/
def FieldDescription.toJson (f : FieldDescription) : Json :=
  .object [
    ("type", .string f.signature),
    ("args", .object (f.arguments.map fun (name, signature) => (name, .string signature)))]

/-- The JSON form of a type. -/
def TypeDescription.toJson (t : TypeDescription) : Json :=
  .object [
    ("scalars", .array (t.scalars.map .string)),
    ("fields", .object (t.fields.map fun (name, field) => (name, field.toJson)))]

/-- The JSON form of a schema description: every field of every record is written. -/
def SchemaDescription.toJson (types : SchemaDescription) : Json :=
  .object (types.map fun (name, type) => (name, type.toJson))

/-! ## 2. Schemas -/

/-- Types, and the ending of the names of connection types. -/
structure Schema where
  types : SchemaDescription
  connectionSuffix : String
  deriving DecidableEq, Repr

/-- The ending of the names of connection types unless another is given. -/
def Schema.defaultConnectionSuffix : String := "Connection"

/-- How the entries of a connection are reached. -/
inductive ConnectionRoute where
  | nodes
  | edges
  deriving DecidableEq, Repr

/-- The text of a route. -/
def ConnectionRoute.description : ConnectionRoute → String
  | .nodes => "nodes"
  | .edges => "edges.node"

/-- The type of the entries of a connection, and how they are reached. -/
structure ConnectionNode where
  type : String
  route : ConnectionRoute
  deriving DecidableEq, Repr

/-- What there is to know about a field. -/
structure FieldDescriptor where
  name : String
  /-- The named target type. -/
  type : String
  isScalar : Bool
  isConnection : Bool
  /-- For a connection: its entries, if their type can be found. -/
  node? : Option ConnectionNode
  needsArguments : Bool
  deriving DecidableEq, Repr

/-- What there is to know about a type. -/
structure TypeDescriptor where
  name : String
  scalars : List String
  fields : List (String × FieldDescriptor)
  deriving DecidableEq, Repr

/-- What there is to know about a field of the type. -/
def TypeDescriptor.field? (d : TypeDescriptor) (name : String) : Option FieldDescriptor :=
  Table.get? name d.fields

namespace Schema

/-- Whether a type is in the schema. -/
def hasType (s : Schema) (name : String) : Bool :=
  Table.contains name s.types

/-- The named target type of a field of a type. -/
def target? (type : TypeDescription) (field : String) : Option String :=
  (Table.get? field type.fields).map fun f => Signature.named f.signature

/-- The entries of a connection type: through `nodes`, or else through `edges` and `node`. -/
def connectionNode? (s : Schema) (connection : String) : Option ConnectionNode := do
  let type ← Table.get? connection s.types
  match target? type "nodes" with
  | some node => return ⟨node, .nodes⟩
  | none =>
    let edge ← Table.get? (← target? type "edges") s.types
    let node ← target? edge "node"
    return ⟨node, .edges⟩

/-- Whether a type name has the ending of a connection. -/
def isConnectionName (s : Schema) (type : String) : Bool :=
  s.connectionSuffix.toList.isSuffixOf type.toList

/-- What there is to know about a field of a type. -/
def describeField (s : Schema) (type : TypeDescription) (name : String)
    (field : FieldDescription) : FieldDescriptor :=
  let target := Signature.named field.signature
  let isConnection := s.isConnectionName target
  { name
    type := target
    isScalar := type.scalars.contains name
    isConnection
    node? := if isConnection then s.connectionNode? target else none
    needsArguments := field.arguments.any fun a => Signature.isNonNull a.2 }

/-- What there is to know about a type, if it is in the schema. -/
def descriptor? (s : Schema) (name : String) : Option TypeDescriptor := do
  let type ← Table.get? name s.types
  return {
    name
    scalars := type.scalars
    fields := type.fields.map fun (name, field) => (name, s.describeField type name field) }

end Schema

end FieldSelection
