import FieldSelection.Schema.Basic
import FieldSelection.SelectionError

/-!
# Full selections

The selection of everything that a type offers, taken from the schema:

* scalar fields are covered by the mark;
* other fields are followed to their types, at most `maxDepth` levels down and never into a type
  that the way from the root has entered before, so a cyclic schema is no trouble;
* connections are followed only where the root asks for them by name, and become paged;
* fields that need arguments, and fields whose own selection comes out empty, are left out.
-/

namespace FieldSelection

/-- The selection, unless it selects nothing. -/
def Selection.nonEmpty? (s : Selection) : Option Selection :=
  if s.isEmpty then none else some s

/-- A connection with the selection of its entries, paged. -/
def ConnectionRoute.wrap (pageSize : Nat) (entries : Selection) : ConnectionRoute → Selection
  | .nodes => (Selection.empty.withNode "nodes" entries).paged pageSize
  | .edges =>
    (Selection.empty.withNode "edges" (Selection.empty.withNode "node" entries)).paged pageSize

/-- What a field brings to a full selection: `follow` selects a type in full, `expand` names the
    connections to follow. -/
def FieldDescriptor.fullSelection? (pageSize : Nat) (expand : List String)
    (follow : String → Except SelectionError Selection) (f : FieldDescriptor) :
    Except SelectionError (Option Selection) :=
  if f.isScalar || f.needsArguments then .ok none
  else if f.isConnection then
    if expand.contains f.name then
      match f.node? with
      | none => .ok none
      | some node => do
        let entries ← follow node.type
        return entries.nonEmpty?.map fun entries => node.route.wrap pageSize entries
    else .ok none
  else do
    let s ← follow f.type
    return s.nonEmpty?

/-- The selections that the fields of a type bring, put into a selection. -/
def Selection.addFull (pageSize : Nat) (expand : List String)
    (follow : String → Except SelectionError Selection) :
    List (String × FieldDescriptor) → Selection → Except SelectionError Selection
  | [], s => .ok s
  | (_, f) :: rest, s => do
    let s ← match ← f.fullSelection? pageSize expand follow with
      | some child => .ok (s.withNode f.name child)
      | none => .ok s
    addFull pageSize expand follow rest s

namespace Schema

/-- The full selection of a type; `room` is how many levels may still be entered, `ancestors` the
    types entered on the way. -/
def fullSelectionWithin (s : Schema) (pageSize : Nat) :
    (room : Nat) → (ancestors expand : List String) → (type : String) →
      Except SelectionError Selection
  | room, ancestors, expand, type =>
    match s.descriptor? type with
    | none => .error (.unknownType type)
    | some d =>
      if ancestors.contains type then .ok .empty
      else
        match room with
        | 0 => .ok .empty
        | room + 1 =>
          Selection.addFull pageSize expand
            (fun target => fullSelectionWithin s pageSize room (type :: ancestors) [] target)
            d.fields (Selection.empty.setAllScalars !d.scalars.isEmpty)

/-- The full selection of a type, with the connections that `expand` names. -/
def fullSelection (s : Schema) (pageSize maxDepth : Nat) (expand : List String) (type : String) :
    Except SelectionError Selection :=
  s.fullSelectionWithin pageSize (maxDepth + 1) [] expand type

end Schema

end FieldSelection
