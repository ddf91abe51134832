import FieldSelection.Selection.Merge

/-!
# Field paths

A field path such as `variants.nodes.sku` adds a field to a selection, with the selections that it
goes through:

* a selection that the path leaves through `nodes` or `edges` is a connection and becomes paged: it
  gets a `first` argument and `pageInfo { hasNextPage endCursor }` unless it has them;
* what stands at the end of the path is left alone;
* a path fails on a segment that is no field name, and then changes nothing; it fails on a leaf that
  it would have to go through, and what it did above that leaf stays.
-/

namespace FieldSelection

/-! ## 1. Names -/

/-- Whether a character may start a name. -/
def isNameStart (c : Char) : Bool := c.isAlpha || c == '_'

/-- Whether a character may go on with a name. -/
def isNameChar (c : Char) : Bool := c.isAlphanum || c == '_'

/-- Whether a text is a name: an ASCII letter or an underscore, then letters, digits and
    underscores. -/
def isIdentifier : List Char → Bool
  | [] => false
  | c :: rest => isNameStart c && rest.all isNameChar

/-- The parts of a text between its dots. -/
def splitDots : List Char → List (List Char)
  | [] => [[]]
  | c :: rest =>
    if c = '.' then [] :: splitDots rest
    else
      match splitDots rest with
      | [] => [[c]]
      | part :: parts => (c :: part) :: parts

/-- The segments of a path. -/
def segments (path : String) : List String :=
  (splitDots path.toList).map String.ofList

example : segments "a..b" = ["a", "", "b"] := by decide

/-! ## 2. Connections -/

/-- Whether a field holds the entries of a connection. -/
def isConnectionField (name : String) : Bool := name == "nodes" || name == "edges"

namespace Selection

/-- `pageInfo { hasNextPage endCursor }` -/
def pageInfo : Selection := (empty.withLeaf "hasNextPage").withLeaf "endCursor"

/-- The selection with a page size and `pageInfo`, unless it has them. -/
def paged (pageSize : Nat) (s : Selection) : Selection :=
  (s.setNewArgument "first" (.ofNat pageSize)).putNew (.field "pageInfo") (.node pageInfo)

/-! ## 3. Adding a path -/

/-- Adds the field at the end of a chain of segments. The second part is the segment that holds a
    leaf on the way, if one does. -/
def addSegments (pageSize : Nat) : List String → Selection → Selection × Option String
  | [], s => (s, none)
  | [segment], s => (s.putNew (.field segment) .leaf, none)
  | segment :: next :: rest, s =>
    match s.get? (.field segment) with
    | some .leaf => (s, some segment)
    | found =>
      let child := match found with
        | some (.node child) => child
        | _ => empty
      let child := if isConnectionField next then child.paged pageSize else child
      let (child, failed) := addSegments pageSize (next :: rest) child
      (s.put (.field segment) (.node child), failed)

/-- Why a path cannot be added. -/
inductive PathFailure where
  /-- A segment is no field name. -/
  | invalidSegment (path segment : String)
  /-- A segment ahead of the last one holds a leaf. -/
  | throughLeaf (path segment : String)
  deriving DecidableEq, Repr

/-- Adds the field named by a path. Answers the selection that is left, and the failure if the path
    fails. -/
def addPath (pageSize : Nat) (path : String) (s : Selection) : Selection × Option PathFailure :=
  match (segments path).find? (fun segment => !isIdentifier segment.toList) with
  | some segment => (s, some (.invalidSegment path segment))
  | none =>
    let (s, failed) := addSegments pageSize (segments path) s
    (s, failed.map (.throughLeaf path))

end Selection

end FieldSelection
