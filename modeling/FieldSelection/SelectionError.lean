import FieldSelection.Files
import FieldSelection.Grammar.Failure
import FieldSelection.Selection.Path

/-!
# Why there is no selection

Everything that can go wrong between a request and its selection, and the message for it.
-/

namespace FieldSelection

/-- The message of a path that cannot be added. -/
def Selection.PathFailure.message : Selection.PathFailure → String
  | .invalidSegment path segment =>
    "Invalid field path `" ++ path ++ "`: `" ++ segment ++ "` is not a valid field name"
  | .throughLeaf path segment =>
    "Cannot select `" ++ path ++ "`: `" ++ segment ++ "` is already selected as a leaf field"

/-- Why there is no selection. -/
inductive SelectionError where
  | grammar (error : GrammarError)
  | fieldPath (failure : Selection.PathFailure)
  | unknownType (type : String)
  | unknownField (type field : String)
  | notAConnection (type field : String)
  | connectionNeedsArguments (type field : String)
  | emptyRawSelection
  | emptySelection
  | missingRootType
  | unknownResource (resource : String)
  | missingDefaultSelection
  | unreadable (path : String) (error : FileError)
  | invalidSchema (reason : String)
  | suffixMismatch (schema config : String)
  deriving DecidableEq, Repr

/-- The message of a selection error. -/
def SelectionError.message : SelectionError → String
  | .grammar error => error.message
  | .fieldPath failure => failure.message
  | .unknownType type => "Unknown type `" ++ type ++ "`"
  | .unknownField type field => "Type `" ++ type ++ "` has no field `" ++ field ++ "`"
  | .notAConnection type field =>
    "Field `" ++ type ++ "." ++ field ++ "` is not a connection and cannot be included"
  | .connectionNeedsArguments type field =>
    "Connection `" ++ type ++ "." ++ field ++
      "` has required arguments and cannot be included automatically"
  | .emptyRawSelection =>
    "Selection set is empty: raw mode requires an explicit selection or field paths"
  | .emptySelection => "Selection set is empty"
  | .missingRootType => "Cannot select every field without a root type or a known resource"
  | .unknownResource resource => "Unknown resource `" ++ resource ++ "`"
  | .missingDefaultSelection => "No default selection was supplied for this command"
  | .unreadable path error =>
    "Could not read selection from `" ++ path ++ "`: " ++ error.message
  | .invalidSchema reason => "Invalid schema description: " ++ reason
  | .suffixMismatch schema config =>
    "Schema index treats `*" ++ schema ++ "` types as connections, but the configuration uses `*" ++
      config ++ "`"

end FieldSelection
