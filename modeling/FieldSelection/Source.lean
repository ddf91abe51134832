import FieldSelection.Grammar.Document
import FieldSelection.SelectionError

/-!
# Where selection text comes from

An argument `@path` or `@file:path` stands for the text of a file, any other for itself.
-/

namespace FieldSelection

/-- Where selection text comes from. -/
inductive Source where
  | inline (text : String)
  | file (path : String)
  deriving DecidableEq, Repr

namespace Source

/-- The source that an argument stands for. -/
def ofArgument (argument : String) : Source :=
  match argument.toList with
  | '@' :: 'f' :: 'i' :: 'l' :: 'e' :: ':' :: path => .file (String.ofList path)
  | '@' :: path => .file (String.ofList path)
  | _ => .inline argument

/-- The text of a source. -/
def text (read : ReadFile) : Source → Except SelectionError String
  | .inline text => .ok text
  | .file path =>
    match read path with
    | .ok text => .ok text
    | .error error => .error (.unreadable path error)

/-- The selection that the text of a source describes. -/
def selection (read : ReadFile) (source : Source) : Except SelectionError Selection := do
  let text ← source.text read
  (Selection.parse text).mapError .grammar

end Source

end FieldSelection
