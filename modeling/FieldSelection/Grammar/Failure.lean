import FieldSelection.Grammar.Token
import FieldSelection.Text.Position

/-!
# What can be wrong with selection text

A failure is a fault and the offset where it shows. Against the source it becomes a grammar error,
with line and column.
-/

namespace FieldSelection

/-- What the grammar asks for at a place. -/
inductive Expectation where
  | name
  | typeName
  | argumentName
  | objectField
  | value
  | onKeyword
  | mark (m : Mark)
  deriving DecidableEq, Repr

/-- How messages name an expectation. -/
def Expectation.description : Expectation → String
  | .name => "name"
  | .typeName => "type name"
  | .argumentName => "argument name or punctuation ')'"
  | .objectField => "object field name or punctuation '\x7d'"
  | .value => "value"
  | .onKeyword => "keyword 'on'"
  | .mark m => m.description

/-- What is wrong with a selection text. -/
inductive Fault where
  /-- Another token stands where the grammar asks for something; none at the end. -/
  | expected (what : Expectation) (found : Option Token.Kind)
  | unterminatedString
  | invalidEscape (text : String)
  | invalidNumber (text : String)
  | unexpectedCharacter (c : Char)
  | argumentsWithoutSelection (field : String)
  | emptySource
  | emptySelection
  | trailingTokens (found : Token.Kind)
  /-- More than `limit` selection sets, lists and objects are open at once. -/
  | tooDeep (limit : Nat)
  deriving DecidableEq, Repr

/-- The text of a fault. -/
def Fault.description : Fault → String
  | .expected what found =>
    "expected " ++ what.description ++ ", found " ++
      (found.map Token.Kind.description).getD "end of input"
  | .unterminatedString => "unterminated string literal"
  | .invalidEscape text => "invalid escape sequence `" ++ text ++ "`"
  | .invalidNumber text => "invalid number `" ++ text ++ "`"
  | .unexpectedCharacter c => "unexpected character '" ++ String.singleton c ++ "'"
  | .argumentsWithoutSelection field =>
    "field `" ++ field ++ "` has arguments but no selection set"
  | .emptySource => "selection source is empty"
  | .emptySelection => "selection selects no fields"
  | .trailingTokens found =>
    "unexpected " ++ found.description ++ " after the end of the selection set"
  | .tooDeep limit => "selection nests more than " ++ toString limit ++ " levels deep"

/-- A fault and the offset where it shows. -/
structure Failure where
  fault : Fault
  offset : Nat
  deriving DecidableEq, Repr

/-- A fault and its place in the source. -/
structure GrammarError where
  fault : Fault
  position : Text.Position
  deriving DecidableEq, Repr

namespace GrammarError

/-- A failure, seen against its source. -/
def ofFailure (source : List Char) (failure : Failure) : GrammarError :=
  ⟨failure.fault, Text.locate source failure.offset⟩

/-- The message of a grammar error. -/
def message (e : GrammarError) : String :=
  "Invalid selection: " ++ e.fault.description ++ " at line " ++ toString e.position.line ++
    ", column " ++ toString e.position.column

end GrammarError

end FieldSelection
