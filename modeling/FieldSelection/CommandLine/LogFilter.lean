import FieldSelection.Text.Alphanumeric
import FieldSelection.Text.Blank
import FieldSelection.Text.Position

/-!
# Log filters

A log filter is a list of directives between commas, such as `info` or `server[span]=debug`. What a
filter lets through is of no matter here, only whether it is one: a directive is a level, a target,
a span between brackets, or these together, with an equals sign ahead of the level.
-/

namespace FieldSelection.LogFilter

/-- Why a text is no log filter. -/
inductive Failure where
  | badDirective
  | badLevel
  /-- A part of a directive begins or ends inside of a character. -/
  | splitCharacter
  deriving DecidableEq, Repr

/-- The messages of a failure, from the outermost to its cause. -/
def Failure.messages : Failure → List String
  | .badDirective => ["invalid filter directive"]
  | .badLevel =>
    let message := "error parsing level filter: expected one of \"off\", \"error\", \"warn\", " ++
      "\"info\", \"debug\", \"trace\", or a number 0-5"
    [message, message]
  | .splitCharacter => ["a part of a directive ends inside of a character"]

/-- Whether a text is a level: a name in any case, or a number up to 5. -/
def isLevel (cs : List Char) : Bool :=
  let word := cs.map Char.toLower
  let digits := match cs with
    | '+' :: rest => rest
    | _ => cs
  let number := digits.dropWhile (· == '0')
  ["error", "warn", "info", "debug", "trace", "off"].any (fun name => name.toList == word) ||
    (!digits.isEmpty && digits.all Char.isDigit &&
      (number.isEmpty || (number.length == 1 && number.all (· ≤ '5'))))

/-- Whether a directive may start with a character. -/
def startsDirective (c : Char) : Bool :=
  c == '-' || c == ':' || c == '_' || Text.isAlphanumeric c

/-- How far a directive has been read. A part of it is noted with the place that it starts at. -/
inductive Stage where
  | start
  | levelOrTarget
  | span (start : Nat)
  /-- In a field of a span. -/
  | field (start : Nat)
  | afterFields
  | afterSpan
  /-- After the equals sign. -/
  | level (start : Nat)
  deriving DecidableEq, Repr

/-- The directive as it was given from a place on. Places count the bytes of the directive without
    the white space around it, so that with white space ahead they may lie inside of a character. -/
def textFrom (given : List Char) (place : Nat) : Except Failure (List Char) :=
  match Text.dropBytes? place given with
  | some text => .ok text
  | none => .error .splitCharacter

/-- Takes out the part of a directive between two places. -/
def cut (given : List Char) (start stop : Nat) : Except Failure Unit := do
  let _ ← textFrom given start
  let _ ← textFrom given stop

/-- One character of a directive, which stands at a place. -/
def step (given : List Char) (stage : Stage) (place : Nat) (c : Char) : Except Failure Stage :=
  match stage with
  | .start =>
    if c = '[' then .ok (.span (place + 1))
    else if startsDirective c then .ok .levelOrTarget
    else .error .badDirective
  | .levelOrTarget =>
    if c = '=' then do cut given 0 place; return .level (place + 1)
    else if c = '[' then do cut given 0 place; return .span (place + 1)
    else .ok .levelOrTarget
  | .span start =>
    if c = ']' then do cut given start place; return .afterSpan
    else if c = '{' then do cut given start place; return .field (place + 1)
    else .ok (.span start)
  | .field start =>
    if c = '}' then do
      cut given start place
      if start = place then throw .badDirective
      return .afterFields
    else .ok (.field start)
  | .afterFields => if c = ']' then .ok .afterSpan else .error .badDirective
  | .afterSpan => if c = '=' then .ok (.level (place + 1)) else .error .badDirective
  | .level start => .ok (.level start)

/-- The stage at the end of a directive, of which the text from a place on is left. -/
def stages (given : List Char) : Stage → (place : Nat) → List Char → Except Failure Stage
  | stage, _, [] => .ok stage
  | stage, place, c :: rest => do
    stages given (← step given stage place c) (place + c.utf8Size) rest

/-- Checks a directive. -/
def checkDirective (given : List Char) : Except Failure Unit := do
  match ← stages given .start 0 (Text.trimEnd (given.dropWhile Text.isBlank)) with
  | .levelOrTarget | .afterSpan => return
  | .level start =>
    let text ← textFrom given start
    if text.isEmpty || isLevel text then return else throw .badLevel
  | _ => throw .badDirective

/-- Checks a log filter. Nothing between two commas is no directive. -/
def check (filter : String) : Except Failure Unit :=
  ((filter.toList.splitOn ',').filter (!·.isEmpty)).forM checkDirective

example : (check "info,server[span]=DEBUG").toBool = true := by decide
example : (check "a=b").toBool = false := by decide
example : (check " é=info").toBool = false := by decide

end FieldSelection.LogFilter
