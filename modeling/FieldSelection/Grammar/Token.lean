import FieldSelection.Number.Numeral

/-!
# Tokens of selection text

A token is a name, a string, a number, one of seven punctuation marks or the spread `...`, together
with the offset of its first byte.
-/

namespace FieldSelection

/-- The punctuation marks. -/
inductive Mark where
  | openBrace | closeBrace | openParen | closeParen | openBracket | closeBracket | colon
  deriving DecidableEq, Repr

namespace Mark

/-- The character of a mark. -/
def char : Mark → Char
  | .openBrace => '{'
  | .closeBrace => '}'
  | .openParen => '('
  | .closeParen => ')'
  | .openBracket => '['
  | .closeBracket => ']'
  | .colon => ':'

/-- The mark of a character. -/
def ofChar? : Char → Option Mark
  | '{' => some .openBrace
  | '}' => some .closeBrace
  | '(' => some .openParen
  | ')' => some .closeParen
  | '[' => some .openBracket
  | ']' => some .closeBracket
  | ':' => some .colon
  | _ => none

theorem ofChar?_char (m : Mark) : ofChar? m.char = some m := by
  cases m <;> rfl

/-- How messages name a mark. -/
def description (m : Mark) : String := "punctuation '" ++ String.singleton m.char ++ "'"

end Mark

namespace Token

/-- What a token is. -/
inductive Kind where
  | name (word : String)
  | string (value : String)
  | number (n : Numeral)
  | mark (m : Mark)
  | spread
  deriving DecidableEq, Repr

/-- How messages name a token. -/
def Kind.description : Kind → String
  | .name word => "name `" ++ word ++ "`"
  | .string _ => "string literal"
  | .number n => "number `" ++ String.ofList n.chars ++ "`"
  | .mark m => m.description
  | .spread => "'...'"

end Token

/-- A token and the offset of its first byte. -/
structure Token where
  kind : Token.Kind
  offset : Nat
  deriving DecidableEq, Repr

end FieldSelection
