import FieldSelection.Text.Blank

/-!
# Type signatures

A signature names a type and wraps it in lists and non-null marks: `[Product!]!`. What counts is the
named type in the middle, and whether the whole is non-null.
-/

namespace FieldSelection.Signature

/-- The characters around the named type: brackets, non-null marks and white space. -/
def isWrapping (c : Char) : Bool :=
  c == '[' || c == ']' || c == '!' || Text.isBlank c

/-- The named type of a signature. -/
def namedChars (signature : List Char) : List Char :=
  ((signature.dropWhile isWrapping).reverse.dropWhile isWrapping).reverse

/-- The named type of a signature. -/
def named (signature : String) : String := String.ofList (namedChars signature.toList)

/-- Whether a signature is non-null: an exclamation mark ends it, white space apart. -/
def isNonNull (signature : String) : Bool :=
  (Text.trimEnd signature.toList).getLast? == some '!'

example : named " [ Product! ] ! " = "Product" := by decide
example : (isNonNull "[Int!]", isNonNull "[Int]! ") = (false, true) := by decide

end FieldSelection.Signature
