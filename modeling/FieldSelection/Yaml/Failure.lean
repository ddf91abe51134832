/-!
# What can be wrong with a YAML document

The faults of characters, of tokens and of documents.
-/

namespace FieldSelection.Yaml

/-- Why a text is no YAML document. -/
inductive Failure where
  | unexpectedCharacter (c : Char)
  | tabAsIndentation
  | badDirective
  | badTag
  | badAnchor
  | unknownAnchor (name : String)
  /-- An alias inside of what it stands for. -/
  | cyclicAlias (name : String)
  | tooManyAliases
  | badBlockHeader
  | badEscape
  | unterminatedQuote
  | entryNotAllowed
  | keyNotAllowed
  | valueNotAllowed
  | missingColon
  | tooDeep
  | unexpectedToken
  | noDocument
  | severalDocuments
  /-- A key that is no scalar. -/
  | keyNotScalar
  deriving DecidableEq, Repr

/-- The message of a failure. -/
def Failure.message : Failure → String
  | .unexpectedCharacter c => "unexpected character '" ++ String.singleton c ++ "'"
  | .tabAsIndentation => "found a tab where an indentation space is expected"
  | .badDirective => "did not understand a directive"
  | .badTag => "did not understand a tag"
  | .badAnchor => "an anchor or alias needs a name"
  | .unknownAnchor name => "unknown anchor `" ++ name ++ "`"
  | .cyclicAlias name => "the alias `" ++ name ++ "` stands inside of its own anchor"
  | .tooManyAliases => "repetition limit exceeded"
  | .badBlockHeader => "did not understand the header of a block scalar"
  | .badEscape => "unknown escape in a quoted scalar"
  | .unterminatedQuote => "unexpected end of a quoted scalar"
  | .entryNotAllowed => "block sequence entries are not allowed in this context"
  | .keyNotAllowed => "mapping keys are not allowed in this context"
  | .valueNotAllowed => "mapping values are not allowed in this context"
  | .missingColon => "simple key expected ':'"
  | .tooDeep => "recursion limit exceeded"
  | .unexpectedToken => "did not find expected node content"
  | .noDocument => "unexpected end of stream"
  | .severalDocuments => "more than one document"
  | .keyNotScalar => "a key is no scalar"

end FieldSelection.Yaml
