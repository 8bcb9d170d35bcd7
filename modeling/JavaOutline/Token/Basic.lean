/-! # Tokens

    A token is a word, a delimiter, the end of a statement, or one of the two
    entries that keep track of lines: the number of a line at its start and
    its trimmed text at its end. -/

namespace JavaOutline

/-- The kinds of token. -/
inductive TokenKind where
  | keyword
  | symbol
  | join
  | paramStart
  | paramEnd
  | statementEnd
  | lineNumber
  | sign
  deriving DecidableEq, Repr

/-- The tokens that keep track of lines. -/
def TokenKind.isLine : TokenKind → Bool
  | .lineNumber => true
  | .sign => true
  | _ => false

/-- A token, with its text and the number of the line it stands on. -/
structure Token where
  kind : TokenKind
  text : String
  line : Int
  deriving DecidableEq, Repr

end JavaOutline
