import JavaOutline.Text.Integer
import JavaOutline.Token.Basic

/-! # Cursors

    A cursor knows the line being read, the line on which the current
    statement started, and the text of every line. -/

namespace JavaOutline

/-- The text of each line by its number; the newest entry comes first and
    wins. -/
abbrev LineIndex := List (Int × String)

/-- The text of a line, empty if none is known. -/
def LineIndex.text (ix : LineIndex) (n : Int) : String :=
  (ix.lookup n).getD ""

/-- Where a walk stands. -/
structure Cursor where
  line : Int := 1
  statementLine : Option Int := none
  lines : LineIndex := []
  deriving DecidableEq, Repr

namespace Cursor

/-- Note that a statement has started, unless one has already. -/
def mark (c : Cursor) : Cursor :=
  { c with statementLine := some (c.statementLine.getD c.line) }

/-- Forget where the statement started. -/
def clear (c : Cursor) : Cursor :=
  { c with statementLine := none }

/-- Go to another line. -/
def goTo (c : Cursor) (n : Int) : Cursor :=
  { c with line := n }

/-- The line on which the current statement started. -/
def startLine (c : Cursor) : Int :=
  c.statementLine.getD c.line

/-- The text of that line. -/
def signature (c : Cursor) : String :=
  LineIndex.text c.lines c.startLine

end Cursor

/-- The text of every line of a token list, `n` being the line it starts on.
    Fails on a line number that is no integer, and gives its text. -/
def LineIndex.gather (n : Int) (ix : LineIndex) :
    List Token → Except String LineIndex
  | [] => .ok ix
  | t :: ts =>
    match t.kind with
    | .lineNumber =>
      match Text.integer? t.text with
      | some m => gather m ix ts
      | none => .error t.text
    | .sign => gather n ((n, t.text) :: ix) ts
    | _ => gather n ix ts

/-- The text of every line of a token list. -/
def LineIndex.ofTokens (ts : List Token) : Except String LineIndex :=
  LineIndex.gather 1 [] ts

end JavaOutline
