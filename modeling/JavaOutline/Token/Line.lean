import JavaOutline.Keyword
import JavaOutline.Source.Piece
import JavaOutline.Text.Blank
import JavaOutline.Token.Basic

/-! # The tokens of a source

    The pieces of each line are gathered into words and delimiters.  Two
    depths steer the gathering: the depth of braces, since words count only
    at the level of the file and of the top-level type's body, and the depth
    of angle brackets, inside which blanks and commas belong to the word, so
    that type arguments stay together with single spaces.  The brace depth
    and the mode last from line to line; a word and the angle depth end with
    their line. -/

namespace JavaOutline

open Source

/-! ## Characters of ordinary source text -/

/-- What a character of ordinary source text does. -/
inductive CodeRole where
  | openAngle
  | closeAngle
  | blank
  | comma
  /-- A delimiter that is a token of the given kind. -/
  | delimiter (kind : TokenKind)
  | openBrace
  | closeBrace
  | plain
  deriving DecidableEq, Repr

/-- The blanks that part words inside a line. -/
def isSeparator (c : Char) : Bool :=
  c == ' ' || c == '\t' || c == '\r' || c == '\x0c'

/-- The role of a character of ordinary source text. -/
def CodeRole.of (c : Char) : CodeRole :=
  if c = '<' then .openAngle
  else if c = '>' then .closeAngle
  else if isSeparator c then .blank
  else if c = ',' then .comma
  else if c = ';' then .delimiter .statementEnd
  else if c = '(' then .delimiter .paramStart
  else if c = ')' then .delimiter .paramEnd
  else if c = '{' then .openBrace
  else if c = '}' then .closeBrace
  else .plain

/-! ## Gathering words -/

/-- Where the gathering of a line stands. -/
structure Gather where
  /-- The number of open braces. -/
  depth : Nat
  /-- The number of open angle brackets on this line. -/
  angle : Nat := 0
  /-- The word under construction, its last character first. -/
  word : List Char := []
  deriving DecidableEq, Repr

/-- The depth at which executable bodies start: the file is at depth zero,
    the body of its type at depth one. -/
def bodyDepth : Nat := 2

/-- The token of a word on line `n`. -/
def Token.ofWord (extra : List String) (n : Nat) (w : String) : Token :=
  ⟨if Keyword.isKeyword extra w then .keyword else .symbol, w, n⟩

namespace Gather

/-- Whether words count at this depth. -/
def capturing (g : Gather) : Bool := decide (g.depth < bodyDepth)

/-- Put a character on the word. -/
def take (g : Gather) (c : Char) : Gather :=
  if g.capturing then { g with word := c :: g.word } else g

/-- Take a space off the end of the word. -/
def dropSpace (g : Gather) : Gather :=
  match g.word with
  | ' ' :: w => { g with word := w }
  | _ => g

/-- Close an angle bracket; no space stands before it. -/
def closeAngle (g : Gather) : Gather :=
  if g.angle = 0 then g else { g with angle := g.angle - 1 }.dropSpace

/-- A comma between type arguments; no space stands before it. -/
def argumentComma (g : Gather) : Gather :=
  if g.capturing then g.dropSpace.take ',' else g

/-- A blank between type arguments is one space, and none after an opening
    bracket. -/
def argumentBlank (g : Gather) : Gather :=
  match g.word with
  | [] => g
  | '<' :: _ => g
  | ' ' :: _ => g
  | _ => g.take ' '

/-- The token of the finished word, if there is one. -/
def wordToken (extra : List String) (n : Nat) (g : Gather) : List Token :=
  if g.word.isEmpty then [] else [Token.ofWord extra n (String.ofList g.word.reverse)]

/-- Start a new word. -/
def clear (g : Gather) : Gather := { g with word := [] }

/-- Start afresh after a delimiter: no angle bracket is open any more. -/
def closeAngles (g : Gather) : Gather := { g with angle := 0 }

/-- A delimiter ends the word and is a token of its own, where words count. -/
def delimiter (extra : List String) (n : Nat) (g : Gather) (kind : TokenKind)
    (text : String) : Gather × List Token :=
  if g.capturing then
    (g.closeAngles.clear, g.wordToken extra n ++ [⟨kind, text, n⟩])
  else (g.closeAngles, [])

/-- A character of ordinary source text. -/
def code (extra : List String) (n : Nat) (g : Gather) (c : Char) :
    Gather × List Token :=
  match CodeRole.of c with
  | .openAngle => ({ g with angle := g.angle + 1 }.take c, [])
  | .closeAngle => (g.closeAngle.take c, [])
  | .blank =>
    if g.angle = 0 then (g.clear, g.wordToken extra n)
    else (g.argumentBlank, [])
  | .comma =>
    if g.angle = 0 then g.delimiter extra n .join ","
    else (g.argumentComma, [])
  | .delimiter kind => g.delimiter extra n kind (String.singleton c)
  | .openBrace =>
    let (g', ts) := g.delimiter extra n .statementEnd (String.singleton c)
    ({ g' with depth := g'.depth + 1 }, ts)
  | .closeBrace =>
    ({ g.closeAngles.clear with depth := g.depth - 1 }, g.wordToken extra n)
  | .plain => (g.take c, [])

/-- An opener or a closer of a comment ends the word and is a word of its
    own, where words count. -/
def mark (extra : List String) (n : Nat) (g : Gather) (w : List Char) :
    Gather × List Token :=
  (g.clear, g.wordToken extra n
    ++ if g.capturing then [Token.ofWord extra n (String.ofList w)] else [])

/-- One piece of line `n`. -/
def step (extra : List String) (n : Nat) (g : Gather) :
    Piece → Gather × List Token
  | .opener o => g.mark extra n o.text
  | .closer => g.mark extra n Piece.closer.text
  | .code c => g.code extra n c
  | .comment c =>
    if isSeparator c then (g.clear, g.wordToken extra n) else (g.take c, [])
  | .literal c => (g.take c, [])

/-- All pieces of line `n`: the depth of braces at its end, and the tokens,
    the last word included. -/
def run (extra : List String) (n : Nat) (g : Gather) :
    List Piece → Nat × List Token
  | [] => (g.depth, g.wordToken extra n)
  | p :: ps =>
    let (g', ts) := g.step extra n p
    let (d, us) := run extra n g' ps
    (d, ts ++ us)

end Gather

/-! ## Lines -/

/-- What a line takes over from the lines before it. -/
structure LineStart where
  mode : Mode := .code
  depth : Nat := 0
  deriving DecidableEq, Repr

namespace LineStart

/-- The words and delimiters of line `n`. -/
def lineBody (extra : List String) (n : Nat) (s : LineStart)
    (l : List Char) : List Token :=
  ((Gather.mk s.depth 0 []).run extra n (pieces s.mode l).1).2

/-- How the line after `l` starts.  Which words are keywords has no bearing
    on it. -/
def next (s : LineStart) (l : List Char) : LineStart where
  mode := (pieces s.mode l).2.nextLine
  depth := ((Gather.mk s.depth 0 []).run [] 0 (pieces s.mode l).1).1

end LineStart

/-- The token that opens line `n`. -/
def Token.lineNumber (n : Nat) : Token := ⟨.lineNumber, toString n, n⟩

/-- The token that closes line `n`: its text without the blanks around it. -/
def Token.sign (n : Nat) (l : List Char) : Token :=
  ⟨.sign, String.ofList (Text.trimChars l), n⟩

/-- The tokens of the lines from number `n` on. -/
def lineTokens (extra : List String) (n : Nat) (s : LineStart) :
    List (List Char) → List Token
  | [] => []
  | l :: ls =>
    Token.lineNumber n :: s.lineBody extra n l
      ++ Token.sign n l :: lineTokens extra (n + 1) (s.next l) ls

/-- The tokens of a source; the `extra` words count as keywords. -/
def tokenize (source : String) (extra : List String) : List Token :=
  lineTokens extra 1 {} (lines source.toList)

end JavaOutline
