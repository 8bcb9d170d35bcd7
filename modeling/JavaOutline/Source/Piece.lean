/-! # Lexical pieces of a source line

    A source is read line by line.  What a character means depends on the
    mode the reader is in: ordinary code, a comment, or a literal.  A line is
    cut into pieces, each of which knows the kind of text it stands in; no
    piece reaches over the end of a line, and only block comments and text
    blocks last beyond it. -/

namespace JavaOutline.Source

/-- The lines of a text.  There is one more line than there are newlines. -/
def lines : List Char → List (List Char)
  | [] => [[]]
  | c :: cs =>
    if c = '\n' then [] :: lines cs
    else
      match lines cs with
      | [] => [[c]]
      | l :: ls => (c :: l) :: ls

/-- The kind of text that the reader is inside. -/
inductive Mode where
  | code
  | lineComment
  | blockComment
  | string
  | character
  | textBlock
  deriving DecidableEq, Repr

/-- The mode in which the next line starts: line comments and one-line
    literals never last beyond the end of their line. -/
def Mode.nextLine : Mode → Mode
  | .lineComment => .code
  | .string => .code
  | .character => .code
  | m => m

/-- The three ways to open a comment. -/
inductive Opener where
  | line
  | block
  | doc
  deriving DecidableEq, Repr

/-- The characters of an opener. -/
def Opener.text : Opener → List Char
  | .line => ['/', '/']
  | .block => ['/', '*']
  | .doc => ['/', '*', '*']

/-- A piece of a line. -/
inductive Piece where
  /-- The start of a comment. -/
  | opener (o : Opener)
  /-- The end of a block comment. -/
  | closer
  /-- A character of ordinary source text. -/
  | code (c : Char)
  /-- A character inside a comment. -/
  | comment (c : Char)
  /-- A character of a literal, its quotes included. -/
  | literal (c : Char)
  deriving DecidableEq, Repr

/-- The characters that a piece takes from its line. -/
def Piece.text : Piece → List Char
  | .opener o => o.text
  | .closer => ['*', '/']
  | .code c => [c]
  | .comment c => [c]
  | .literal c => [c]

/-- What one reading step takes off the front of a line. -/
structure Cut where
  pieces : List Piece
  mode : Mode
  rest : List Char

/-- The three quotes around a text block. -/
def textBlockQuotes : List Piece :=
  [.literal '"', .literal '"', .literal '"']

/-- One reading step on the line `c :: cs`.  An opener with nothing between
    it and its closer is an empty block comment, not a doc comment; a
    backslash in a literal takes the next character with it. -/
def cut : Mode → Char → List Char → Cut
  | .code, '/', '/' :: r => ⟨[.opener .line], .lineComment, r⟩
  | .code, '/', '*' :: '*' :: '/' :: r => ⟨[.opener .block, .closer], .code, r⟩
  | .code, '/', '*' :: '*' :: r => ⟨[.opener .doc], .blockComment, r⟩
  | .code, '/', '*' :: r => ⟨[.opener .block], .blockComment, r⟩
  | .code, '"', '"' :: '"' :: r => ⟨textBlockQuotes, .textBlock, r⟩
  | .code, '"', r => ⟨[.literal '"'], .string, r⟩
  | .code, '\'', r => ⟨[.literal '\''], .character, r⟩
  | .code, c, r => ⟨[.code c], .code, r⟩
  | .lineComment, c, r => ⟨[.comment c], .lineComment, r⟩
  | .blockComment, '*', '/' :: r => ⟨[.closer], .code, r⟩
  | .blockComment, c, r => ⟨[.comment c], .blockComment, r⟩
  | .string, '\\', d :: r => ⟨[.literal '\\', .literal d], .string, r⟩
  | .string, '"', r => ⟨[.literal '"'], .code, r⟩
  | .string, c, r => ⟨[.literal c], .string, r⟩
  | .character, '\\', d :: r => ⟨[.literal '\\', .literal d], .character, r⟩
  | .character, '\'', r => ⟨[.literal '\''], .code, r⟩
  | .character, c, r => ⟨[.literal c], .character, r⟩
  | .textBlock, '\\', d :: r => ⟨[.literal '\\', .literal d], .textBlock, r⟩
  | .textBlock, '"', '"' :: '"' :: r => ⟨textBlockQuotes, .code, r⟩
  | .textBlock, c, r => ⟨[.literal c], .textBlock, r⟩

/-- A reading step takes at least one character. -/
theorem cut_rest_length (m : Mode) (c : Char) (cs : List Char) :
    (cut m c cs).rest.length ≤ cs.length := by
  fun_cases cut m c cs <;> simp <;> omega

/-- A reading step loses no character of the line. -/
theorem cut_text (m : Mode) (c : Char) (cs : List Char) :
    (cut m c cs).pieces.flatMap Piece.text ++ (cut m c cs).rest = c :: cs := by
  fun_cases cut m c cs <;> simp [Piece.text, Opener.text, textBlockQuotes]

/-- The pieces of a line that starts in mode `m`, and the mode at its end. -/
def pieces (m : Mode) : List Char → List Piece × Mode
  | [] => ([], m)
  | c :: cs =>
    let k := cut m c cs
    let (ps, m') := pieces k.mode k.rest
    (k.pieces ++ ps, m')
termination_by cs => cs.length
decreasing_by
  have := cut_rest_length m c cs
  simp only [List.length_cons]
  omega

end JavaOutline.Source
