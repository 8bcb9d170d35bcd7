/-! # Positions in a YAML text

    A position is what is left of the text together with its line and column,
    since indentation carries meaning.  The end of the text counts as a line
    end wherever one is looked for. -/

namespace JavaOutline.Yaml

/-- Why a text has no value. -/
inductive Fault where
  /-- The text is not well formed, or a tag does not fit its node. -/
  | malformed
  /-- An escape names a number that is no character. -/
  | characterCode (n : Nat)
  /-- A text that is tagged as an integer and writes none. -/
  | integerText
  /-- A text that is tagged as a real number and writes none. -/
  | realText
  /-- A number to the base sixty with a place that outweighs every real
      number. -/
  | realRange
  /-- An empty text that is tagged as a number. -/
  | emptyNumber
  /-- A text that is tagged as a truth value and names none. -/
  | boolText
  /-- A text that is tagged as a time and does not have its form. -/
  | timeText
  /-- A date, a time of day or a time zone that does not exist. -/
  | timeRange
  /-- A mapping that is tagged as a time. -/
  | timeOfMapping
  /-- Nodes are nested too deep, or stand for each other without end. -/
  | tooDeep
  deriving DecidableEq, Repr

/-- The outcome of reading. -/
abbrev Read := Except Fault

/-! ## Characters -/

/-- The line ends. -/
def isBreak (c : Char) : Bool :=
  c == '\n' || c == '\r' || c == '\x85' || c == '\u2028' || c == '\u2029'

/-- A line end or the end of the text. -/
def atBreak : Option Char → Bool
  | none => true
  | some c => isBreak c

/-- A space, a line end or the end of the text. -/
def atSpace : Option Char → Bool
  | none => true
  | some c => c == ' ' || isBreak c

/-- A space, a tab, a line end or the end of the text. -/
def atBlank : Option Char → Bool
  | none => true
  | some c => c == ' ' || c == '\t' || isBreak c

/-- The characters of names. -/
def isNameChar (c : Char) : Bool :=
  c.isAlphanum || c == '-' || c == '_'

/-- The characters that may stand in a text at all. -/
def isAllowed (c : Char) : Bool :=
  let n := c.toNat
  n == 0x09 || n == 0x0A || n == 0x0D || (0x20 ≤ n && n ≤ 0x7E) || n == 0x85
    || (0xA0 ≤ n && n ≤ 0xD7FF) || (0xE000 ≤ n && n ≤ 0xFFFD) || 0x10000 ≤ n

/-! ## Positions -/

/-- What is left of a text, and where it starts. -/
structure Position where
  rest : List Char
  index : Nat := 0
  line : Nat := 0
  column : Nat := 0
  deriving DecidableEq, Repr

namespace Position

/-- The next character. -/
def peek (p : Position) : Option Char := p.rest.head?

/-- The character `k` places after the next. -/
def peekAt (p : Position) (k : Nat) : Option Char := p.rest[k]?

/-- Pass one character.  A byte order mark has no width, and the two
    characters of a line end count as one. -/
def next (p : Position) : Position :=
  match p.rest with
  | [] => p
  | c :: cs =>
    if c == '\r' && cs.head? == some '\n' then
      { p with rest := cs, index := p.index + 1, column := p.column + 1 }
    else if isBreak c then ⟨cs, p.index + 1, p.line + 1, 0⟩
    else if c == '\ufeff' then { p with rest := cs, index := p.index + 1 }
    else ⟨cs, p.index + 1, p.line, p.column + 1⟩

/-- Pass `n` characters. -/
def skip (p : Position) : Nat → Position
  | 0 => p
  | n + 1 => p.next.skip n

/-- Pass the characters of a class, and give them. -/
def span (p : Position) (f : Char → Bool) : List Char × Position :=
  let cs := p.rest.takeWhile f
  (cs, p.skip cs.length)

/-- Pass the characters of a class. -/
def skipWhile (p : Position) (f : Char → Bool) : Position :=
  (p.span f).2

/-- Pass spaces. -/
def skipSpaces (p : Position) : Position := p.skipWhile (fun c => c == ' ')

/-- Pass spaces up to a column. -/
def skipIndent (p : Position) (indent : Nat) : Position :=
  let spaces := p.rest.takeWhile (fun c => c == ' ')
  p.skip (min spaces.length (indent - p.column))

/-- Pass a comment. -/
def skipComment (p : Position) : Position :=
  if p.peek == some '#' then p.skipWhile (fun c => !isBreak c) else p

/-- Pass a line end: the text it stands for, if there is one. -/
def lineBreak? (p : Position) : Option (List Char × Position) :=
  match p.rest with
  | '\r' :: '\n' :: _ => some (['\n'], p.skip 2)
  | c :: _ =>
    if c == '\u2028' || c == '\u2029' then some ([c], p.next)
    else if isBreak c then some (['\n'], p.next)
    else none
  | [] => none

/-- Pass a line end if there is one. -/
def skipBreak (p : Position) : Position :=
  match p.lineBreak? with
  | some (_, p') => p'
  | none => p

/-- A document separator: three dashes or dots and a blank. -/
def atSeparator (p : Position) : Bool :=
  (p.rest.take 3 == ['-', '-', '-'] || p.rest.take 3 == ['.', '.', '.'])
    && atBlank (p.peekAt 3)

/-- The rest of a line that may hold only a comment. -/
def ignoredLine (p : Position) : Read Position :=
  let p := p.skipSpaces.skipComment
  if atBreak p.peek then .ok p.skipBreak else .error .malformed

end Position

end JavaOutline.Yaml
