import JavaOutline.File.Charset
import JavaOutline.Text.Integer
import JavaOutline.Yaml.Position

/-! # Scalars of a YAML text

    The text of plain, quoted and block scalars.  A single line end inside a
    plain or quoted scalar, or inside a folded block, is a space; of several,
    all but the first are kept. -/

namespace JavaOutline.Yaml

/-- The text that a line end and the empty lines after it leave. -/
def foldBreaks (first : List Char) (breaks : List Char) : List Char :=
  if first ≠ ['\n'] then first ++ breaks
  else if breaks.isEmpty then [' ']
  else breaks

/-! ## Plain scalars -/

/-- Whether a plain scalar ends before `c`. -/
def endsPlain (inFlow : Bool) (c : Char) (after : Option Char) : Bool :=
  atBlank (some c)
    || (c == ':' && (atBlank after
        || (inFlow && (match after with
            | some d => [',', '[', ']', '{', '}'].contains d
            | none => false))))
    || (inFlow && [',', '?', '[', ']', '{', '}'].contains c)

/-- A stretch of a plain scalar without blanks. -/
def plainRun (inFlow : Bool) : List Char → List Char
  | [] => []
  | c :: cs =>
    if endsPlain inFlow c cs.head? then [] else c :: plainRun inFlow cs

/-- What stands between two stretches of a plain scalar. -/
structure PlainGap where
  /-- The blanks as text; nothing if the scalar ends here. -/
  text : List Char
  pos : Position
  /-- A line end was passed. -/
  broken : Bool

/-- The empty lines and the indentation after a line end; nothing before a
    document separator. -/
def plainBreaks (breaks : List Char) (p : Position) :
    Nat → Option (List Char) × Position
  | 0 => (none, p)
  | fuel + 1 =>
    let p := p.skipSpaces
    match p.lineBreak? with
    | none => (some breaks, p)
    | some (b, p) =>
      if p.atSeparator then (none, p) else plainBreaks (breaks ++ b) p fuel

/-- The blanks after a stretch of a plain scalar. -/
def plainGap (p : Position) : PlainGap :=
  let (spaces, p) := p.span (fun c => c == ' ')
  match p.lineBreak? with
  | none => ⟨spaces, p, false⟩
  | some (first, p) =>
    if p.atSeparator then ⟨[], p, true⟩
    else
      match plainBreaks [] p (p.rest.length + 1) with
      | (some breaks, p) => ⟨foldBreaks first breaks, p, true⟩
      | (none, p) => ⟨[], p, true⟩

/-- A plain scalar that has been read. -/
structure Plain where
  text : List Char
  pos : Position
  /-- Its last passed blanks held a line end. -/
  broken : Bool

/-- The stretches of a plain scalar, those on later lines being indented by
    at least `indent` outside flow collections. -/
def plainScalar (inFlow : Bool) (indent : Int) (text gap : List Char)
    (broken : Bool) (p : Position) : Nat → Plain
  | 0 => ⟨text, p, broken⟩
  | fuel + 1 =>
    let run := plainRun inFlow p.rest
    if p.peek == some '#' || run.isEmpty then ⟨text, p, broken⟩
    else
      let text := text ++ gap ++ run
      let g := plainGap (p.skip run.length)
      if g.text.isEmpty || g.pos.peek == some '#'
          || (!inFlow && decide ((g.pos.column : Int) < indent)) then
        ⟨text, g.pos, g.broken⟩
      else plainScalar inFlow indent text g.text g.broken g.pos fuel

/-! ## Quoted scalars -/

/-- The character of a one-letter escape. -/
def escape? : Char → Option Char
  | '0' => some '\x00'
  | 'a' => some '\x07'
  | 'b' => some '\x08'
  | 't' => some '\t'
  | '\t' => some '\t'
  | 'n' => some '\n'
  | 'v' => some '\x0b'
  | 'f' => some '\x0c'
  | 'r' => some '\r'
  | 'e' => some '\x1b'
  | ' ' => some ' '
  | '"' => some '"'
  | '\\' => some '\\'
  | '/' => some '/'
  | 'N' => some '\x85'
  | '_' => some '\xa0'
  | 'L' => some '\u2028'
  | 'P' => some '\u2029'
  | _ => none

/-- The number of digits of an escape by code. -/
def escapeWidth? : Char → Option Nat
  | 'x' => some 2
  | 'u' => some 4
  | 'U' => some 8
  | _ => none

/-- The character of a code; half of a pair is replaced. -/
def ofCode (n : Nat) : Char :=
  if Charset.isHighUnit n || Charset.isLowUnit n then '\ufffd' else Char.ofNat n

/-- The text that codes write; the two halves of a pair make one character. -/
def ofCodes : List Nat → List Char
  | [] => []
  | [n] => [ofCode n]
  | n :: k :: ns =>
    if Charset.isHighUnit n && Charset.isLowUnit k then
      Charset.ofPair n k :: ofCodes ns
    else ofCode n :: ofCodes (k :: ns)

/-- The codes of a text. -/
def codes (cs : List Char) : List Nat := cs.map Char.toNat

/-- The empty lines inside a quoted scalar, which no document separator may
    interrupt. -/
def quotedBreaks (breaks : List Char) (p : Position) :
    Nat → Read (List Char × Position)
  | 0 => .error .malformed
  | fuel + 1 =>
    if p.atSeparator then .error .malformed
    else
      let p := p.skipWhile (fun c => c == ' ' || c == '\t')
      match p.lineBreak? with
      | some (b, p) => quotedBreaks (breaks ++ b) p fuel
      | none => .ok (breaks, p)

/-- The codes of an escape, its backslash passed. -/
def quotedEscape (p : Position) : Read (List Nat × Position) :=
  match p.peek with
  | none => .error .malformed
  | some c =>
    match escape? c, escapeWidth? c with
    | some d, _ => .ok ([d.toNat], p.next)
    | none, some width =>
      let digits := p.next.rest.take width
      match Text.naturalIn? 16 digits with
      | some n =>
        if digits.length ≠ width then .error .malformed
        else if 0x110000 ≤ n then .error (.characterCode n)
        else .ok ([n], p.next.skip width)
      | none => .error .malformed
    | none, none =>
      match p.lineBreak? with
      | some (_, p) =>
        (quotedBreaks [] p (p.rest.length + 1)).map fun (breaks, p) =>
          (codes breaks, p)
      | none => .error .malformed

/-- Blanks inside a quoted scalar. -/
def quotedBlanks (p : Position) : Read (List Char × Position) :=
  let (blanks, p) := p.span (fun c => c == ' ' || c == '\t')
  match p.lineBreak? with
  | some (first, p) =>
    (quotedBreaks [] p (p.rest.length + 1)).map fun (breaks, p) =>
      (foldBreaks first breaks, p)
  | none => if p.peek.isNone then .error .malformed else .ok (blanks, p)

/-- The characters of a quoted scalar that stand for themselves. -/
def isQuotedPlain (c : Char) : Bool :=
  !(c == '\'' || c == '"' || c == '\\' || c == ' ' || c == '\t' || isBreak c)

/-- The rest of a quoted scalar, up to and with the closing quote; `text` is
    what stands before it, as codes. -/
def quotedScalar (double : Bool) (text : List Nat) (p : Position) :
    Nat → Read (List Char × Position)
  | 0 => .error .malformed
  | fuel + 1 =>
    let (run, p) := p.span isQuotedPlain
    let text := text ++ codes run
    match p.peek with
    | none => .error .malformed
    | some '\'' =>
      if double then quotedScalar double (text ++ codes ['\'']) p.next fuel
      else if p.peekAt 1 == some '\'' then
        quotedScalar double (text ++ codes ['\'']) (p.skip 2) fuel
      else .ok (ofCodes text, p.next)
    | some '"' =>
      if double then .ok (ofCodes text, p.next)
      else quotedScalar double (text ++ codes ['"']) p.next fuel
    | some '\\' =>
      if double then
        match quotedEscape p.next with
        | .ok (ns, p) => quotedScalar double (text ++ ns) p fuel
        | .error f => .error f
      else quotedScalar double (text ++ codes ['\\']) p.next fuel
    | some _ =>
      match quotedBlanks p with
      | .ok (cs, p) => quotedScalar double (text ++ codes cs) p fuel
      | .error f => .error f

/-! ## Block scalars -/

/-- What is done with the line ends at the end of a block scalar. -/
inductive Chomping where
  | clip
  | strip
  | keep
  deriving DecidableEq, Repr

/-- The sign that fixes the chomping. -/
def chomping? : Option Char → Option Chomping
  | some '+' => some .keep
  | some '-' => some .strip
  | _ => none

/-- The digit that fixes the indentation. -/
def indentDigit? : Option Char → Option Nat
  | some c => if c.isDigit then some (c.toNat - 0x30) else none
  | none => none

/-- The signs after the start of a block scalar, in either order. -/
def blockSigns (p : Position) :
    Read (Chomping × Option Nat × Position) :=
  let (chomp, digit, p) :=
    match chomping? p.peek with
    | some c =>
      match indentDigit? p.next.peek with
      | some d => (c, some d, p.skip 2)
      | none => (c, none, p.next)
    | none =>
      match indentDigit? p.peek with
      | some d =>
        match chomping? p.next.peek with
        | some c => (c, some d, p.skip 2)
        | none => (.clip, some d, p.next)
      | none => (.clip, none, p)
  if digit = some 0 ∨ !atSpace p.peek then .error .malformed
  else .ok (chomp, digit, p)

/-- The empty lines before the first line of a block scalar: their text, and
    the greatest column that was reached. -/
def blockLead (breaks : List Char) (most : Nat) (p : Position) :
    Nat → List Char × Nat × Position
  | 0 => (breaks, most, p)
  | fuel + 1 =>
    let p := p.skipSpaces
    let most := max most p.column
    match p.lineBreak? with
    | some (b, p) => blockLead (breaks ++ b) most p fuel
    | none => (breaks, most, p)

/-- The empty lines inside a block scalar. -/
def blockBreaks (indent : Nat) (breaks : List Char) (p : Position) :
    Nat → List Char × Position
  | 0 => (breaks, p)
  | fuel + 1 =>
    let p := p.skipIndent indent
    match p.lineBreak? with
    | some (b, p) => blockBreaks indent (breaks ++ b) p fuel
    | none => (breaks, p)

/-- A line of a block scalar starts here. -/
def atBlockLine (indent : Nat) (p : Position) : Bool :=
  p.column == indent && p.peek.isSome

/-- A space or a tab. -/
def isIndented (c? : Option Char) : Bool :=
  c? == some ' ' || c? == some '\t'

/-- The lines of a block scalar: its text, its last line end, the empty lines
    after it and the position there. -/
def blockLines (folded : Bool) (indent : Nat) (text breaks : List Char)
    (p : Position) : Nat → List Char × List Char × List Char × Position
  | 0 => (text, [], breaks, p)
  | fuel + 1 =>
    let (line, p') := p.span (fun c => !isBreak c)
    let text := text ++ breaks ++ line
    let (last, p') := (p'.lineBreak?).getD ([], p')
    let (breaks, p') := blockBreaks indent [] p' (p'.rest.length + 1)
    if atBlockLine indent p' then
      let joined :=
        if folded && last == ['\n'] && !isIndented p.peek
            && !isIndented p'.peek then
          if breaks.isEmpty then [' '] else []
        else last
      blockLines folded indent (text ++ joined) breaks p' fuel
    else (text, last, breaks, p')

/-- A block scalar, its first sign passed, inside a collection that is
    indented by `parent`. -/
def blockScalar (folded : Bool) (parent : Int) (p : Position) :
    Read (List Char × Position) := do
  let (chomp, digit, p) ← blockSigns p
  let p ← p.ignoredLine
  let least := (max 1 (parent + 1)).toNat
  let fuel := p.rest.length + 1
  let (indent, breaks, p) :=
    match digit with
    | some d =>
      let indent := least + d - 1
      let (breaks, p) := blockBreaks indent [] p fuel
      (indent, breaks, p)
    | none =>
      let (breaks, most, p) := blockLead [] 0 p fuel
      (max least most, breaks, p)
  let (text, last, breaks, p) :=
    if atBlockLine indent p then blockLines folded indent [] breaks p fuel
    else ([], [], breaks, p)
  match chomp with
  | .strip => .ok (text, p)
  | .clip => .ok (text ++ last, p)
  | .keep => .ok (text ++ last ++ breaks, p)

end JavaOutline.Yaml
