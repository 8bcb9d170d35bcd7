import JavaOutline.File.Charset
import JavaOutline.Yaml.Scalar

/-! # Tokens of a YAML text

    Indentation is turned into tokens that open and close block collections.
    Whether a scalar is the key of a mapping shows only at the colon after it,
    so the place of every possible key is remembered and the tokens for it are
    inserted there.  A key fits on one line and within 1024 characters.

    A fault in the text is met only by those who ask for a token beyond it: a
    token is ready as soon as nothing can be inserted before it any more, and
    the text is cut no further than the next ready token needs. -/

namespace JavaOutline.Yaml

/-- A directive before a document. -/
inductive Directive where
  | version (major : Nat)
  | tagHandle (handle replacement : String)
  | unknown
  deriving DecidableEq, Repr

/-- A token. -/
inductive Token where
  | directive (d : Directive)
  | documentStart
  | documentEnd
  | streamEnd
  | blockSequenceStart
  | blockMappingStart
  | blockEnd
  | flowSequenceStart
  | flowSequenceEnd
  | flowMappingStart
  | flowMappingEnd
  | blockEntry
  | flowEntry
  | key
  | value
  | alias (name : String)
  | anchor (name : String)
  | tag (handle : Option String) (suffix : String)
  | scalar (text : String) (plain : Bool)
  deriving DecidableEq, Repr

/-- A place where a key may have started. -/
structure PossibleKey where
  /-- The number of tokens before it. -/
  tokenIndex : Nat
  /-- Nothing but a key can stand there. -/
  isRequired : Bool
  index : Nat
  line : Nat
  column : Nat
  deriving DecidableEq, Repr

/-- How far a text has been cut into tokens. -/
structure Scan where
  pos : Position
  tokens : List Token := []
  /-- The number of open flow collections; below zero after a bracket too
      many. -/
  flowLevel : Int := 0
  /-- The column of the innermost block collection. -/
  indent : Int := -1
  /-- The columns of the collections around it. -/
  outer : List Int := []
  /-- A key may start here. -/
  allowKey : Bool := true
  /-- The possible keys, by the number of open flow collections. -/
  keys : List (Int × PossibleKey) := []
  /-- The end of the text has been reached. -/
  isDone : Bool := false
  deriving Repr

namespace Scan

/-- Inside a flow collection. -/
def inFlow (s : Scan) : Bool := s.flowLevel != 0

/-- Add a token. -/
def emit (s : Scan) (t : Token) : Scan := { s with tokens := s.tokens ++ [t] }

/-- Go on at another position. -/
def goTo (s : Scan) (p : Position) : Scan := { s with pos := p }

/-! ## Indentation and keys -/

/-- Close the block collections that are indented further than `column`. -/
def unwind (s : Scan) (column : Int) : Scan :=
  if s.inFlow then s
  else
    let closed := (s.indent :: s.outer).takeWhile (fun i => decide (column < i))
    let left := (s.indent :: s.outer).drop closed.length
    { s with
      indent := left.headD (-1)
      outer := left.drop 1
      tokens := s.tokens ++ closed.map (fun _ => .blockEnd) }

/-- Whether a block collection starts at a column. -/
def opensBlock (s : Scan) (column : Nat) : Bool := decide (s.indent < column)

/-- Start a block collection at a column, unless one is there. -/
def indentTo (s : Scan) (column : Nat) : Scan :=
  if s.opensBlock column then
    { s with outer := s.indent :: s.outer, indent := column }
  else s

/-- Forget the possible keys that the text has left behind. -/
def dropStaleKeys (s : Scan) : Read Scan :=
  let isStale (k : Int × PossibleKey) : Bool :=
    k.2.line != s.pos.line || decide (1024 < s.pos.index - k.2.index)
  if s.keys.any (fun k => isStale k && k.2.isRequired) then .error .malformed
  else .ok { s with keys := s.keys.filter (fun k => !isStale k) }

/-- Forget the possible key at the present level. -/
def dropKey (s : Scan) : Read Scan :=
  match s.keys.lookup s.flowLevel with
  | some k =>
    if k.isRequired then .error .malformed
    else .ok { s with keys := s.keys.filter (fun e => e.1 != s.flowLevel) }
  | none => .ok s

/-- Remember that a key may start here. -/
def saveKey (s : Scan) : Read Scan :=
  if s.allowKey then do
    let s ← s.dropKey
    let k : PossibleKey :=
      ⟨s.tokens.length, !s.inFlow && s.indent == (s.pos.column : Int),
        s.pos.index, s.pos.line, s.pos.column⟩
    .ok { s with keys := (s.flowLevel, k) :: s.keys }
  else .ok s

/-! ## Blanks and comments -/

/-- Pass blanks, comments and line ends; a key may start on a new line. -/
def skipBlanks (s : Scan) : Nat → Scan
  | 0 => s
  | fuel + 1 =>
    let p := s.pos.skipSpaces.skipComment
    match p.lineBreak? with
    | some (_, p) =>
      skipBlanks { s with pos := p, allowKey := s.allowKey || !s.inFlow } fuel
    | none => s.goTo p

/-- Pass a byte order mark at the very start. -/
def skipMark (s : Scan) : Scan :=
  if s.pos.index == 0 && s.pos.peek == some '\ufeff' then s.goTo s.pos.next
  else s

/-! ## Directives, anchors and tags -/

/-- A name of at least one character. -/
def name (p : Position) : Read (String × Position) :=
  let (cs, p) := p.span isNameChar
  if cs.isEmpty then .error .malformed else .ok (String.ofList cs, p)

/-- A number of at least one digit. -/
def number (p : Position) : Read (Nat × Position) :=
  let (cs, p) := p.span Char.isDigit
  if cs.isEmpty then .error .malformed
  else
    match Text.natural? cs with
    | some n => .ok (n, p)
    | none => .error .integerText

/-- The characters of a tag. -/
def isTagChar (c : Char) : Bool :=
  c.isAlphanum
    || ['-', ';', '/', '?', ':', '@', '&', '=', '+', '$', ',', '_', '.', '!',
        '~', '*', '\'', '(', ')', '[', ']'].contains c

/-- The bytes of escapes one after another. -/
def escapedBytes (p : Position) : Nat → Read (List UInt8 × Position)
  | 0 => .ok ([], p)
  | fuel + 1 =>
    match p.rest with
    | '%' :: a :: b :: _ =>
      match Text.naturalIn? 16 [a, b] with
      | some n => do
        let (bs, p) ← escapedBytes (p.skip 3) fuel
        .ok (UInt8.ofNat n :: bs, p)
      | none => .error .malformed
    | '%' :: _ => .error .malformed
    | _ => .ok ([], p)

/-- The characters of a tag, with escapes. -/
def tagText (text : List Char) (p : Position) :
    Nat → Read (List Char × Position)
  | 0 => .error .malformed
  | fuel + 1 => do
    let (cs, p) := p.span isTagChar
    if p.peek == some '%' then
      let (bytes, p) ← escapedBytes p p.rest.length
      match Charset.decode .utf8 bytes with
      | .ok ds => tagText (text ++ cs ++ ds) p fuel
      | .error _ => .error .malformed
    else .ok (text ++ cs, p)

/-- The characters of a tag, of which there is at least one. -/
def tagSuffix (p : Position) : Read (String × Position) := do
  let starts := match p.peek with
    | some c => isTagChar c || c == '%'
    | none => false
  let (cs, p) ← tagText [] p (p.rest.length + 1)
  if starts then .ok (String.ofList cs, p) else .error .malformed

/-- The handle of a tag: one exclamation mark, or a name between two. -/
def tagHandle (p : Position) : Read (String × Position) :=
  if p.peek != some '!' then .error .malformed
  else if p.peekAt 1 == some ' ' then .ok ("!", p.next)
  else
    let (cs, q) := p.next.span isNameChar
    if q.peek == some '!' then
      .ok (String.ofList ('!' :: (cs ++ ['!'])), q.next)
    else .error .malformed

/-- A tag. -/
def tagToken (p : Position) : Read (Token × Position) := do
  let (t, p) ←
    if p.peekAt 1 == some '<' then do
      let (suffix, p) ← tagSuffix (p.skip 2)
      if p.peek == some '>' then pure (Token.tag none suffix, p.next)
      else .error .malformed
    else if atBlank (p.peekAt 1) then pure (Token.tag none "!", p.next)
    else
      let run := p.next.rest.takeWhile (fun c => !atSpace (some c))
      let (handle, p) ←
        if run.contains '!' then tagHandle p else .ok ("!", p.next)
      let (suffix, p) ← tagSuffix p
      pure (Token.tag (some handle) suffix, p)
  if atSpace p.peek then .ok (t, p) else .error .malformed

/-- What follows the name of a directive. -/
def directiveBody (name : String) (p : Position) :
    Read (Directive × Position) :=
  if name = "YAML" then do
    let (major, p) ← number p.skipSpaces
    if p.peek != some '.' then .error .malformed
    else
      let (_, p) ← number p.next
      if atSpace p.peek then .ok (.version major, p) else .error .malformed
  else if name = "TAG" then do
    let (handle, p) ← tagHandle p.skipSpaces
    if p.peek != some ' ' then .error .malformed
    else
      let (replacement, p) ← tagSuffix p.skipSpaces
      if atSpace p.peek then .ok (.tagHandle handle replacement, p)
      else .error .malformed
  else .ok (.unknown, p.skipWhile (fun c => !isBreak c))

/-- A directive. -/
def directive (p : Position) : Read (Directive × Position) := do
  let (n, p) ← name p.next
  if !atSpace p.peek then .error .malformed
  else
    let (d, p) ← directiveBody n p
    let p ← p.ignoredLine
    .ok (d, p)

/-- The name of an anchor or an alias. -/
def anchorName (p : Position) : Read (String × Position) := do
  let (n, p) ← name p.next
  let ends := atBlank p.peek || (match p.peek with
    | some c => ['?', ':', ',', ']', '}', '%', '@', '\x60'].contains c
    | none => true)
  if ends then .ok (n, p) else .error .malformed

/-! ## Tokens -/

/-- The end of the text. -/
def streamEnd (s : Scan) : Read Scan := do
  let s ← (s.unwind (-1)).dropKey
  .ok ({ s with keys := [], isDone := true }.emit .streamEnd)

/-- A directive. -/
def fetchDirective (s : Scan) : Read Scan := do
  let s ← (s.unwind (-1)).dropKey
  let (d, p) ← directive s.pos
  .ok ({ s with allowKey := false, pos := p }.emit (.directive d))

/-- A document separator. -/
def fetchSeparator (s : Scan) (t : Token) : Read Scan := do
  let s ← (s.unwind (-1)).dropKey
  .ok ({ s with allowKey := false, pos := s.pos.skip 3 }.emit t)

/-- The start of a flow collection, which may be a key. -/
def openFlow (s : Scan) (t : Token) : Read Scan := do
  let s ← s.saveKey
  .ok ({ s with
    flowLevel := s.flowLevel + 1, allowKey := true, pos := s.pos.next }.emit t)

/-- The end of a flow collection. -/
def closeFlow (s : Scan) (t : Token) : Read Scan := do
  let s ← s.dropKey
  .ok ({ s with
    flowLevel := s.flowLevel - 1, allowKey := false, pos := s.pos.next }.emit t)

/-- The comma of a flow collection. -/
def fetchFlowEntry (s : Scan) : Read Scan := do
  let s ← s.dropKey
  .ok ({ s with allowKey := true, pos := s.pos.next }.emit .flowEntry)

/-- Start a block collection here if the column asks for one. -/
def startBlock (s : Scan) (t : Token) : Read Scan :=
  if s.inFlow then .ok s
  else if !s.allowKey then .error .malformed
  else if s.opensBlock s.pos.column then
    .ok ((s.indentTo s.pos.column).emit t)
  else .ok s

/-- The dash of a block sequence. -/
def fetchBlockEntry (s : Scan) : Read Scan := do
  let s ← s.startBlock .blockSequenceStart
  let s ← s.dropKey
  .ok ({ s with allowKey := true, pos := s.pos.next }.emit .blockEntry)

/-- The question mark before a key. -/
def fetchKey (s : Scan) : Read Scan := do
  let s ← s.startBlock .blockMappingStart
  let s ← s.dropKey
  .ok ({ s with allowKey := !s.inFlow, pos := s.pos.next }.emit .key)

/-- Put the tokens of a key before the tokens that made it. -/
def insertKey (s : Scan) (k : PossibleKey) : Scan :=
  let ts :=
    if !s.inFlow && s.opensBlock k.column then [.blockMappingStart, .key]
    else [.key]
  let s' := if s.inFlow then s else s.indentTo k.column
  { s' with
    tokens := s.tokens.take k.tokenIndex ++ ts ++ s.tokens.drop k.tokenIndex
    keys := s.keys.filter (fun e => e.1 != s.flowLevel)
    allowKey := false }

/-- The colon before a value. -/
def fetchValue (s : Scan) : Read Scan := do
  let s ←
    match s.keys.lookup s.flowLevel with
    | some k => pure (s.insertKey k)
    | none => do
      let s ← s.startBlock .blockMappingStart
      let s ← s.dropKey
      pure { s with allowKey := !s.inFlow }
  .ok ((s.goTo s.pos.next).emit .value)

/-- An alias or an anchor. -/
def fetchAnchor (s : Scan) (make : String → Token) : Read Scan := do
  let s ← s.saveKey
  let (n, p) ← anchorName s.pos
  .ok ({ s with allowKey := false, pos := p }.emit (make n))

/-- A tag. -/
def fetchTag (s : Scan) : Read Scan := do
  let s ← s.saveKey
  let (t, p) ← tagToken s.pos
  .ok ({ s with allowKey := false, pos := p }.emit t)

/-- A block scalar, which is no key. -/
def fetchBlockScalar (s : Scan) (folded : Bool) : Read Scan := do
  let s ← s.dropKey
  let (cs, p) ← blockScalar folded s.indent s.pos.next
  .ok ({ s with allowKey := true, pos := p }.emit
    (.scalar (String.ofList cs) false))

/-- A quoted scalar. -/
def fetchQuoted (s : Scan) (double : Bool) : Read Scan := do
  let s ← s.saveKey
  let (cs, p) ← quotedScalar double [] s.pos.next (s.pos.rest.length + 1)
  .ok ({ s with allowKey := false, pos := p }.emit
    (.scalar (String.ofList cs) false))

/-- A plain scalar; after a line end a key may start. -/
def fetchPlain (s : Scan) : Read Scan := do
  let s ← s.saveKey
  let r := plainScalar s.inFlow (s.indent + 1) [] [] false s.pos
    (s.pos.rest.length + 1)
  .ok ({ s with allowKey := r.broken, pos := r.pos }.emit
    (.scalar (String.ofList r.text) true))

/-- The characters that mean something at the start of a token. -/
def indicators : List Char :=
  ['-', '?', ':', ',', '[', ']', '{', '}', '#', '&', '*', '!', '|', '>',
   '\'', '"', '%', '@', '\x60']

/-- A plain scalar starts here. -/
def startsPlain (s : Scan) (c : Char) : Bool :=
  !(atBlank (some c) || indicators.contains c)
    || (!atBlank (s.pos.peekAt 1)
        && (c == '-' || (!s.inFlow && (c == '?' || c == ':'))))

/-- The next token, which starts with `c`. -/
def fetch (s : Scan) (c : Char) : Read Scan :=
  let followed := atBlank (s.pos.peekAt 1)
  if c == '%' && s.pos.column == 0 then s.fetchDirective
  else if c == '-' && s.pos.column == 0 && s.pos.atSeparator then
    s.fetchSeparator .documentStart
  else if c == '.' && s.pos.column == 0 && s.pos.atSeparator then
    s.fetchSeparator .documentEnd
  else if c == '[' then s.openFlow .flowSequenceStart
  else if c == '{' then s.openFlow .flowMappingStart
  else if c == ']' then s.closeFlow .flowSequenceEnd
  else if c == '}' then s.closeFlow .flowMappingEnd
  else if c == ',' then s.fetchFlowEntry
  else if c == '-' && followed then s.fetchBlockEntry
  else if c == '?' && (s.inFlow || followed) then s.fetchKey
  else if c == ':' && (s.inFlow || followed) then s.fetchValue
  else if c == '*' then s.fetchAnchor .alias
  else if c == '&' then s.fetchAnchor .anchor
  else if c == '!' then s.fetchTag
  else if c == '|' && !s.inFlow then s.fetchBlockScalar false
  else if c == '>' && !s.inFlow then s.fetchBlockScalar true
  else if c == '\'' then s.fetchQuoted false
  else if c == '"' then s.fetchQuoted true
  else if s.startsPlain c then s.fetchPlain
  else .error .malformed

/-- Pass blanks and take the next token, with the block ends before it. -/
def advance (s : Scan) : Read Scan := do
  let s ← (s.skipMark.skipBlanks (s.pos.rest.length + 1)).dropStaleKeys
  let s := s.unwind s.pos.column
  match s.pos.peek with
  | none => s.streamEnd
  | some c => s.fetch c

/-- The number of tokens that are ready: those before every possible key. -/
def ready (s : Scan) : Nat :=
  s.keys.foldl (fun n k => min n k.2.tokenIndex) s.tokens.length

end Scan

/-- The tokens that a text gives, and the fault met after them.  The tokens of
    a text without a fault end with `streamEnd`. -/
structure Tokens where
  list : List Token
  fault : Fault := .malformed
  deriving Repr

/-- All tokens from here on, of which the first `ready` are known. -/
def Scan.run (s : Scan) (ready : Nat) : Nat → Tokens
  | 0 => { list := s.tokens.take ready }
  | fuel + 1 =>
    match s.advance with
    | .error f => ⟨s.tokens.take ready, f⟩
    | .ok s' =>
      if s'.isDone then { list := s'.tokens }
      else
        match s'.dropStaleKeys with
        | .error f => ⟨s.tokens.take ready, f⟩
        | .ok s' => s'.run s'.ready fuel

/-- The tokens of a text. -/
def Tokens.ofText (text : List Char) : Tokens :=
  if text.all isAllowed then
    Scan.run { pos := { rest := text } } 0 (text.length + 1)
  else { list := [] }

end JavaOutline.Yaml
