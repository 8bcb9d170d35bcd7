import JavaOutline.Yaml.Graph
import JavaOutline.Yaml.Token

/-! # Reading nodes

    The tokens of a text make one document, and its root is a node: a scalar,
    a sequence or a mapping, each with its tag.  An alias stands for the node
    of its anchor.  Tokens are asked for one at a time, so that of several
    faults the first one met in reading counts.  The fuel is more than the
    tokens can use up. -/

namespace JavaOutline.Yaml

/-- What the reading of a document carries along. -/
structure Reader where
  tokens : Tokens
  graph : Graph := {}
  /-- The nodes of the anchors so far. -/
  anchors : List (String × Nat) := []
  /-- What the handles of tags stand for. -/
  handles : List (String × String) := []
  deriving Repr

/-- A step of reading. -/
abbrev Reading := StateT Reader Read

namespace Reader

/-- The next token, or the fault in its place. -/
def peek : Reading Token := do
  let r ← get
  match r.tokens.list with
  | t :: _ => pure t
  | [] => throw r.tokens.fault

/-- Pass one token. -/
def skip : Reading Unit :=
  modify fun r => { r with tokens.list := r.tokens.list.drop 1 }

/-- Add a node, and give its number. -/
def add (tag : Tag) (content : Content) : Reading Nat := do
  let r ← get
  set { r with graph := r.graph.add ⟨tag, content⟩ }
  pure r.graph.size

/-- Let an anchor name a node. -/
def bind (anchor : Option String) (n : Nat) : Reading Unit :=
  match anchor with
  | some a => modify fun r => { r with anchors := (a, n) :: r.anchors }
  | none => pure ()

end Reader

/-- The properties before a node. -/
structure Properties where
  anchor : Option String := none
  /-- The full name of its tag. -/
  tag : Option String := none

namespace Properties

/-- Nothing stands before the node. -/
def isEmpty (ps : Properties) : Bool := ps.anchor.isNone && ps.tag.isNone

/-- No tag, or the one that leaves the choice open. -/
def isOpen (ps : Properties) : Bool := ps.tag.isNone || ps.tag == some "!"

/-- The tag of a scalar: a plain one without a tag gets one by its form. -/
def scalarTag (ps : Properties) (text : String) (plain : Bool) : Tag :=
  match ps.tag with
  | none => if plain then Tag.ofPlain text else .str
  | some name => if name = "!" then Tag.ofPlain text else Tag.ofName name

/-- The tag of a collection. -/
def collectionTag (ps : Properties) (default : Tag) : Tag :=
  match ps.tag with
  | none => default
  | some name => if name = "!" then default else Tag.ofName name

end Properties

namespace Reader

/-- The full name of a tag. -/
def fullTag (handle : Option String) (suffix : String) : Reading String := do
  match handle with
  | none => pure suffix
  | some h =>
    match (← get).handles.lookup h with
    | some start => pure (start ++ suffix)
    | none => throw .malformed

/-- The anchor and the tag before a node, in either order.  The token after
    them is asked for before the handle of the tag is looked up. -/
def properties : Reading Properties := do
  match ← peek with
  | .anchor a =>
    skip
    match ← peek with
    | .tag h s =>
      skip
      pure ⟨some a, some (← fullTag h s)⟩
    | _ => pure ⟨some a, none⟩
  | .tag h s =>
    skip
    match ← peek with
    | .anchor a =>
      skip
      pure ⟨some a, some (← fullTag h s)⟩
    | _ => pure ⟨none, some (← fullTag h s)⟩
  | _ => pure {}

/-- An anchor names only one node. -/
def checkAnchor (ps : Properties) : Reading Unit := do
  match ps.anchor with
  | some a =>
    if ((← get).anchors.lookup a).isSome then throw .malformed else pure ()
  | none => pure ()

/-- An empty scalar. -/
def emptyNode : Reading Nat := add .null (.scalar "")

/-- A scalar. -/
def scalar (ps : Properties) (text : String) (plain : Bool) : Reading Nat := do
  let n ← add (ps.scalarTag text plain) (.scalar text)
  bind ps.anchor n
  pure n

/-- A collection, which can be referred to as soon as it is opened. -/
def collection (ps : Properties) (tag : Tag) (empty : Content)
    (body : Reading Content) : Reading Nat := do
  let n ← add (ps.collectionTag tag) empty
  bind ps.anchor n
  let c ← body
  modify fun r => { r with graph := r.graph.fill n c }
  pure n

/-- A sequence with the given items. -/
def sequence (ps : Properties) (items : Reading (List Nat)) : Reading Nat :=
  collection ps .seq (.sequence []) (.sequence <$> items)

/-- A mapping with the given entries. -/
def mapping (ps : Properties) (entries : Reading (List (Nat × Nat))) :
    Reading Nat :=
  collection ps .map (.mapping []) (.mapping <$> entries)

/-- The node that an alias stands for. -/
def aliased (name : String) : Reading Nat := do
  match (← get).anchors.lookup name with
  | some n => pure n
  | none => throw .malformed

mutual

/-- A node; `block` says whether it may be a block collection, `bare` whether
    it may be a sequence without an indentation of its own, and `room` how many
    nodes may be nested from here on. -/
def node (block bare : Bool) (room : Nat) : Nat → Reading Nat
  | 0 => throw .malformed
  | fuel + 1 => do
    if room = 0 then throw .tooDeep
    match ← peek with
    | .alias a =>
      skip
      aliased a
    | _ =>
      let ps ← properties
      let t ← peek
      checkAnchor ps
      match t with
      | .scalar text plain =>
        skip
        scalar ps text plain
      | .flowSequenceStart =>
        sequence ps (do skip; flowSequence true (room - 1) fuel)
      | .flowMappingStart =>
        mapping ps (do skip; flowMapping true (room - 1) fuel)
      | t =>
        if bare && t == .blockEntry then
          sequence ps (bareSequence (room - 1) fuel)
        else if block && t == .blockSequenceStart then
          sequence ps (do skip; blockSequence (room - 1) fuel)
        else if block && t == .blockMappingStart then
          mapping ps (do skip; blockMapping (room - 1) fuel)
        else if ps.isEmpty then throw .malformed
        else scalar ps "" ps.isOpen
termination_by structural fuel => fuel

/-- A node, unless one of the listed tokens stands in its place. -/
def nodeUnless (stop : List Token) (block bare : Bool) (room : Nat) :
    Nat → Reading Nat
  | 0 => throw .malformed
  | fuel + 1 => do
    if stop.contains (← peek) then emptyNode else node block bare room fuel
termination_by structural fuel => fuel

/-- The items of a block sequence. -/
def blockSequence (room : Nat) : Nat → Reading (List Nat)
  | 0 => throw .malformed
  | fuel + 1 => do
    match ← peek with
    | .blockEntry =>
      skip
      let n ← nodeUnless [.blockEntry, .blockEnd] true false room fuel
      let ns ← blockSequence room fuel
      pure (n :: ns)
    | .blockEnd =>
      skip
      pure []
    | _ => throw .malformed
termination_by structural fuel => fuel

/-- The items of a sequence that is indented like the mapping around it. -/
def bareSequence (room : Nat) : Nat → Reading (List Nat)
  | 0 => throw .malformed
  | fuel + 1 => do
    match ← peek with
    | .blockEntry =>
      skip
      let n ←
        nodeUnless [.blockEntry, .key, .value, .blockEnd] true false room fuel
      let ns ← bareSequence room fuel
      pure (n :: ns)
    | _ => pure []
termination_by structural fuel => fuel

/-- The entries of a block mapping. -/
def blockMapping (room : Nat) : Nat → Reading (List (Nat × Nat))
  | 0 => throw .malformed
  | fuel + 1 => do
    let stop : List Token := [.key, .value, .blockEnd]
    match ← peek with
    | .blockEnd =>
      skip
      pure []
    | .key =>
      skip
      let k ← nodeUnless stop true true room fuel
      let v ← entryValue stop true room fuel
      let es ← blockMapping room fuel
      pure ((k, v) :: es)
    | _ => throw .malformed
termination_by structural fuel => fuel

/-- The value of an entry, if it has one. -/
def entryValue (stop : List Token) (block : Bool) (room : Nat) :
    Nat → Reading Nat
  | 0 => throw .malformed
  | fuel + 1 => do
    match ← peek with
    | .value =>
      skip
      nodeUnless stop block block room fuel
    | _ => emptyNode
termination_by structural fuel => fuel

/-- The items of a flow sequence; an entry among them is a mapping of its
    own. -/
def flowSequence (isFirst : Bool) (room : Nat) : Nat → Reading (List Nat)
  | 0 => throw .malformed
  | fuel + 1 => do
    let t ← peek
    if t == .flowSequenceEnd then
      skip
      pure []
    else if !isFirst && t != .flowEntry then throw .malformed
    else
      if !isFirst then skip
      match ← peek with
      | .flowSequenceEnd =>
        skip
        pure []
      | .key =>
        let n ← mapping {} do
          if room = 0 then throw .tooDeep
          skip
          let k ← nodeUnless [.value, .flowEntry, .flowSequenceEnd] false false
            (room - 1) fuel
          let v ← entryValue [.flowEntry, .flowSequenceEnd] false (room - 1) fuel
          pure [(k, v)]
        let ns ← flowSequence false room fuel
        pure (n :: ns)
      | _ =>
        let n ← node false false room fuel
        let ns ← flowSequence false room fuel
        pure (n :: ns)
termination_by structural fuel => fuel

/-- The entries of a flow mapping. -/
def flowMapping (isFirst : Bool) (room : Nat) :
    Nat → Reading (List (Nat × Nat))
  | 0 => throw .malformed
  | fuel + 1 => do
    let t ← peek
    if t == .flowMappingEnd then
      skip
      pure []
    else if !isFirst && t != .flowEntry then throw .malformed
    else
      if !isFirst then skip
      match ← peek with
      | .flowMappingEnd =>
        skip
        pure []
      | .key =>
        skip
        let k ← nodeUnless [.value, .flowEntry, .flowMappingEnd] false false
          room fuel
        let v ← entryValue [.flowEntry, .flowMappingEnd] false room fuel
        let es ← flowMapping false room fuel
        pure ((k, v) :: es)
      | _ =>
        let k ← node false false room fuel
        let v ← emptyNode
        let es ← flowMapping false room fuel
        pure ((k, v) :: es)
termination_by structural fuel => fuel

end

/-! ## Documents -/

/-- The handles that every document has. -/
def defaultHandles : List (String × String) :=
  [("!", "!"), ("!!", standardTag)]

/-- The directives before a document: at most one version, which must be of
    the first major version, and no handle twice. -/
def directives (versionSeen : Bool) (handles : List (String × String)) :
    Nat → Reading Unit
  | 0 => throw .malformed
  | fuel + 1 => do
    match ← peek with
    | .directive d =>
      skip
      match d with
      | .version major =>
        if versionSeen ∨ major ≠ 1 then throw .malformed
        else directives true handles fuel
      | .tagHandle h start =>
        if (handles.lookup h).isSome then throw .malformed
        else directives versionSeen ((h, start) :: handles) fuel
      | .unknown => directives versionSeen handles fuel
    | _ => modify fun r => { r with handles := handles ++ defaultHandles }

/-- The directives of a document and the separator after them. -/
def documentStart (fuel : Nat) : Reading Unit := do
  directives false [] fuel
  match ← peek with
  | .documentStart => skip
  | _ => throw .malformed

/-- Nothing but document ends is left before the end of the text. -/
def documentEnd : Nat → Reading Unit
  | 0 => throw .malformed
  | fuel + 1 => do
    match ← peek with
    | .documentEnd =>
      skip
      documentEnd fuel
    | .streamEnd => pure ()
    | _ =>
      documentStart fuel
      throw .malformed

/-- The most nodes that may be nested. -/
def maxDepth : Nat := 490

/-- The root of a document after its separator. -/
def content (fuel : Nat) : Reading Nat := do
  match ← peek with
  | .directive _ | .documentStart | .documentEnd | .streamEnd => emptyNode
  | _ => node true false maxDepth fuel

/-- The root of the one document of a text; none if the text is empty. -/
def document (fuel : Nat) : Reading (Option Nat) := do
  match ← peek with
  | .streamEnd => pure none
  | .directive _ | .documentStart =>
    documentStart fuel
    let n ← content fuel
    documentEnd fuel
    pure (some n)
  | _ =>
    modify fun r => { r with handles := defaultHandles }
    let n ← node true false maxDepth fuel
    documentEnd fuel
    pure (some n)

end Reader

/-- The nodes of a text and the number of their root; no root if the text is
    empty. -/
def Graph.ofText (text : List Char) : Read (Option Nat × Graph) := do
  let ts := Tokens.ofText text
  let (root, r) ← (Reader.document (4 * ts.list.length + 4)).run { tokens := ts }
  pure (root, r.graph)

end JavaOutline.Yaml
