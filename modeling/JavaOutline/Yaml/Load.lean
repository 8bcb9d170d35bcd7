import JavaOutline.Yaml.Document
import JavaOutline.Yaml.Node

/-! # Building documents

    A node is read according to its tag.  The value of a scalar is known at
    once; a collection is put off until the collections before it are done, so
    that of several faults the one nearest to the root counts.  In a mapping
    the last of several equal keys wins, and a merge key takes in the entries
    of other mappings, which the mapping's own entries override. -/

namespace JavaOutline.Yaml

/-! ## Scalars -/

/-- The most nodes that may stand for each other one after another. -/
def maxChain : Nat := 985

namespace Graph

/-- The text of a scalar, or of the entry that stands for its mapping; `room`
    is the number of nodes that may be passed on the way. -/
def text (g : Graph) : Nat → Nat → Read String
  | 0, _ => .error .tooDeep
  | room + 1, n =>
    match (g.node n).content with
    | .scalar s => .ok s
    | .mapping es =>
      match es.find? (fun e => g.tag e.1 == .value) with
      | some e => g.text room e.2
      | none => .error .malformed
    | .sequence _ => .error .malformed

/-- The time that a node writes, which must not be a mapping. -/
def time (g : Graph) (n : Nat) (s : String) : Read Time :=
  match (g.node n).content with
  | .mapping _ => .error .timeOfMapping
  | _ => Time.ofText s

/-- The atom that a node with the tag of a scalar is. -/
def atom (g : Graph) (n : Nat) : Read Atom := do
  let text := g.text maxChain n
  match g.tag n with
  | .null => do
    let _ ← text
    return .null
  | .bool => return .bool (← boolOf (← text))
  | .int => return .int (← integerOf (← text))
  | .float =>
    let s ← text
    return .real (← realOf s) (if namesNaN s then none else some n)
  | .binary => return .bytes (← bytesOf (← text))
  | .timestamp => return .time (← g.time n (← text))
  | .str => return .text (← text)
  | _ => throw .malformed

/-! ## Merge keys -/

/-- The key with the tag of a value counts as text in a mapping. -/
def retagKeys (g : Graph) (es : List (Nat × Nat)) : Graph :=
  es.foldl (fun g e => if g.tag e.1 == .value then g.retag e.1 .str else g) g

/-- The position of the first merge key from position `i` on. -/
def mergeAt? (g : Graph) (n i : Nat) : Option Nat :=
  (((g.entries n).drop i).findIdx? (fun e => g.tag e.1 == .merge)).map (i + ·)

mutual

/-- Take in the entries of merge keys, from position `i` of mapping `n` on.
    Those found so far are `merged`, and `room` is the number of mappings that
    may be passed on the way.  Every step takes a merge key out, so the fuel is
    more than the entries can use up. -/
def mergeFrom (n i : Nat) (merged : List (Nat × Nat)) (room : Nat) :
    Nat → Graph → Read Graph
  | 0, _ => .error .malformed
  | fuel + 1, g =>
    let es := g.entries n
    match g.mergeAt? n i with
    | none =>
      let g := g.retagKeys (es.drop i)
      .ok (if merged.isEmpty then g else g.fill n (.mapping (merged ++ es)))
    | some j => do
      let g := g.retagKeys ((es.drop i).take (j - i))
      let v := (es[j]?.map Prod.snd).getD 0
      let g := g.fill n (.mapping (es.eraseIdx j))
      match (g.node v).content with
      | .mapping _ =>
        let g ← mergeInto v room fuel g
        mergeFrom n j (merged ++ g.entries v) room fuel g
      | .sequence vs =>
        let (found, g) ← mergeAll vs room fuel g
        mergeFrom n j (merged ++ found) room fuel g
      | .scalar _ => .error .malformed
termination_by structural fuel => fuel

/-- Take in the entries of the merge keys of mapping `n`. -/
def mergeInto (n room : Nat) : Nat → Graph → Read Graph
  | 0, _ => .error .malformed
  | fuel + 1, g =>
    if room = 0 then .error .tooDeep else mergeFrom n 0 [] (room - 1) fuel g
termination_by structural fuel => fuel

/-- The entries of a list of mappings, the later ones first, so that the
    earlier ones override them. -/
def mergeAll (vs : List Nat) (room : Nat) :
    Nat → Graph → Read (List (Nat × Nat) × Graph)
  | 0, _ => .error .malformed
  | fuel + 1, g =>
    match vs with
    | [] => .ok ([], g)
    | v :: vs => do
      match (g.node v).content with
      | .mapping _ =>
        let g ← mergeInto v room fuel g
        let first := g.entries v
        let (rest, g) ← mergeAll vs room fuel g
        .ok (rest ++ first, g)
      | _ => .error .malformed
termination_by structural fuel => fuel

end

/-- The number of references between nodes. -/
def references (g : Graph) : Nat :=
  g.nodes.foldl
    (fun k x =>
      match x.content with
      | .scalar _ => k
      | .sequence ns => k + ns.length
      | .mapping es => k + es.length)
    0

/-- The graph with the entries of the merge keys of mapping `n` taken in. -/
def merge (g : Graph) (n : Nat) : Read Graph :=
  g.mergeInto n maxChain (4 * g.references + 4)

end Graph

/-! ## Collections -/

/-- How far the values of a document are known. -/
structure Building where
  graph : Graph
  /-- The collections that have been met, in order. -/
  met : Array Nat := #[]
  /-- The collections that are done. -/
  done : List (Nat × Collection) := []
  deriving Repr

/-- A step of building values. -/
abbrev Build := StateT Building Read

namespace Building

/-- The value of a node; a collection is noted and put off. -/
def item (n : Nat) : Build Item := do
  let b ← get
  match b.graph.tag n with
  | .seq | .map | .set | .omap | .pairs =>
    if !b.met.contains n then set { b with met := b.met.push n }
    pure (.collection n)
  | _ => pure (.atom (← b.graph.atom n))

/-- The values of nodes. -/
def items : List Nat → Build (List Item)
  | [] => pure []
  | n :: ns => do
    let x ← item n
    let xs ← items ns
    pure (x :: xs)

/-- The pairs that mappings of one entry are. -/
def pairs : List Nat → Build (List (Item × Item))
  | [] => pure []
  | n :: ns => do
    match ((← get).graph.node n).content with
    | .mapping [(k, v)] =>
      let k ← item k
      let v ← item v
      let ps ← pairs ns
      pure ((k, v) :: ps)
    | _ => throw .malformed

/-- The entries of a mapping, of which only an atom can be a key. -/
def entries (done : Mapping) : List (Nat × Nat) → Build Mapping
  | [] => pure done
  | (k, v) :: es => do
    match ← item k with
    | .atom key =>
      let value ← item v
      entries (done.insert key value) es
    | .collection _ => throw .malformed

/-- The entries of the mapping that a node must be, merge keys taken in. -/
def mapping (n : Nat) : Build Mapping := do
  let b ← get
  match (b.graph.node n).content with
  | .mapping _ =>
    let g ← b.graph.merge n
    set { b with graph := g }
    entries {} (g.entries n)
  | _ => throw .malformed

/-- The nodes of the sequence that a node must be. -/
def sequence (n : Nat) : Build (List Nat) := do
  match ((← get).graph.node n).content with
  | .sequence ns => pure ns
  | _ => throw .malformed

/-- The collection that a node is. -/
def collection (n : Nat) : Build Collection := do
  match (← get).graph.tag n with
  | .seq => .sequence <$> (items =<< sequence n)
  | .omap | .pairs => .pairs <$> (pairs =<< sequence n)
  | .map => .mapping <$> mapping n
  | .set => (fun m => .set (m.entries.map Prod.fst)) <$> mapping n
  | _ => throw .malformed

/-- Do the collections that have been met, from the one at position `i` on.
    No node is met twice, so the number of nodes is fuel enough. -/
def finish (i : Nat) : Nat → Build Unit
  | 0 => pure ()
  | fuel + 1 => do
    match (← get).met[i]? with
    | none => pure ()
    | some n =>
      let c ← collection n
      modify fun b => { b with done := (n, c) :: b.done }
      finish (i + 1) fuel

end Building

namespace Document

/-- The values of a graph with the given root. -/
def ofGraph (root : Nat) (g : Graph) : Read Document := do
  let build : Build Item := do
    let x ← Building.item root
    Building.finish 0 (g.size + 1)
    pure x
  let (x, b) ← build.run { graph := g }
  pure { root := x, collections := b.done }

/-- The values of a text; an empty text has the empty value. -/
def ofText (text : String) : Read Document := do
  match ← Graph.ofText text.toList with
  | (some root, g) => ofGraph root g
  | (none, _) => pure { root := .atom .null }

end Document

/-! ## Errors -/

/-- The kind of error that a fault is. -/
def Fault.kind : Fault → ErrorKind
  | .malformed => .yaml
  | .characterCode n => if 0x80000000 ≤ n then .overflow else .value
  | .integerText | .realText | .timeRange => .value
  | .realRange => .overflow
  | .emptyNumber => .index
  | .boolText => .key
  | .timeText => .attribute
  | .timeOfMapping => .type
  | .tooDeep => .recursion

/-- The loader that reads a text as laid down here. -/
def load : Loader := fun text =>
  match Document.ofText text with
  | .ok d => .ok d
  | .error f => .error { kind := f.kind }

end JavaOutline.Yaml
