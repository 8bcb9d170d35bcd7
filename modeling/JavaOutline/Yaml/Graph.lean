import JavaOutline.Yaml.Tag

/-! # Graphs of YAML nodes

    The nodes of a document are numbered, and a collection refers to the nodes
    in it by their numbers.  An alias is one more reference to a node, so a
    node may stand in several places, and even inside itself. -/

namespace JavaOutline.Yaml

/-- What a node holds; other nodes are given by their numbers. -/
inductive Content where
  | scalar (text : String)
  | sequence (items : List Nat)
  | mapping (entries : List (Nat × Nat))
  deriving DecidableEq, Repr

/-- A node. -/
structure Node where
  tag : Tag
  content : Content
  deriving DecidableEq, Repr

/-- The nodes of a document by their numbers. -/
structure Graph where
  nodes : Array Node := #[]
  deriving Repr

namespace Graph

/-- The number of nodes, which is the number of the next one. -/
def size (g : Graph) : Nat := g.nodes.size

/-- The node of a number; an empty scalar if there is none. -/
def node (g : Graph) (n : Nat) : Node := g.nodes.getD n ⟨.null, .scalar ""⟩

/-- The tag of a node. -/
def tag (g : Graph) (n : Nat) : Tag := (g.node n).tag

/-- The entries of a mapping. -/
def entries (g : Graph) (n : Nat) : List (Nat × Nat) :=
  match (g.node n).content with
  | .mapping es => es
  | _ => []

/-- Add a node. -/
def add (g : Graph) (x : Node) : Graph := ⟨g.nodes.push x⟩

/-- Change what a node holds. -/
def fill (g : Graph) (n : Nat) (c : Content) : Graph :=
  ⟨g.nodes.modify n fun x => { x with content := c }⟩

/-- Change the tag of a node. -/
def retag (g : Graph) (n : Nat) (t : Tag) : Graph :=
  ⟨g.nodes.modify n fun x => { x with tag := t }⟩

end Graph

end JavaOutline.Yaml
