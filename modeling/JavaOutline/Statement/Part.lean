import JavaOutline.Keyword
import JavaOutline.Text.Words

/-! # The parts of a statement

    The words of a statement come in groups.  A group of one word is an
    identifier; in a longer group the last word is an identifier and the words
    before it are its type.  Structural keywords are parts of their own. -/

namespace JavaOutline

open Text

/-- The kinds of part.  The last five are markers: they announce what the
    identifiers after them stand for. -/
inductive PartKind where
  | typeName
  | identifier
  | typeWord
  | access
  | modifier
  | throwing
  | implementing
  | extending
  | importing
  | packaging
  deriving DecidableEq, Repr

/-- The name of a kind, as messages give it. -/
def PartKind.label : PartKind → String
  | .typeName => "type"
  | .identifier => "variable"
  | .typeWord => "object"
  | .access => "access"
  | .modifier => "modifier"
  | .throwing => "throws"
  | .implementing => "implements"
  | .extending => "extends"
  | .importing => "import"
  | .packaging => "package"

/-- A classified part of a statement. -/
structure Part where
  kind : PartKind
  text : String := ""
  deriving DecidableEq, Repr

namespace Part

/-- The parts of one group of words. -/
def ofWords : List String → List Part
  | [] => []
  | [w] => [⟨.identifier, w⟩]
  | w :: v :: ws =>
    [⟨.typeName, joinWords (w :: v :: ws).dropLast⟩,
     ⟨.identifier, (v :: ws).getLast (List.cons_ne_nil v ws)⟩]

/-- The marker that a keyword is, if it is one. -/
def marker? (w : String) : Option PartKind :=
  if w = "throws" then some .throwing
  else if w = "implements" then some .implementing
  else if w = "extends" then some .extending
  else if w = "import" then some .importing
  else if w = "package" then some .packaging
  else none

/-- The part that a structural keyword is. -/
def ofKeyword? (w : String) : Option Part :=
  if Keyword.typeWords.contains w then some ⟨.typeWord, w⟩
  else if Keyword.accessWords.contains w then some ⟨.access, w⟩
  else if Keyword.modifierWords.contains w then some ⟨.modifier, w⟩
  else (marker? w).map (fun k => ⟨k, ""⟩)

/-- A part as a message shows it: its text, or its kind if it has none. -/
def shown (p : Part) : String :=
  if p.text = "" then p.kind.label else p.text

/-- All parts of a statement as a message shows them. -/
def shownAll (ps : List Part) : String :=
  joinWords (ps.map shown)

end Part

end JavaOutline
