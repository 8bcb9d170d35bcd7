import JavaOutline.Error
import JavaOutline.Text.Words

/-! # Paths

    A path is kept without the components that mean nothing: doubled and
    trailing slashes and single dots.  A double dot stays, since what it means
    depends on the directories.

    What text a path leads to is left to a `TextReader`. -/

namespace JavaOutline

open Text

/-- A path: where it starts, and its components. -/
structure Path where
  /-- Nothing for a relative path; one slash, or exactly two. -/
  root : String := ""
  parts : List String := []
  deriving DecidableEq, Repr

namespace Path

/-- The stretches of a text between slashes. -/
def components : List Char → List (List Char)
  | [] => [[]]
  | c :: cs =>
    if c = '/' then [] :: components cs
    else
      match components cs with
      | [] => [[c]]
      | p :: ps => (c :: p) :: ps

/-- Whether a component leads anywhere. -/
def isStep (p : List Char) : Bool := !(p.isEmpty || p == ['.'])

/-- The start of a path: two slashes are kept, three or more are one. -/
def rootOf : List Char → String
  | '/' :: '/' :: '/' :: _ => "/"
  | '/' :: '/' :: _ => "//"
  | '/' :: _ => "/"
  | _ => ""

/-- The path that a text writes. -/
def ofText (s : String) : Path where
  root := rootOf s.toList
  parts := ((components s.toList).filter isStep).map String.ofList

/-- The text of a path; the empty path is a dot. -/
def text (p : Path) : String :=
  if p.root = "" ∧ p.parts = [] then "."
  else p.root ++ joinWith "/" p.parts

end Path

/-- A way to read text: the text of the file at a path under the encoding of a
    given name. -/
abbrev TextReader := Path → String → Except Error String

end JavaOutline
