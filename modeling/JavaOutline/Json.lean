import JavaOutline.Number.Shortest
import JavaOutline.Text.Words

/-! # JSON values

    Loose data as it is handed in before it is checked against a record, and
    the form in which records are written.  A number written as an integer is
    exact; any other is the nearest number of the 64-bit binary format. -/

namespace JavaOutline

open Text

/-- A JSON value. -/
inductive Json where
  | null
  | bool (b : Bool)
  | int (n : Int)
  | real (x : Number.Real64)
  | str (s : String)
  | arr (items : List Json)
  | obj (members : List (String × Json))
  deriving Repr

namespace Json

mutual

/-- A value as shown inside a message; texts are quoted. -/
def shown : Json → String
  | .null => "None"
  | .bool b => if b then "True" else "False"
  | .int n => toString n
  | .real x => x.text
  | .str s => quoted s
  | .arr xs => "[" ++ joinWith ", " (shownItems xs) ++ "]"
  | .obj ms => "\x7b" ++ joinWith ", " (shownMembers ms) ++ "\x7d"

/-- The items of an array as shown inside a message. -/
def shownItems : List Json → List String
  | [] => []
  | x :: xs => x.shown :: shownItems xs

/-- The members of an object as shown inside a message. -/
def shownMembers : List (String × Json) → List String
  | [] => []
  | (k, v) :: ms => (quoted k ++ ": " ++ v.shown) :: shownMembers ms

end

/-- A value as text of its own: a text is shown as it is. -/
def plain : Json → String
  | .str s => s
  | v => v.shown

end Json

end JavaOutline
