import JavaOutline.Text.Quoted

/-! # Words

    Joining texts with a separator, cutting a text at the first occurrence of
    a character, and the shown form of a list of texts. -/

namespace JavaOutline.Text

/-- The texts one after another, `separator` between every two. -/
def joinWith (separator : String) : List String → String
  | [] => ""
  | [w] => w
  | w :: v :: ws => w ++ separator ++ joinWith separator (v :: ws)

/-- The words one after another, a space between every two. -/
def joinWords (ws : List String) : String :=
  joinWith " " ws

theorem toList_joinWords_cons_cons (w v : String) (ws : List String) :
    (joinWords (w :: v :: ws)).toList
      = w.toList ++ ' ' :: (joinWords (v :: ws)).toList := by
  simp [joinWords, joinWith, String.toList_append]

/-- The part of a text before the first `c`; all of it if there is none. -/
def before (c : Char) (s : String) : String :=
  String.ofList (s.toList.takeWhile (fun d => d != c))

/-- The part of a text after the first `c`; nothing if there is none. -/
def after (c : Char) (s : String) : String :=
  String.ofList ((s.toList.dropWhile (fun d => d != c)).drop 1)

/-- Whether a text holds the character `c`. -/
def holds (c : Char) (s : String) : Bool :=
  s.toList.contains c

/-- Whether a text starts with the character `c`. -/
def startsWith (c : Char) (s : String) : Bool :=
  s.toList.head? == some c

/-- A list of texts as shown in a message: quoted, between brackets. -/
def quotedList (ws : List String) : String :=
  "[" ++ joinWith ", " (ws.map quoted) ++ "]"

end JavaOutline.Text
