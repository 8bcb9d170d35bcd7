import JavaOutline.Text.Integer
import JavaOutline.Text.Words
import JavaOutline.Yaml.Position

/-! # Tags

    The tag of a node says how its value is read.  A plain scalar without a
    tag gets one by its form. -/

namespace JavaOutline.Yaml

/-- The tags that have a meaning, and all others. -/
inductive Tag where
  | null
  | bool
  | int
  | float
  | binary
  | timestamp
  | omap
  | pairs
  | set
  | str
  | seq
  | map
  /-- A key that takes in the entries of other mappings. -/
  | merge
  /-- A key whose value stands for the whole mapping. -/
  | value
  | other
  deriving DecidableEq, Repr

/-- The text that the standard tags start with. -/
def standardTag : String := "tag:yaml.org,2002:"

/-- The standard tags by name. -/
def Tag.named : List (String × Tag) :=
  [("null", .null), ("bool", .bool), ("int", .int), ("float", .float),
   ("binary", .binary), ("timestamp", .timestamp), ("omap", .omap),
   ("pairs", .pairs), ("set", .set), ("str", .str), ("seq", .seq),
   ("map", .map), ("merge", .merge), ("value", .value)]

/-- The tag of a full name. -/
def Tag.ofName (s : String) : Tag :=
  ((named.find? (fun e => standardTag ++ e.1 == s)).map Prod.snd).getD .other

/-! ## Forms of plain scalars -/

/-- A text without the newline at its end; the forms take no notice of one. -/
def withoutNewline (s : String) : String :=
  if s.toList.getLast? = some '\n' then String.ofList s.toList.dropLast else s

/-- A tilde or the word. -/
def isNull (s : String) : Bool :=
  ["~", "null", "Null", "NULL"].contains s

/-- The words for true and false, each in three spellings. -/
def isBool (s : String) : Bool :=
  ["yes", "Yes", "YES", "no", "No", "NO", "true", "True", "TRUE", "false",
   "False", "FALSE", "on", "On", "ON", "off", "Off", "OFF"].contains s

/-- A digit or an underscore. -/
def isLooseDigit (c : Char) : Bool := c.isDigit || c == '_'

/-- A text without its sign. -/
def unsigned : List Char → List Char
  | '+' :: cs => cs
  | '-' :: cs => cs
  | cs => cs

/-- At least one character, all of a class. -/
def allOf (f : Char → Bool) (cs : List Char) : Bool :=
  !cs.isEmpty && cs.all f

/-- The stretches of a text between colons. -/
def colonParts : List Char → List (List Char)
  | [] => [[]]
  | c :: cs =>
    if c = ':' then [] :: colonParts cs
    else
      match colonParts cs with
      | [] => [[c]]
      | p :: ps => (c :: p) :: ps

/-- A number below sixty of one or two digits. -/
def isSixtieth : List Char → Bool
  | [d] => d.isDigit
  | [t, d] => '0' ≤ t && t ≤ '5' && d.isDigit
  | _ => false

/-- An integer: binary, octal, decimal, hexadecimal, or to the base sixty. -/
def isInteger (s : String) : Bool :=
  match unsigned s.toList with
  | ['0'] => true
  | '0' :: 'b' :: cs => allOf (fun c => c == '0' || c == '1' || c == '_') cs
  | '0' :: 'x' :: cs => allOf (fun c => (Text.hexDigit? c).isSome || c == '_') cs
  | '0' :: cs => allOf (fun c => ('0' ≤ c && c ≤ '7') || c == '_') cs
  | d :: cs =>
    d.isDigit
      && (match colonParts cs with
          | first :: rest => first.all isLooseDigit && rest.all isSixtieth
          | [] => false)
  | [] => false

/-- Nothing, or an exponent with its sign. -/
def isExponent : List Char → Bool
  | [] => true
  | e :: sign :: ds =>
    (e == 'e' || e == 'E') && (sign == '-' || sign == '+') && allOf Char.isDigit ds
  | _ => false

/-- Loose digits, and perhaps an exponent. -/
def isFraction (cs : List Char) : Bool :=
  isExponent (cs.dropWhile isLooseDigit)

/-- A number with a point: decimal, to the base sixty, or a special one. -/
def isFloat (s : String) : Bool :=
  let cs := s.toList
  let body := unsigned cs
  if [".inf", ".Inf", ".INF"].contains (String.ofList body) then true
  else if [".nan", ".NaN", ".NAN"].contains s then true
  else
    match cs, body with
    | '.' :: d :: r, _ => d.isDigit && isFraction r
    | _, d :: r =>
      let whole := (d :: r).takeWhile (fun c => c != '.')
      let fraction := (d :: r).dropWhile (fun c => c != '.')
      d.isDigit
        && (match fraction with
            | '.' :: f =>
              match colonParts (whole.drop 1) with
              | [first] => first.all isLooseDigit && isFraction f
              | first :: rest =>
                first.all isLooseDigit && rest.all isSixtieth
                  && f.all isLooseDigit
              | [] => false
            | _ => false)
    | _, [] => false

/-! ## Times -/

/-- The pieces of a date, and of a time of day if there is one. -/
structure TimeFields where
  year : Nat
  month : Nat
  day : Nat
  time : Option (Nat × Nat × Nat) := none
  /-- The digits after the point. -/
  fraction : List Char := []
  /-- The time zone in minutes. -/
  zone : Option Int := none
  /-- Month and day have two digits each. -/
  isFull : Bool
  deriving DecidableEq, Repr

/-- A number of `least` to `most` digits, and the rest. -/
def digitsBetween (least most : Nat) (cs : List Char) :
    Option (Nat × List Char) :=
  let ds := (cs.take most).takeWhile Char.isDigit
  if least ≤ ds.length then
    some (ds.foldl (fun n c => 10 * n + (c.toNat - 0x30)) 0, cs.drop ds.length)
  else none

/-- A character that must come next. -/
def expect (c : Char) : List Char → Option (List Char)
  | d :: cs => if d = c then some cs else none
  | [] => none

/-- A space or a tab. -/
def isBlankChar (c : Char) : Bool := c == ' ' || c == '\t'

/-- A time zone: nothing, the letter, or hours and perhaps minutes. -/
def zone? (cs : List Char) : Option (Option Int) :=
  match cs.dropWhile isBlankChar with
  | [] => if cs.isEmpty then some none else none
  | ['Z'] => some (some 0)
  | sign :: r =>
    if sign = '+' ∨ sign = '-' then do
      let (hours, r) ← digitsBetween 1 2 r
      let minutes ←
        match r with
        | [] => some 0
        | ':' :: r => do
          let (m, r) ← digitsBetween 2 2 r
          if r.isEmpty then some m else none
        | _ => none
      let total : Int := hours * 60 + minutes
      some (some (if sign = '-' then -total else total))
    else none

/-- The time of day and what follows it. -/
def timeOfDay? (f : TimeFields) (cs : List Char) : Option TimeFields := do
  let (hour, cs) ← digitsBetween 1 2 cs
  let cs ← expect ':' cs
  let (minute, cs) ← digitsBetween 2 2 cs
  let cs ← expect ':' cs
  let (second, cs) ← digitsBetween 2 2 cs
  let (fraction, cs) :=
    match cs with
    | '.' :: r => (r.takeWhile Char.isDigit, r.dropWhile Char.isDigit)
    | _ => ([], cs)
  let zone ← zone? cs
  some { f with time := some (hour, minute, second), fraction, zone }

/-- A date, perhaps with a time of day after a letter or blanks. -/
def timeFields? (s : String) : Option TimeFields := do
  let (year, cs) ← digitsBetween 4 4 s.toList
  let cs ← expect '-' cs
  let (month, cs') ← digitsBetween 1 2 cs
  let monthWidth := cs.length - cs'.length
  let cs ← expect '-' cs'
  let (day, cs') ← digitsBetween 1 2 cs
  let dayWidth := cs.length - cs'.length
  let f : TimeFields :=
    { year, month, day, isFull := monthWidth == 2 && dayWidth == 2 }
  match cs' with
  | [] => some f
  | c :: r =>
    if c = 'T' ∨ c = 't' then timeOfDay? f r
    else if isBlankChar c then timeOfDay? f (r.dropWhile isBlankChar)
    else none

/-- The form of a time; a date alone is written in full. -/
def isTime (s : String) : Bool :=
  match timeFields? s with
  | some f => f.time.isSome || f.isFull
  | none => false

/-- The tag that the form of a text gives it. -/
def Tag.ofForm (s : String) : Tag :=
  if isBool s then .bool
  else if isFloat s then .float
  else if isInteger s then .int
  else if s = "<<" then .merge
  else if isNull s then .null
  else if isTime s then .timestamp
  else if s = "=" then .value
  else if ["!", "&", "*"].contains s then .other
  else .str

/-- The tag of a scalar whose tag is left to its form. -/
def Tag.ofPlain (s : String) : Tag :=
  if s = "" then .null else Tag.ofForm (withoutNewline s)

end JavaOutline.Yaml
