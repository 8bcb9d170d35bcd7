import JavaOutline.Record.Checked
import JavaOutline.Text.Blank

/-! # Integers in loose data

    A flag counts as zero or one, a number without a fraction as the integer
    it is, and a text as the integer it writes: a sign, digits with single
    underscores between them, and perhaps a fraction of one zero or more.
    After a minus sign no further zero may lead. -/

namespace JavaOutline

open Text

namespace Json

/-- The zeros that lead a numeral, with the underscores among them, taken
    off.  The character before a point stays, and so does the last one if
    nothing else follows. -/
def dropLeadingZeros : List Char → Option (List Char)
  | '0' :: cs =>
    let isLead (c : Char) : Bool := c == '0' || c == '_'
    let last := ((cs.takeWhile isLead).getLast?).getD '0'
    match cs.dropWhile isLead with
    | [] => some [last]
    | '.' :: r => some (last :: '.' :: r)
    | c :: r => if c.isDigit then some (c :: r) else none
  | c :: cs => if c.isDigit || c == '-' then some (c :: cs) else none
  | [] => none

/-- A numeral without a fraction of one zero or more.  A point with nothing
    after it is no fraction and stays. -/
def dropZeroFraction (cs : List Char) : List Char :=
  let fraction := (cs.dropWhile (fun c => c != '.')).drop 1
  if !fraction.isEmpty && fraction.all (fun c => c == '0') then
    cs.takeWhile (fun c => c != '.')
  else cs

/-- Whether two underscores stand side by side. -/
def doubleUnderscore : List Char → Bool
  | '_' :: '_' :: _ => true
  | _ :: cs => doubleUnderscore cs
  | [] => false

/-- A numeral without its underscores, where they part digits. -/
def dropUnderscores (cs : List Char) : List Char :=
  if cs.head? = some '_' ∨ cs.getLast? = some '_' ∨ doubleUnderscore cs then cs
  else cs.filter (fun c => c != '_')

/-- The most characters that the sign and the digits of a numeral may
    have. -/
def maxNumeralLength : Nat := 4300

/-- The number that digits write after `width` characters of sign; no zero may
    lead.  Too many digits are noticed before what follows them. -/
def digitsOf (width : Nat) (cs : List Char) : Checked Nat :=
  let run := cs.takeWhile Char.isDigit
  if cs = ['0'] then .ok 0
  else if run.isEmpty ∨ run.head? = some '0' then .fail .notNumeral
  else if maxNumeralLength < width + run.length then .fail .numeralTooLong
  else if run.length < cs.length then .fail .notNumeral
  else .ok (run.foldl (fun n c => 10 * n + (c.toNat - 0x30)) 0)

/-- The integer that a text writes. -/
def numeral (s : String) : Checked Int :=
  let body :=
    match trimNumeral s.toList with
    | '+' :: '-' :: _ => []
    | '+' :: cs => cs
    | cs => cs
  match (dropLeadingZeros body).map (dropUnderscores ∘ dropZeroFraction) with
  | none => .fail .notNumeral
  | some ('-' :: ds) => (fun n : Nat => -(n : Int)) <$> digitsOf 1 ds
  | some ds => (fun n : Nat => (n : Int)) <$> digitsOf 0 ds

/-- An integer. -/
def integer : Json → Checked Int
  | .int n => .ok n
  | .bool b => .ok (if b then 1 else 0)
  | .real (.finite negative b) =>
    match (Number.Real64.finite negative b).integer? with
    | some n => .ok n
    | none => .fail .fractional
  | .real _ => .fail .notFinite
  | .str s => numeral s
  | _ => .fail .notInteger

end Json

/-- The coercion that takes flags, numbers and numerals. -/
def Coercion.lenient : Coercion where
  integer := Json.integer
  integer_int _ := rfl

end JavaOutline
