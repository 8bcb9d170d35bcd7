import JavaOutline.Number.Arithmetic
import JavaOutline.Text.Integer
import JavaOutline.Yaml.Tag

/-! # Numerals of YAML scalars

    What a text that is tagged as a number writes.  The tag may be given to any
    text, so more is read here than the forms of plain scalars allow: white
    space, digits of any script, and a second sign. -/

namespace JavaOutline.Yaml

open Text Number

/-- A value, or the fault that there is none. -/
def orFault {α : Type} (f : Fault) : Option α → Read α
  | some a => .ok a
  | none => .error f

/-! ## Integers -/

/-- The integer that places write to the base sixty. -/
def baseSixty (places : List Int) : Int :=
  places.foldl (fun n d => 60 * n + d) 0

/-- An integer without its first sign. -/
def integerBody (cs : List Char) : Read Int :=
  match cs with
  | [] => .error .emptyNumber
  | '0' :: 'b' :: ds => orFault .integerText (integerIn? 2 'b' ds)
  | '0' :: 'x' :: ds => orFault .integerText (integerIn? 16 'x' ds)
  | '0' :: _ => orFault .integerText (integerIn? 8 'o' cs)
  | _ =>
    if cs.contains ':' then
      orFault .integerText
        (((colonParts cs).mapM fun p => signed? (trimNumeral p)).map baseSixty)
    else orFault .integerText (signed? (trimNumeral cs))

/-- The integer that a text writes; underscores do not count. -/
def integerOf (s : String) : Read Int :=
  let cs := s.toList.filter (fun c => c != '_')
  match cs with
  | [] => .error .emptyNumber
  | '-' :: ds => (integerBody ds).map (fun n => -n)
  | _ => integerBody (unsigned cs)

/-! ## Real numbers -/

/-- The number that plain digits write. -/
def digitsValue (ds : List Char) : Nat :=
  ds.foldl (fun n c => 10 * n + (c.toNat - 0x30)) 0

/-- Nothing, or an exponent with at least one digit. -/
def exponent? : List Char → Option Int
  | [] => some 0
  | 'e' :: '-' :: ds =>
    if allOf Char.isDigit ds then some (-(digitsValue ds : Int)) else none
  | 'e' :: ds =>
    if allOf Char.isDigit (unsigned ds) then some (digitsValue (unsigned ds))
    else none
  | _ => none

/-- Plain digits with perhaps a point and an exponent. -/
def decimal? (negative : Bool) (cs : List Char) : Option Real64 :=
  let whole := cs.takeWhile Char.isDigit
  let r := cs.dropWhile Char.isDigit
  let (fraction, r) :=
    match r with
    | '.' :: r => (r.takeWhile Char.isDigit, r.dropWhile Char.isDigit)
    | _ => ([], r)
  if whole.isEmpty && fraction.isEmpty then none
  else
    (exponent? r).map fun power =>
      Real64.ofDecimal negative (digitsValue (whole ++ fraction))
        (power - fraction.length)

/-- A real number without its sign: digits, or the name of a special one. -/
def realBody? (negative : Bool) (cs : List Char) : Option Real64 :=
  if ["inf", "infinity"].contains (String.ofList cs) then some (.infinite negative)
  else if cs = ['n', 'a', 'n'] then some .notANumber
  else decimal? negative cs

/-- A real number in lower case, with white space around it and a sign. -/
def real? (cs : List Char) : Option Real64 :=
  match (trimNumeral cs).map plainDigit with
  | '-' :: ds => realBody? true ds
  | ds => realBody? false (unsigned ds)

/-- The real number that places write to the base sixty, the last place first.
    Each product and each sum is rounded. -/
def realSixty (sum : Real64) (weight : Nat) : List Real64 → Read Real64
  | [] => .ok sum
  | x :: xs =>
    match Real64.ofNat? weight with
    | some w => realSixty (sum.add (x.mul w)) (60 * weight) xs
    | none => .error .realRange

/-- A real number without its first sign, in lower case. -/
def realUnsigned (cs : List Char) : Read Real64 :=
  if cs = ['.', 'i', 'n', 'f'] then .ok (.infinite false)
  else if cs = ['.', 'n', 'a', 'n'] then .ok .notANumber
  else if cs.contains ':' then
    match (colonParts cs).mapM real? with
    | some places => realSixty (.finite false .zero) 1 places.reverse
    | none => .error .realText
  else orFault .realText (real? cs)

/-- The text of a real number as it is read: lower case, no underscores. -/
def realChars (s : String) : List Char :=
  (s.toList.filter (fun c => c != '_')).map Char.toLower

/-- The real number that a text writes. -/
def realOf (s : String) : Read Real64 :=
  match realChars s with
  | [] => .error .emptyNumber
  | '-' :: ds => (realUnsigned ds).map Real64.neg
  | cs => realUnsigned (unsigned cs)

/-- Whether a text is the plain name of what is not a number. -/
def namesNaN (s : String) : Bool :=
  unsigned (realChars s) == ['.', 'n', 'a', 'n']

/-! ## Truth values and bytes -/

/-- The truth value that a word names. -/
def boolOf (s : String) : Read Bool :=
  let word := s.map Char.toLower
  if ["yes", "true", "on"].contains word then .ok true
  else if ["no", "false", "off"].contains word then .ok false
  else .error .boolText

/-- The six bits that a character stands for. -/
def sixBits? (c : Char) : Option Nat :=
  if c.isUpper then some (c.toNat - 0x41)
  else if c.isLower then some (c.toNat - 0x61 + 26)
  else if c.isDigit then some (c.toNat - 0x30 + 52)
  else if c == '+' then some 62
  else if c == '/' then some 63
  else none

/-- Bytes written by characters of six bits, in groups of four; others do not
    count, and equals signs fill the last group.  `group` is the number of
    characters in the present group, `bits` what it holds, and `fills` the
    number of equals signs after it. -/
def sixBitBytes (group bits fills : Nat) : List Char → Read (List UInt8)
  | [] => if group = 0 then .ok [] else .error .malformed
  | c :: cs =>
    if c = '=' then
      if 2 ≤ group then
        if 4 ≤ group + fills + 1 then .ok []
        else sixBitBytes group bits (fills + 1) cs
      else sixBitBytes group bits fills cs
    else
      match sixBits? c with
      | none => sixBitBytes group bits fills cs
      | some v =>
        match group with
        | 0 => sixBitBytes 1 v 0 cs
        | 1 => do
          let rest ← sixBitBytes 2 (v % 16) 0 cs
          .ok (UInt8.ofNat (bits * 4 + v / 16) :: rest)
        | 2 => do
          let rest ← sixBitBytes 3 (v % 4) 0 cs
          .ok (UInt8.ofNat (bits * 16 + v / 4) :: rest)
        | _ => do
          let rest ← sixBitBytes 0 0 0 cs
          .ok (UInt8.ofNat (bits * 64 + v) :: rest)

/-- The bytes that a text writes, which holds only characters below 128. -/
def bytesOf (s : String) : Read (List UInt8) :=
  if s.toList.all (fun c => decide (c.toNat < 0x80)) then
    sixBitBytes 0 0 0 s.toList
  else .error .malformed

end JavaOutline.Yaml
