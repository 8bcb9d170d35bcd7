import JavaOutline.Number.Shortest
import JavaOutline.Text.Quoted
import JavaOutline.Yaml.Numeral
import JavaOutline.Yaml.Time

/-! # Atoms

    The values that have no parts.  They serve as the keys of mappings, where
    numbers are the same key if they are equal, whatever their kind. -/

namespace JavaOutline.Yaml

open Text Number

/-- A value without parts. -/
inductive Atom where
  | null
  | bool (b : Bool)
  | int (n : Int)
  /-- A real number; `source` is the node that it was computed for, if any. -/
  | real (x : Real64) (source : Option Nat)
  | text (s : String)
  | bytes (bs : List UInt8)
  | time (t : Time)
  deriving DecidableEq, Repr

namespace Atom

/-- A number as a quotient, if it is finite. -/
def quotient? : Atom → Option (Int × Nat)
  | .bool b => some (if b then 1 else 0, 1)
  | .int n => some (n, 1)
  | .real (.finite negative b) _ => some (Real64.signedRatio negative b)
  | _ => none

/-- Whether an atom is a number. -/
def isNumber : Atom → Bool
  | .bool _ | .int _ | .real _ _ => true
  | _ => false

/-- Whether two numbers are in order: the first is not the greater one. -/
def numberLe (a b : Atom) : Bool :=
  match a, b with
  | .real .notANumber _, _ => true
  | _, .real .notANumber _ => true
  | .real (.infinite negative) _, _ =>
    negative || (b matches .real (.infinite false) _)
  | _, .real (.infinite negative) _ => !negative
  | _, _ =>
    match a.quotient?, b.quotient? with
    | some (n, d), some (m, e) => decide (n * e ≤ m * d)
    | _, _ => false

/-- Whether two atoms are the same key.  What is not a number is the same only
    as what comes from the same source. -/
def sameKey (a b : Atom) : Bool :=
  match a, b with
  | .null, .null => true
  | .text s, .text t => s == t
  | .bytes x, .bytes y => x == y
  | .time x, .time y => x.sort == y.sort && x.moment == y.moment
  | .real .notANumber s, .real .notANumber t => s == t
  | .real .notANumber _, _ => false
  | _, .real .notANumber _ => false
  | _, _ => a.isNumber && b.isNumber && numberLe a b && numberLe b a

/-- Whether two different keys can be put in order. -/
def comparable (a b : Atom) : Bool :=
  match a, b with
  | .text _, .text _ => true
  | .bytes _, .bytes _ => true
  | .time x, .time y => x.sort == y.sort
  | _, _ => a.isNumber && b.isNumber

/-- The order of keys that can be put in order: texts by code point, numbers
    by value. -/
def keyLe (a b : Atom) : Bool :=
  match a, b with
  | .text s, .text t => !decide (t.toList < s.toList)
  | .bytes x, .bytes y => !decide (y < x)
  | .time x, .time y => decide (x.moment ≤ y.moment)
  | _, _ => numberLe a b

/-- One byte inside quotes. -/
def escapedByte (quote : Char) (b : UInt8) : List Char :=
  if b.toNat < 0x7F then escaped quote (Char.ofNat b.toNat)
  else '\\' :: 'x' :: hexPadded 2 b.toNat

/-- The text of an integer, unless it has too many digits. -/
def integerText? (n : Int) : Option String :=
  if (Nat.toDigits 10 n.natAbs).length ≤ maxDigits then some (toString n)
  else none

/-- A key as a message gives it, unless it is too long to be written. -/
def keyText? : Atom → Option String
  | .null => some "None"
  | .bool b => some (if b then "True" else "False")
  | .int n => integerText? n
  | .real x _ => some x.text
  | .text s => some s
  | .bytes bs =>
    let q := quoteFor (bs.map fun b => Char.ofNat b.toNat)
    some (String.ofList ('b' :: q :: (bs.flatMap (escapedByte q) ++ [q])))
  | .time t => some t.text

end Atom

end JavaOutline.Yaml
