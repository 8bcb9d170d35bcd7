import JavaOutline.Number.Binary64

/-! # Shortest decimal text

    A number is written with the fewest digits that read back as the same
    number; among those of that length the nearest one is taken.  The text is
    positional when the point falls within sixteen digits after the first or
    three zeros before it, and uses an exponent otherwise. -/

namespace JavaOutline.Number

/-- The decimal `0.d₁d₂… * 10 ^ point`, its digits read as one number. -/
structure Digits where
  digits : Nat
  point : Int
  deriving DecidableEq, Repr

/-- The decimal `c * 10 ^ k`. -/
def Digits.of (c : Nat) (k : Int) : Digits :=
  ⟨c, k + (Nat.toDigits 10 c).length⟩

namespace Binary64

/-- Whether `c * 10 ^ k` is less than `b * 2 ^ e`. -/
def decimalLt (c : Nat) (k : Int) (b : Nat) (e : Int) : Bool :=
  decide (c * Nat.pow 10 k.toNat * Nat.pow 2 (-e).toNat
    < b * Nat.pow 2 e.toNat * Nat.pow 10 (-k).toNat)

/-- Whether `b * 2 ^ e` is less than `c * 10 ^ k`. -/
def binaryLt (c : Nat) (k : Int) (b : Nat) (e : Int) : Bool :=
  decide (b * Nat.pow 2 e.toNat * Nat.pow 10 (-k).toNat
    < c * Nat.pow 10 k.toNat * Nat.pow 2 (-e).toNat)

/-- Whether `c * 10 ^ k` reads back as `x`: it lies between the midpoints to
    the neighbours of `x`, which count when the mantissa is even.  Below a
    power of two the lower neighbour is half as far away. -/
def readsBack (x : Binary64) (c : Nat) (k : Int) : Bool :=
  let e := x.exponent - 2
  let low :=
    if x.mantissa = Nat.pow 2 (mantissaBits - 1) ∧ minExponent < x.exponent then
      4 * x.mantissa - 1
    else 4 * x.mantissa - 2
  let high := 4 * x.mantissa + 2
  if x.mantissa % 2 = 0 then !decimalLt c k low e && !binaryLt c k high e
  else binaryLt c k low e && decimalLt c k high e

/-- The number of zeros between the point and the first digit of `n / d`,
    a quotient below one.  At most `fuel` of them are counted. -/
def zerosAfterPoint (n d : Nat) : Nat → Nat
  | 0 => 0
  | fuel + 1 => if d ≤ 10 * n then 0 else 1 + zerosAfterPoint (10 * n) d fuel

/-- The position of the point relative to the first digit. -/
def pointOf (x : Binary64) : Int :=
  let (n, d) := x.ratio
  if d ≤ n then (Nat.toDigits 10 (n / d)).length
  else -(zerosAfterPoint n d 400 : Int)

/-- The decimal of `places` digits that reads back as `x` and is nearest to
    it, if one of its two neighbours on that grid does. -/
def onGrid? (x : Binary64) (point : Int) (places : Nat) : Option Digits :=
  let k := point - places
  let (n, d) := x.ratio
  let n' := n * Nat.pow 10 (-k).toNat
  let d' := d * Nat.pow 10 k.toNat
  let lo := n' / d'
  let r := n' % d'
  let upper := decide (d' < 2 * r) || (decide (2 * r = d') && lo % 2 == 1)
  let near := if upper then lo + 1 else lo
  let far := if upper then lo else lo + 1
  if x.readsBack near k then some (.of near k)
  else if x.readsBack far k then some (.of far k)
  else none

/-- Try grids of more and more digits. -/
def search (x : Binary64) (point : Int) (places : Nat) : Nat → Digits
  | 0 => ⟨x.mantissa, point⟩
  | fuel + 1 =>
    match x.onGrid? point places with
    | some ds => ds
    | none => search x point (places + 1) fuel

/-- The shortest decimal that reads back as `x`. -/
def shortest (x : Binary64) : Digits :=
  if x.mantissa = 0 then ⟨0, 1⟩ else x.search x.pointOf 1 17

end Binary64

/-- Digits without the zeros at their end; at least one digit stays. -/
def trimZeros (ds : List Char) : List Char :=
  match (ds.reverse.dropWhile (fun c => c == '0')).reverse with
  | [] => ['0']
  | cs => cs

/-- The text of an exponent: its sign and at least two digits. -/
def exponentText (e : Int) : List Char :=
  let ds := Nat.toDigits 10 e.natAbs
  (if e < 0 then '-' else '+') :: (List.replicate (2 - ds.length) '0' ++ ds)

/-- The text of a decimal. -/
def Digits.text (x : Digits) : List Char :=
  let all := Nat.toDigits 10 x.digits
  let ds := trimZeros all
  let n : Int := ds.length
  if -4 < x.point ∧ x.point ≤ 16 then
    if x.point ≤ 0 then
      '0' :: '.' :: (List.replicate (-x.point).toNat '0' ++ ds)
    else if n ≤ x.point then
      ds ++ List.replicate (x.point - n).toNat '0' ++ ['.', '0']
    else ds.take x.point.toNat ++ '.' :: ds.drop x.point.toNat
  else
    match ds with
    | [d] => d :: 'e' :: exponentText (x.point - 1)
    | d :: rest => d :: '.' :: (rest ++ 'e' :: exponentText (x.point - 1))
    | [] => []

/-- The text of a number. -/
def Real64.text : Real64 → String
  | .finite negative b =>
    String.ofList ((if negative then ['-'] else []) ++ b.shortest.text)
  | .infinite negative => if negative then "-inf" else "inf"
  | .notANumber => "nan"

end JavaOutline.Number
