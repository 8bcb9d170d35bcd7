/-! # Numbers of the 64-bit binary format

    A decimal text that has a fraction or an exponent stands for the nearest
    number with a mantissa of 53 bits and a bounded power of two.  Everything
    is computed on natural numbers; between two equally near numbers the one
    with the even mantissa is taken. -/

namespace JavaOutline.Number

/-- The number `mantissa * 2 ^ exponent`. -/
structure Binary64 where
  mantissa : Nat
  exponent : Int
  deriving DecidableEq, Repr

namespace Binary64

/-- The least exponent. -/
def minExponent : Int := -1074

/-- The greatest exponent. -/
def maxExponent : Int := 971

/-- The number of bits in a full mantissa. -/
def mantissaBits : Nat := 53

/-- Zero. -/
def zero : Binary64 := ⟨0, minExponent⟩

/-- The quotient `n / d`, rounded to the nearest natural number, a half to
    the even neighbour. -/
def roundDiv (n d : Nat) : Nat :=
  let q := n / d
  let r := n % d
  if 2 * r < d then q
  else if d < 2 * r then q + 1
  else if q % 2 = 0 then q
  else q + 1

/-- The quotient `n / d` divided by `2 ^ e`, as a quotient. -/
def scaleDown (n d : Nat) (e : Int) : Nat × Nat :=
  if 0 ≤ e then (n, d * Nat.pow 2 e.toNat) else (n * Nat.pow 2 (-e).toNat, d)

/-- The quotient rounded to a mantissa for the exponent `e`. -/
def roundAt (n d : Nat) (e : Int) : Binary64 :=
  let (n', d') := scaleDown n d e
  let m := roundDiv n' d'
  if m = Nat.pow 2 mantissaBits then ⟨Nat.pow 2 (mantissaBits - 1), e + 1⟩
  else ⟨m, e⟩

/-- The exponent at which the quotient `n / d` has a full mantissa, or the
    least exponent for very small quotients. -/
def exponentFor (n d : Nat) : Int :=
  let e := max minExponent ((n.log2 : Int) - d.log2 - mantissaBits)
  let (n', d') := scaleDown n d e
  if Nat.pow 2 mantissaBits ≤ n' / d' then e + 1 else e

/-- The number nearest to the quotient `n / d`, unless it is too great. -/
def nearest? (n d : Nat) : Option Binary64 :=
  if n = 0 then some zero
  else
    let b := roundAt n d (exponentFor n d)
    if maxExponent < b.exponent then none else some b

/-- The number nearest to `n * 10 ^ e`, unless it is too great.  Powers far
    outside the range of the format are settled without computing them. -/
def ofDecimal? (n : Nat) (e : Int) : Option Binary64 :=
  let places : Int := e + (Nat.toDigits 10 n).length
  if n = 0 ∨ places < -330 then some zero
  else if 310 < places then none
  else if 0 ≤ e then nearest? (n * Nat.pow 10 e.toNat) 1
  else nearest? n (Nat.pow 10 (-e).toNat)

/-- The number as a quotient of natural numbers. -/
def ratio (b : Binary64) : Nat × Nat :=
  if 0 ≤ b.exponent then (b.mantissa * Nat.pow 2 b.exponent.toNat, 1)
  else (b.mantissa, Nat.pow 2 (-b.exponent).toNat)

/-- The natural number that a number without a fraction is. -/
def whole? (b : Binary64) : Option Nat :=
  let (n, d) := b.ratio
  if n % d = 0 then some (n / d) else none

end Binary64

/-- A number of the format with its sign, or one of its special values. -/
inductive Real64 where
  | finite (negative : Bool) (magnitude : Binary64)
  | infinite (negative : Bool)
  | notANumber
  deriving DecidableEq, Repr

/-- The number nearest to `± n * 10 ^ e`. -/
def Real64.ofDecimal (negative : Bool) (n : Nat) (e : Int) : Real64 :=
  match Binary64.ofDecimal? n e with
  | some b => .finite negative b
  | none => .infinite negative

/-- The integer that a number without a fraction is. -/
def Real64.integer? : Real64 → Option Int
  | .finite negative b =>
    b.whole?.map (fun n => if negative then -(n : Int) else n)
  | _ => none

end JavaOutline.Number
