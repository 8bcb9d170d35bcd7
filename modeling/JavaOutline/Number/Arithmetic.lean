import JavaOutline.Number.Binary64

/-! # Arithmetic of the 64-bit binary format

    A sum or a product is the number nearest to the exact one.  What is too
    great is infinite, and what has no value is not a number. -/

namespace JavaOutline.Number.Real64

/-- The number nearest to `± n / d`. -/
def ofRatio (negative : Bool) (n d : Nat) : Real64 :=
  match Binary64.nearest? n d with
  | some b => .finite negative b
  | none => .infinite negative

/-- The number with the other sign. -/
def neg : Real64 → Real64
  | .finite negative b => .finite (!negative) b
  | .infinite negative => .infinite (!negative)
  | .notANumber => .notANumber

/-- The signed numerator and the denominator of a finite number. -/
def signedRatio (negative : Bool) (b : Binary64) : Int × Nat :=
  let (n, d) := b.ratio
  (if negative then -(n : Int) else n, d)

/-- The sum of two numbers.  A sum of zero is negative only if both numbers
    are. -/
def add : Real64 → Real64 → Real64
  | .notANumber, _ => .notANumber
  | _, .notANumber => .notANumber
  | .infinite s, .infinite t => if s = t then .infinite s else .notANumber
  | .infinite s, _ => .infinite s
  | _, .infinite t => .infinite t
  | .finite s a, .finite t b =>
    let (n, d) := signedRatio s a
    let (m, e) := signedRatio t b
    let sum := n * e + m * d
    if sum = 0 then .finite (s && t) .zero
    else ofRatio (decide (sum < 0)) sum.natAbs (d * e)

/-- The product of two numbers. -/
def mul : Real64 → Real64 → Real64
  | .notANumber, _ => .notANumber
  | _, .notANumber => .notANumber
  | .infinite s, .infinite t => .infinite (s != t)
  | .infinite s, .finite t b =>
    if b.mantissa = 0 then .notANumber else .infinite (s != t)
  | .finite s a, .infinite t =>
    if a.mantissa = 0 then .notANumber else .infinite (s != t)
  | .finite s a, .finite t b =>
    let (n, d) := a.ratio
    let (m, e) := b.ratio
    ofRatio (s != t) (n * m) (d * e)

/-- The number nearest to a natural number, unless it is too great. -/
def ofNat? (n : Nat) : Option Real64 :=
  (Binary64.nearest? n 1).map (.finite false)

end JavaOutline.Number.Real64
