import JavaOutline.Text.Blank

/-! # Integers as text

    An integer may stand between white space, carries at most one sign,
    and is written with the decimal digits of any script, a single underscore
    being allowed between two digits.  More digits than `maxDigits` are
    refused. -/

namespace JavaOutline.Text

/-- The zeros of the decimal digit series; each is followed by its nine
    successors. -/
def decimalZeros : List Nat :=
  [0x30, 0x660, 0x6F0, 0x7C0, 0x966, 0x9E6, 0xA66, 0xAE6, 0xB66, 0xBE6, 0xC66,
   0xCE6, 0xD66, 0xDE6, 0xE50, 0xED0, 0xF20, 0x1040, 0x1090, 0x17E0, 0x1810,
   0x1946, 0x19D0, 0x1A80, 0x1A90, 0x1B50, 0x1BB0, 0x1C40, 0x1C50, 0xA620,
   0xA8D0, 0xA900, 0xA9D0, 0xA9F0, 0xAA50, 0xABF0, 0xFF10, 0x104A0, 0x10D30,
   0x11066, 0x110F0, 0x11136, 0x111D0, 0x112F0, 0x11450, 0x114D0, 0x11650,
   0x116C0, 0x11730, 0x118E0, 0x11950, 0x11C50, 0x11D50, 0x11DA0, 0x16A60,
   0x16AC0, 0x16B50, 0x1D7CE, 0x1D7D8, 0x1D7E2, 0x1D7EC, 0x1D7F6, 0x1E140,
   0x1E2F0, 0x1E950, 0x1FBF0]

/-- The value of a decimal digit of any script. -/
def digitValue? (c : Char) : Option Nat :=
  let n := c.toNat
  if n < 0x80 then
    if c.isDigit then some (n - 0x30) else none
  else
    (decimalZeros.find? (fun z => decide (z ≤ n ∧ n < z + 10))).map (n - ·)

/-- The most digits an integer text may have. -/
def maxDigits : Nat := 4300

/-- The digit values of a digit run, underscores dropped.  `afterDigit` says
    whether a digit stands directly before, which is what an underscore and
    the end need. -/
def digitRun (afterDigit : Bool) : List Char → Option (List Nat)
  | [] => if afterDigit then some [] else none
  | c :: cs =>
    if c = '_' then
      if afterDigit then digitRun false cs else none
    else
      match digitValue? c with
      | some d => (digitRun true cs).map (d :: ·)
      | none => none

/-- The number that a list of decimal digits writes, most significant
    first. -/
def ofDigits (ds : List Nat) : Nat :=
  ds.foldl (fun n d => 10 * n + d) 0

/-- A number without a sign. -/
def natural? (cs : List Char) : Option Nat :=
  match digitRun false cs with
  | some ds => if ds.length ≤ maxDigits then some (ofDigits ds) else none
  | none => none

/-- A number with an optional sign in front. -/
def signed? : List Char → Option Int
  | '-' :: cs => (natural? cs).map (fun n => -(n : Int))
  | '+' :: cs => (natural? cs).map (fun n => (n : Int))
  | cs => (natural? cs).map (fun n => (n : Int))

/-- Read an integer text. -/
def integer? (s : String) : Option Int :=
  signed? (trimNumeral s.toList)

/-! ## Other bases -/

/-- The base-ten digit of the same value, for a decimal digit of any script. -/
def plainDigit (c : Char) : Char :=
  match digitValue? c with
  | some d => Char.ofNat (0x30 + d)
  | none => c

/-- The value of a digit up to fifteen. -/
def hexDigit? (c : Char) : Option Nat :=
  if c.isDigit then some (c.toNat - 0x30)
  else if 'a' ≤ c ∧ c ≤ 'f' then some (c.toNat - 0x61 + 10)
  else if 'A' ≤ c ∧ c ≤ 'F' then some (c.toNat - 0x41 + 10)
  else none

/-- The number that at least one digit writes to a base up to sixteen. -/
def naturalIn? (base : Nat) (cs : List Char) : Option Nat :=
  if cs.isEmpty then none
  else
    cs.foldl
      (fun n? c => n?.bind fun n => (hexDigit? c).bind fun d =>
        if d < base then some (base * n + d) else none)
      (some 0)

/-- A number without the zero and the letter that announce its base. -/
def withoutBaseMark (letter : Char) : List Char → List Char
  | '0' :: c :: cs => if c.toLower = letter then cs else '0' :: c :: cs
  | cs => cs

/-- An integer to a base whose mark has the given letter: white space around
    it, at most one sign, perhaps the mark, and digits of any script. -/
def integerIn? (base : Nat) (letter : Char) (cs : List Char) : Option Int :=
  match (trimNumeral cs).map plainDigit with
  | '-' :: ds => (naturalIn? base (withoutBaseMark letter ds)).map (fun n => -(n : Int))
  | '+' :: ds => (naturalIn? base (withoutBaseMark letter ds)).map (fun n => (n : Int))
  | ds => (naturalIn? base (withoutBaseMark letter ds)).map (fun n => (n : Int))

end JavaOutline.Text
