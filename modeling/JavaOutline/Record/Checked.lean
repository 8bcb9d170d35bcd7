import JavaOutline.Json

/-! # Checking loose data

    Data is checked against a record field by field, and all that is wrong
    with it is collected, in the order of the fields and depth first.  Each
    issue carries the path of field names and list positions that leads to
    it. -/

namespace JavaOutline

open Text

/-- A step of the path to a value. -/
inductive PathStep where
  | field (name : String)
  | index (n : Nat)
  deriving DecidableEq, Repr

/-- What is wrong with a value. -/
inductive Fault where
  | missing
  | notText
  | notList
  /-- A number with a fraction, where an integer is due. -/
  | fractional
  /-- A number that is not finite, where an integer is due. -/
  | notFinite
  /-- A text that writes no integer. -/
  | notNumeral
  /-- A text that writes an integer with too many digits. -/
  | numeralTooLong
  | notInteger
  /-- No object, where the named record is due. -/
  | notRecord (record : String)
  /-- Another kind than the one that the record is for. -/
  | wrongKind (expected : String)
  /-- No object, where a declaration of any kind is due. -/
  | notDeclaration
  | noKind
  | unknownKind (kind : String)
  /-- An attempt to change a record. -/
  | frozen
  deriving DecidableEq, Repr

namespace Fault

/-- The short name of a fault. -/
def code : Fault → String
  | missing => "missing"
  | notText => "string_type"
  | notList => "list_type"
  | fractional => "int_from_float"
  | notFinite => "finite_number"
  | notNumeral => "int_parsing"
  | numeralTooLong => "int_parsing_size"
  | notInteger => "int_type"
  | notRecord _ => "model_type"
  | wrongKind _ => "literal_error"
  | notDeclaration => "model_attributes_type"
  | noKind => "union_tag_not_found"
  | unknownKind _ => "union_tag_invalid"
  | frozen => "frozen_instance"

/-- The wording of a fault. -/
def message : Fault → String
  | missing => "Field required"
  | notText => "Input should be a valid string"
  | notList => "Input should be a valid list"
  | fractional =>
    "Input should be a valid integer, got a number with a fractional part"
  | notFinite => "Input should be a finite number"
  | notNumeral =>
    "Input should be a valid integer, unable to parse string as an integer"
  | numeralTooLong =>
    "Unable to parse input string as an integer, exceeded maximum size"
  | notInteger => "Input should be a valid integer"
  | notRecord record =>
    "Input should be a valid dictionary or instance of " ++ record
  | wrongKind expected => "Input should be '" ++ expected ++ "'"
  | notDeclaration =>
    "Input should be a valid dictionary or object to extract fields from"
  | noKind => "Unable to extract tag using discriminator 'kind'"
  | unknownKind kind =>
    "Input tag '" ++ kind ++ "' found using 'kind' does not match any of the "
      ++ "expected tags: 'class', 'interface', 'enum'"
  | frozen => "Instance is frozen"

end Fault

/-- A fault and the path to it. -/
structure Issue where
  fault : Fault
  path : List PathStep := []
  deriving DecidableEq, Repr

/-- The outcome of a check: a value, or all that is wrong. -/
inductive Checked (α : Type) where
  | ok (value : α)
  | failed (issues : List Issue)
  deriving Repr

namespace Checked

variable {α β : Type}

/-- Both outcomes together; the issues of the first come first. -/
def apply : Checked (α → β) → Checked α → Checked β
  | .ok f, .ok a => .ok (f a)
  | .ok _, .failed is => .failed is
  | .failed is, .ok _ => .failed is
  | .failed is, .failed js => .failed (is ++ js)

instance : Applicative Checked where
  pure := .ok
  seq f x := apply f (x ())

/-- A single fault. -/
def fail (f : Fault) : Checked α := .failed [⟨f, []⟩]

/-- The outcome for a value that stands at a step of a path. -/
def under (s : PathStep) : Checked α → Checked α
  | .ok a => .ok a
  | .failed is => .failed (is.map fun i => { i with path := s :: i.path })

/-- Check every item of a list, the first of which has position `n`. -/
def each (check : Json → Checked α) (n : Nat) : List Json → Checked (List α)
  | [] => .ok []
  | x :: xs =>
    apply (apply (.ok List.cons) ((check x).under (.index n)))
      (each check (n + 1) xs)

/-- An attempt to change a field of a record that has been checked.  Records
    stay as they are. -/
def assign (name : String) : Checked α → Checked α
  | .ok _ => .failed [⟨.frozen, [.field name]⟩]
  | .failed is => .failed is

end Checked

namespace Json

variable {α : Type}

/-- The members of an object. -/
abbrev Members := List (String × Json)

/-- A field that may be left out. -/
def optional (ms : Members) (name : String) (default : α)
    (check : Json → Checked α) : Checked α :=
  match ms.lookup name with
  | some v => (check v).under (.field name)
  | none => .ok default

/-- A field that must be there. -/
def required (ms : Members) (name : String) (check : Json → Checked α) :
    Checked α :=
  match ms.lookup name with
  | some v => (check v).under (.field name)
  | none => .failed [⟨.missing, [.field name]⟩]

/-- A text. -/
def text : Json → Checked String
  | .str s => .ok s
  | _ => .fail .notText

/-- A list of values that pass a check. -/
def listOf (check : Json → Checked α) : Json → Checked (List α)
  | .arr xs => Checked.each check 0 xs
  | _ => .fail .notList

/-- An object that is read as the named record. -/
def record (name : String) (read : Members → Checked α) : Json → Checked α
  | .obj ms => read ms
  | _ => .fail (.notRecord name)

end Json

/-- A way to read data as integers, by which an integer is read as itself. -/
structure Coercion where
  integer : Json → Checked Int
  integer_int : ∀ n, integer (.int n) = .ok n

attribute [simp] Coercion.integer_int

end JavaOutline
