/-! # Errors

    A step that leaves the program, such as reading a file, ends in a value or
    in an error.  Whoever takes the step has clauses for the kinds of error
    that it makes provision for: the first clause that covers an error turns it
    into a failure that callers are promised to be told of.  An error that no
    clause covers escapes as it is. -/

namespace JavaOutline

/-- What sort of thing went wrong. -/
inductive ErrorKind where
  /-- The system refused. -/
  | system
  /-- There is no such file. -/
  | missing
  /-- A value that is out of place. -/
  | value
  /-- A text that cannot be encoded or decoded. -/
  | unicode
  /-- Bytes that cannot be decoded. -/
  | decoding
  /-- Something that is not to be found under its name. -/
  | lookup
  | index
  | key
  /-- A value of the wrong type. -/
  | type
  /-- A number that is too large. -/
  | overflow
  | recursion
  | attribute
  /-- A text that is no YAML. -/
  | yaml
  /-- Any other kind. -/
  | other
  deriving DecidableEq, Repr

/-- A kind and the more general kinds that it belongs to. -/
def ErrorKind.generals : ErrorKind → List ErrorKind
  | .missing => [.missing, .system]
  | .unicode => [.unicode, .value]
  | .decoding => [.decoding, .unicode, .value]
  | .index => [.index, .lookup]
  | .key => [.key, .lookup]
  | kind => [kind]

/-- An error and its wording. -/
structure Error where
  kind : ErrorKind
  message : String := ""
  deriving DecidableEq, Repr

/-- Whether an error is of a kind or of one that belongs to it. -/
def Error.isA (e : Error) (kind : ErrorKind) : Bool :=
  e.kind.generals.contains kind

/-- The provision made for the errors of some kinds: the failure that each of
    them becomes. -/
structure Clause (ρ : Type) where
  kinds : List ErrorKind
  failure : Error → ρ

/-- Whether a clause is for an error. -/
def Clause.covers {ρ : Type} (c : Clause ρ) (e : Error) : Bool :=
  c.kinds.any e.isA

/-- Why there is no value. -/
inductive Stop (ρ : Type) where
  /-- A failure that callers are promised to be told of. -/
  | promised (failure : ρ)
  /-- An error that no provision was made for. -/
  | escaped (error : Error)
  deriving DecidableEq, Repr

/-- What the first clause that covers an error makes of it. -/
def Error.under {ρ : Type} (clauses : List (Clause ρ)) (e : Error) : Stop ρ :=
  match clauses.find? (fun c => c.covers e) with
  | some c => .promised (c.failure e)
  | none => .escaped e

/-- The outcome of a step under clauses for its errors. -/
def attempt {ρ α : Type} (clauses : List (Clause ρ)) :
    Except Error α → Except (Stop ρ) α
  | .ok a => .ok a
  | .error e => .error (e.under clauses)

/-- Clauses are looked at one after another. -/
theorem Error.under_cons {ρ : Type} (c : Clause ρ) (clauses : List (Clause ρ)) (e : Error) :
    e.under (c :: clauses)
      = if c.covers e then .promised (c.failure e) else e.under clauses := by
  rw [under, List.find?_cons]
  cases c.covers e <;> rfl

/-- Clauses leave values alone. -/
theorem attempt_eq_ok {ρ α : Type} {clauses : List (Clause ρ)} {x : Except Error α}
    {a : α} : attempt clauses x = .ok a ↔ x = .ok a := by
  cases x with
  | ok b => rw [attempt, Except.ok.injEq, Except.ok.injEq]
  | error e =>
      constructor
      · intro h
        cases h
      · intro h
        cases h

/-- What escapes are the errors that no clause covers. -/
theorem Error.under_eq_escaped {ρ : Type} {clauses : List (Clause ρ)} {e f : Error} :
    f.under clauses = .escaped e ↔ f = e ∧ ∀ c ∈ clauses, ¬ c.covers e = true := by
  rw [← List.find?_eq_none, under]
  cases hc : clauses.find? (fun c => c.covers f) with
  | none =>
      constructor
      · rintro ⟨⟩
        exact ⟨rfl, hc⟩
      · rintro ⟨rfl, -⟩
        rfl
  | some c =>
      constructor
      · intro h
        cases h
      · rintro ⟨rfl, hnone⟩
        cases hc.symm.trans hnone

theorem attempt_eq_escaped {ρ α : Type} {clauses : List (Clause ρ)}
    {x : Except Error α} {e : Error} : attempt clauses x = .error (.escaped e)
      ↔ x = .error e ∧ ∀ c ∈ clauses, ¬ c.covers e = true := by
  cases x with
  | ok a =>
      constructor
      · intro h
        cases h
      · rintro ⟨⟨⟩, -⟩
  | error f => rw [attempt, Except.error.injEq, Except.error.injEq, Error.under_eq_escaped]

/-- The value that a step may lack, for want of which it raises an error. -/
def orRaise {α : Type} (e : Error) : Option α → Except Error α
  | some a => .ok a
  | none => .error e

end JavaOutline
