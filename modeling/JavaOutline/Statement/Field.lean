import JavaOutline.Declaration.Basic
import JavaOutline.Report

/-! # Fields

    The first word of a field declaration is its type, the second its name.
    All from an equals sign on is an initializer and is left out.  Spaces
    inside type arguments do not part words. -/

namespace JavaOutline

open Text

/-- The words of a text, parted at the spaces outside type arguments.
    `depth` counts the open angle brackets and `word` is the word so far, its
    last character first. -/
def argumentWords (depth : Nat) (word : List Char) :
    List Char → List String
  | [] => if word.isEmpty then [] else [String.ofList word.reverse]
  | c :: cs =>
    if c = ' ' ∧ depth = 0 then
      if word.isEmpty then argumentWords depth [] cs
      else String.ofList word.reverse :: argumentWords depth [] cs
    else if c = '<' then argumentWords (depth + 1) (c :: word) cs
    else if c = '>' then argumentWords (depth - 1) (c :: word) cs
    else argumentWords depth (c :: word) cs

/-- The words of a text, type arguments kept together. -/
def splitWords (s : String) : List String :=
  argumentWords 0 [] s.toList

/-- The words of a field declaration up to its initializer. -/
def declaratorWords : List String → List String
  | [] => []
  | w :: ws =>
    if holds '=' w then
      let head := before '=' w
      if head = "" then [] else [head]
    else w :: declaratorWords ws

/-- How far a field declaration has been read. -/
structure FieldReading where
  access : String := ""
  modifiers : List String := []
  words : List String := []
  deriving DecidableEq, Repr

/-- Read one part. -/
def FieldReading.step (r : FieldReading) (p : Part) : Logged FieldReading :=
  match p.kind with
  | .access => pure { r with access := p.text }
  | .modifier => pure { r with modifiers := r.modifiers ++ [p.text] }
  | .typeName | .identifier =>
    pure { r with words := r.words ++ splitWords p.text }
  | _ => do
    Logged.report (.fieldPart p)
    pure r

/-- The field that a statement declares, if it has a type and a name. -/
def Field.ofParts? (ps : List Part) (line : Int) (signature : String) :
    Logged (Option Field) := do
  let r ← Logged.fold FieldReading.step {} ps
  match declaratorWords r.words with
  | type :: name :: _ =>
    pure (some { type, name, access := r.access, modifiers := r.modifiers,
                 line, signature })
  | _ =>
    Logged.report (.fieldIncomplete line signature)
    pure none

end JavaOutline
