import JavaOutline.Declaration.Basic
import JavaOutline.Report

/-! # Methods

    The first type of a method is its return type and the identifier after
    it is its name; later pairs of type and identifier are parameters.  An
    identifier before any type is the name of a constructor.  What the doc
    comment says about the return value replaces the return type, and its
    parameters and exceptions are matched by name. -/

namespace JavaOutline

open Text

/-- What the next identifier of a method stands for. -/
inductive MethodSlot where
  | free
  | name
  | param
  | exception
  deriving DecidableEq, Repr

/-- How far a method has been read. -/
structure MethodReading where
  slot : MethodSlot := .free
  name : String := ""
  returnType : String := ""
  isConstructor : Bool := false
  paramType : String := ""
  access : String := ""
  modifiers : List String := []
  params : List Param := []
  thrown : List String := []
  deriving DecidableEq, Repr

namespace MethodReading

/-- Read an identifier. -/
def identifier (r : MethodReading) (w : String) : Logged MethodReading :=
  match r.slot with
  | .exception => pure { r with thrown := r.thrown ++ [w] }
  | .name => pure { r with name := w, slot := .free }
  | .param =>
    pure { r with params := r.params ++ [{ type := r.paramType, name := w }],
                  paramType := "", slot := .free }
  | .free =>
    if r.name = "" ∧ r.returnType = "" then
      pure { r with returnType := w, isConstructor := true }
    else do
      Logged.report (.methodIdentifier w)
      pure r

/-- Read a type. -/
def typeName (r : MethodReading) (w : String) : Logged MethodReading :=
  if r.slot = .exception then do
    Logged.report (.methodThrowsType w)
    pure r
  else if r.returnType = "" then
    pure { r with returnType := w, slot := .name }
  else pure { r with paramType := w, slot := .param }

/-- Read one part. -/
def step (r : MethodReading) (p : Part) : Logged MethodReading :=
  match p.kind with
  | .identifier => r.identifier p.text
  | .typeName => r.typeName p.text
  | .access => pure { r with access := p.text }
  | .modifier => pure { r with modifiers := r.modifiers ++ [p.text] }
  | .throwing => pure { r with slot := .exception }
  | _ => do
    Logged.report (.methodPart p)
    pure r

/-- The name of the method: the one that was read, the name of a
    constructor, or the lone word before the closing parenthesis. -/
def finalName (r : MethodReading) (pendingName : String) : String :=
  if r.name ≠ "" then r.name
  else if r.isConstructor then r.returnType
  else pendingName

end MethodReading

/-- The description of a documented parameter, the first of that name
    counting. -/
def paramDescription (documented : List Param) (name : String) : String :=
  ((documented.find? (fun p => p.name == name)).map Param.description).getD ""

/-- Declared parameters with their documented descriptions. -/
def matchParams (declared documented : List Param) : List Param :=
  declared.map fun p =>
    { type := p.type, name := p.name,
      description := paramDescription documented p.name }

/-- The description of a documented exception, the first of that type
    counting. -/
def exceptionDescription (documented : List ExceptionDoc) (type : String) :
    String :=
  ((documented.find? (fun e => e.type == type)).map
    ExceptionDoc.description).getD ""

/-- Thrown exceptions with their documented descriptions. -/
def matchExceptions (thrown : List String) (documented : List ExceptionDoc) :
    List ExceptionDoc :=
  thrown.map fun t =>
    { type := t, description := exceptionDescription documented t }

/-- The method that a statement declares, if it has a name. -/
def Method.ofParts? (ps : List Part) (doc : Doc) (line : Int)
    (signature pendingName : String) : Logged (Option Method) := do
  let r ← Logged.fold MethodReading.step {} ps
  let name := r.finalName pendingName
  if name = "" ∧ ¬ r.isConstructor then
    Logged.report (.methodUnnamed line signature)
    pure none
  else
    pure (some {
      name
      returnType := if doc.returns ≠ "" then doc.returns else r.returnType
      parameters := matchParams r.params doc.params
      access := r.access
      modifiers := r.modifiers
      exceptions := matchExceptions r.thrown doc.exceptions
      description := doc.description
      deprecated := doc.deprecated
      see := doc.see
      line
      signature })

end JavaOutline
