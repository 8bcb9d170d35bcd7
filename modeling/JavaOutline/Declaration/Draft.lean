import JavaOutline.Declaration.Basic
import JavaOutline.Report

/-! # Drafts

    A draft collects the parts of a declaration while a file is read, and is
    turned into a declaration at the end.  A file that declares no type is
    outlined as a class without a name. -/

namespace JavaOutline

open Text

/-- A declaration under construction. -/
structure Draft where
  kind : Option TypeKind := none
  name : String := ""
  packageName : String := ""
  parents : List String := []
  interfaces : List String := []
  dependencies : List String := []
  access : String := ""
  modifiers : List String := []
  license : String := ""
  fields : List Field := []
  methods : List Method := []
  constants : List EnumConstant := []
  signature : String := ""
  author : String := ""
  version : String := ""
  description : String := ""
  deprecated : String := ""
  see : String := ""
  deriving DecidableEq, Repr

namespace Draft

/-- The declaration of the given shape. -/
def withShape (d : Draft) (shape : Shape) : Declaration where
  name := d.name
  packageName := d.packageName
  dependencies := d.dependencies
  access := d.access
  modifiers := d.modifiers
  license := d.license
  fields := d.fields
  methods := d.methods
  signature := d.signature
  author := d.author
  version := d.version
  description := d.description
  deprecated := d.deprecated
  see := d.see
  shape

/-- The class that a draft describes; only the first parent counts. -/
def toClass (d : Draft) : Logged Declaration := do
  if 1 < d.parents.length then
    Logged.report (.extraParents (d.parents.drop 1))
  pure (d.withShape (.classShape (d.parents.headD "") d.interfaces))

/-- The reports about a file that declares no type. -/
def reportNoType (d : Draft) : Logged Unit := do
  Logged.report .noType
  if d.fields ≠ [] ∨ d.methods ≠ [] then
    Logged.report (.looseMembers d.fields.length d.methods.length)
  if d.constants ≠ [] then
    Logged.report (.looseConstants d.constants.length)

/-- The finished declaration. -/
def finish (d : Draft) : Logged Declaration :=
  match d.kind with
  | some .classKind => d.toClass
  | some .interfaceKind => pure (d.withShape (.interfaceShape d.parents))
  | some .enumKind =>
    pure (d.withShape (.enumShape d.interfaces d.constants))
  | none => do
    d.reportNoType
    d.toClass

end Draft

end JavaOutline
