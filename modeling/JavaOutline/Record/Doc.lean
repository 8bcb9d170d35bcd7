import JavaOutline.Doc.Basic
import JavaOutline.Record.Checked

/-! # Documentation records as JSON

    Writing the records of a doc comment, and checking data against them. -/

namespace JavaOutline

open Json

/-- A list of texts. -/
def Json.ofTexts (ss : List String) : Json := .arr (ss.map .str)

namespace Param

/-- A parameter as JSON. -/
def toJson (p : Param) : Json :=
  .obj [("type", .str p.type), ("name", .str p.name),
    ("description", .str p.description)]

/-- Check data against a parameter. -/
def ofJson : Json → Checked Param :=
  record "Param" fun ms =>
    Param.mk <$> optional ms "type" "" text
      <*> required ms "name" text
      <*> optional ms "description" "" text

end Param

namespace ExceptionDoc

/-- An exception as JSON. -/
def toJson (e : ExceptionDoc) : Json :=
  .obj [("type", .str e.type), ("description", .str e.description)]

/-- Check data against an exception. -/
def ofJson : Json → Checked ExceptionDoc :=
  record "ExceptionDoc" fun ms =>
    ExceptionDoc.mk <$> required ms "type" text
      <*> optional ms "description" "" text

end ExceptionDoc

namespace Doc

/-- A doc comment as JSON. -/
def toJson (d : Doc) : Json :=
  .obj [("description", .str d.description),
    ("params", .arr (d.params.map Param.toJson)),
    ("return_description", .str d.returns),
    ("author", .str d.author),
    ("version", .str d.version),
    ("exceptions", .arr (d.exceptions.map ExceptionDoc.toJson)),
    ("deprecated", .str d.deprecated),
    ("see", .str d.see)]

/-- Check data against a doc comment. -/
def ofJson : Json → Checked Doc :=
  record "Doc" fun ms =>
    Doc.mk <$> optional ms "description" "" text
      <*> optional ms "params" [] (listOf Param.ofJson)
      <*> optional ms "return_description" "" text
      <*> optional ms "author" "" text
      <*> optional ms "version" "" text
      <*> optional ms "exceptions" [] (listOf ExceptionDoc.ofJson)
      <*> optional ms "deprecated" "" text
      <*> optional ms "see" "" text

end Doc

end JavaOutline
