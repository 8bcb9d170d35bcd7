import JavaOutline.Declaration.Draft
import JavaOutline.Record.Doc

/-! # Declarations as JSON

    Writing declarations and their members, and checking data against them.
    A declaration carries its kind; data is checked against a given kind, or
    against the one that it names itself.  What counts as a line number is left
    to a coercion. -/

namespace JavaOutline

open Json

namespace EnumConstant

/-- A constant as JSON. -/
def toJson (c : EnumConstant) : Json :=
  .obj [("name", .str c.name), ("value", .str c.value)]

/-- Check data against a constant. -/
def ofJson : Json → Checked EnumConstant :=
  record "EnumField" fun ms =>
    EnumConstant.mk <$> required ms "name" text <*> required ms "value" text

end EnumConstant

namespace Field

/-- A field as JSON. -/
def toJson (f : Field) : Json :=
  .obj [("type", .str f.type), ("name", .str f.name),
    ("access", .str f.access),
    ("modifiers", Json.ofTexts f.modifiers),
    ("line", .int f.line), ("signature", .str f.signature)]

/-- Check data against a field. -/
def ofJson (c : Coercion) : Json → Checked Field :=
  record "Member" fun ms =>
    Field.mk <$> optional ms "type" "" text
      <*> optional ms "name" "" text
      <*> optional ms "access" "" text
      <*> optional ms "modifiers" [] (listOf text)
      <*> optional ms "line" 0 c.integer
      <*> optional ms "signature" "" text

end Field

namespace Method

/-- A method as JSON. -/
def toJson (m : Method) : Json :=
  .obj [("name", .str m.name), ("return_type", .str m.returnType),
    ("parameters", .arr (m.parameters.map Param.toJson)),
    ("access", .str m.access),
    ("modifiers", Json.ofTexts m.modifiers),
    ("exceptions", .arr (m.exceptions.map ExceptionDoc.toJson)),
    ("description", .str m.description),
    ("deprecated", .str m.deprecated),
    ("see", .str m.see),
    ("line", .int m.line), ("signature", .str m.signature)]

/-- Check data against a method. -/
def ofJson (c : Coercion) : Json → Checked Method :=
  record "Method" fun ms =>
    Method.mk <$> required ms "name" text
      <*> optional ms "return_type" "" text
      <*> optional ms "parameters" [] (listOf Param.ofJson)
      <*> optional ms "access" "" text
      <*> optional ms "modifiers" [] (listOf text)
      <*> optional ms "exceptions" [] (listOf ExceptionDoc.ofJson)
      <*> optional ms "description" "" text
      <*> optional ms "deprecated" "" text
      <*> optional ms "see" "" text
      <*> optional ms "line" 0 c.integer
      <*> optional ms "signature" "" text

end Method

/-- The members of a declaration that only its kind has. -/
def Shape.toMembers : Shape → Members
  | .classShape parent interfaces =>
    [("parent", .str parent), ("interfaces", Json.ofTexts interfaces)]
  | .interfaceShape parents => [("parents", Json.ofTexts parents)]
  | .enumShape interfaces constants =>
    [("interfaces", Json.ofTexts interfaces),
      ("fields", .arr (constants.map EnumConstant.toJson))]

/-- Check the members that only one kind has. -/
def Shape.ofMembers (kind : TypeKind) (ms : Members) : Checked Shape :=
  match kind with
  | .classKind =>
    Shape.classShape <$> optional ms "parent" "" text
      <*> optional ms "interfaces" [] (listOf text)
  | .interfaceKind =>
    Shape.interfaceShape <$> optional ms "parents" [] (listOf text)
  | .enumKind =>
    Shape.enumShape <$> optional ms "interfaces" [] (listOf text)
      <*> optional ms "fields" [] (listOf EnumConstant.ofJson)

/-- The name of the record for a kind. -/
def TypeKind.record : TypeKind → String
  | .classKind => "ClassDef"
  | .interfaceKind => "InterfaceDef"
  | .enumKind => "EnumDef"

/-- Check that a kind is the expected one. -/
def TypeKind.check (kind : TypeKind) : Json → Checked TypeKind
  | .str s => if s = kind.word then .ok kind else .fail (.wrongKind kind.word)
  | _ => .fail (.wrongKind kind.word)

namespace Declaration

/-- A declaration as JSON. -/
def toJson (d : Declaration) : Json :=
  .obj ([("name", .str d.name),
    ("package_name", .str d.packageName),
    ("dependencies", Json.ofTexts d.dependencies),
    ("access", .str d.access),
    ("modifiers", Json.ofTexts d.modifiers),
    ("license", .str d.license),
    ("variables", .arr (d.fields.map Field.toJson)),
    ("methods", .arr (d.methods.map Method.toJson)),
    ("signature", .str d.signature),
    ("author", .str d.author),
    ("version", .str d.version),
    ("description", .str d.description),
    ("deprecated", .str d.deprecated),
    ("see", .str d.see),
    ("kind", .str d.kind.word)] ++ d.shape.toMembers)

/-- Check the members of an object against a declaration of the given
    kind. -/
def ofMembers (c : Coercion) (kind : TypeKind) (ms : Members) :
    Checked Declaration :=
  (fun name packageName dependencies access modifiers license fields methods
      signature author version description deprecated see
      (_ : TypeKind) shape =>
    { name, packageName, dependencies, access, modifiers, license, fields,
      methods, signature, author, version, description, deprecated, see,
      shape : Declaration })
    <$> optional ms "name" "" text
    <*> optional ms "package_name" "" text
    <*> optional ms "dependencies" [] (listOf text)
    <*> optional ms "access" "" text
    <*> optional ms "modifiers" [] (listOf text)
    <*> optional ms "license" "" text
    <*> optional ms "variables" [] (listOf (Field.ofJson c))
    <*> optional ms "methods" [] (listOf (Method.ofJson c))
    <*> optional ms "signature" "" text
    <*> optional ms "author" "" text
    <*> optional ms "version" "" text
    <*> optional ms "description" "" text
    <*> optional ms "deprecated" "" text
    <*> optional ms "see" "" text
    <*> optional ms "kind" kind kind.check
    <*> Shape.ofMembers kind ms

/-- Check data against a declaration of the given kind. -/
def ofJson (c : Coercion) (kind : TypeKind) : Json → Checked Declaration :=
  record kind.record (ofMembers c kind)

/-- Check data against a declaration of the kind that it names. -/
def ofAnyJson (c : Coercion) : Json → Checked Declaration
  | .obj ms =>
    match ms.lookup "kind" with
    | none => .fail .noKind
    | some (.str s) =>
      match TypeKind.ofWord? s with
      | some kind => (ofMembers c kind ms).under (.field s)
      | none => .fail (.unknownKind s)
    | some v => .fail (.unknownKind v.plain)
  | _ => .fail .notDeclaration

end Declaration

end JavaOutline
