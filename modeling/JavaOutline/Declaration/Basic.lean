import JavaOutline.Doc.Basic

/-! # Declarations

    The outline of one source file: the type it declares, with its fields,
    its methods and what its doc comment says. -/

namespace JavaOutline

/-- A field of a type. -/
structure Field where
  type : String := ""
  name : String := ""
  access : String := ""
  modifiers : List String := []
  line : Int := 0
  signature : String := ""
  deriving DecidableEq, Repr

/-- A method or a constructor of a type. -/
structure Method where
  name : String
  returnType : String := ""
  parameters : List Param := []
  access : String := ""
  modifiers : List String := []
  exceptions : List ExceptionDoc := []
  description : String := ""
  deprecated : String := ""
  see : String := ""
  line : Int := 0
  signature : String := ""
  deriving DecidableEq, Repr

/-- A constant of an enumeration and its number. -/
structure EnumConstant where
  name : String
  value : String
  deriving DecidableEq, Repr

/-- The kinds of type that a file can declare. -/
inductive TypeKind where
  | classKind
  | interfaceKind
  | enumKind
  deriving DecidableEq, Repr

namespace TypeKind

/-- The keyword of a kind. -/
def word : TypeKind → String
  | .classKind => "class"
  | .interfaceKind => "interface"
  | .enumKind => "enum"

/-- The kind that a keyword begins. -/
def ofWord? (w : String) : Option TypeKind :=
  if w = "class" then some .classKind
  else if w = "interface" then some .interfaceKind
  else if w = "enum" then some .enumKind
  else none

/-- A keyword begins its own kind. -/
theorem ofWord?_word (k : TypeKind) : ofWord? k.word = some k := by
  cases k <;> rfl

end TypeKind

/-- What only one kind of type has. -/
inductive Shape where
  | classShape (parent : String) (interfaces : List String)
  | interfaceShape (parents : List String)
  | enumShape (interfaces : List String) (constants : List EnumConstant)
  deriving DecidableEq, Repr

/-- The kind that a shape belongs to. -/
def Shape.kind : Shape → TypeKind
  | .classShape .. => .classKind
  | .interfaceShape .. => .interfaceKind
  | .enumShape .. => .enumKind

/-- The outline of one source file. -/
structure Declaration where
  name : String := ""
  packageName : String := ""
  dependencies : List String := []
  access : String := ""
  modifiers : List String := []
  license : String := ""
  fields : List Field := []
  methods : List Method := []
  signature : String := ""
  author : String := ""
  version : String := ""
  description : String := ""
  deprecated : String := ""
  see : String := ""
  shape : Shape := .classShape "" []
  deriving DecidableEq, Repr

/-- The kind of type that a file declares. -/
def Declaration.kind (d : Declaration) : TypeKind := d.shape.kind

end JavaOutline
