import JavaOutline.Statement.Part

/-! # Reports

    Reading is lenient: what is not supported is reported and passed over.
    Each report is an `Event`; the stage it comes from, its level and its
    wording are functions of it.  `Logged` is a value together with the events
    on the way to it, in order. -/

namespace JavaOutline

open Text

/-- How much a report matters. -/
inductive Level where
  | debug
  | warning
  deriving DecidableEq, Repr

/-- The stage of reading that a report comes from. -/
inductive Origin where
  | comment
  | statement
  | draft
  | walk
  | file
  deriving DecidableEq, Repr

/-- A report. -/
inductive Event where
  /-- A tag in a doc comment that has no section. -/
  | unknownTag (tag : String)
  /-- A name after `throws` in a type header. -/
  | headerThrows (name : String)
  /-- A part that has no place in a type header. -/
  | headerPart (part : Part)
  /-- An identifier too many in a method. -/
  | methodIdentifier (name : String)
  /-- A type among the exceptions of a method. -/
  | methodThrowsType (name : String)
  /-- A part that has no place in a method. -/
  | methodPart (part : Part)
  /-- A method without a name. -/
  | methodUnnamed (line : Int) (signature : String)
  /-- A part that has no place in a field. -/
  | fieldPart (part : Part)
  /-- A field without a type or a name. -/
  | fieldIncomplete (line : Int) (signature : String)
  /-- A part that has no place among enumeration constants. -/
  | constantPart (part : Part)
  /-- A file without a type declaration. -/
  | noType
  /-- Fields and methods of a file without a type declaration. -/
  | looseMembers (fields methods : Nat)
  /-- Enumeration constants of a file without a type declaration. -/
  | looseConstants (count : Nat)
  /-- Parents of a class beyond the first. -/
  | extraParents (names : List String)
  /-- A doc tag in ordinary code. -/
  | strayTag (line : Int) (tag : String)
  /-- A keyword that is passed over. -/
  | passedKeyword (word : String)
  /-- A type declaration inside a type. -/
  | nestedType (word : String) (line : Int)
  /-- The end of a statement inside a comment. -/
  | endInComment (text : String) (line : Int)
  /-- A package or import statement without a name. -/
  | unnamedFileStatement (line : Int) (signature : String)
  /-- A statement inside a body at the level of the file. -/
  | fileBodyStatement (line : Int) (parts : List Part)
  /-- The header of a type inside a type. -/
  | skippedNested (parts : List Part)
  /-- An executable statement. -/
  | skippedExecutable (parts : List Part)
  /-- The end of a comment that was not open. -/
  | strayCloser
  /-- A file is about to be read; whether its documentation is to be
      checked as well. -/
  | reading (path : String) (checking : Bool)
  deriving DecidableEq, Repr

namespace Event

/-- The stage that a report comes from. -/
def origin : Event → Origin
  | unknownTag .. => .comment
  | headerThrows .. | headerPart .. | methodIdentifier .. | methodThrowsType ..
  | methodPart .. | methodUnnamed .. | fieldPart .. | fieldIncomplete ..
  | constantPart .. => .statement
  | noType | looseMembers .. | looseConstants .. | extraParents .. => .draft
  | strayTag .. | passedKeyword .. | nestedType .. | endInComment ..
  | unnamedFileStatement .. | fileBodyStatement .. | skippedNested ..
  | skippedExecutable .. | strayCloser => .walk
  | reading .. => .file

/-- The level of a report. -/
def level : Event → Level
  | passedKeyword .. | endInComment .. | fileBodyStatement ..
  | skippedExecutable .. | strayCloser | reading .. => .debug
  | _ => .warning

/-- A part in a message: its kind and its quoted text. -/
def partText (p : Part) : String :=
  p.kind.label ++ " " ++ quoted p.text

/-- The wording of a report. -/
def message : Event → String
  | unknownTag tag => "Unsupported javadoc tag: " ++ tag
  | headerThrows name =>
    "Type declarations do not throw exceptions; ignoring " ++ name
  | headerPart p => "Class pattern not supported: " ++ partText p
  | methodIdentifier name =>
    "Method pattern not supported: unexpected identifier " ++ quoted name
  | methodThrowsType name =>
    "Method pattern not supported: throws " ++ quoted name
  | methodPart p => "Method pattern not supported: " ++ partText p
  | methodUnnamed line signature =>
    "Method pattern not supported on line " ++ toString line ++ ": "
      ++ quoted signature
  | fieldPart p => "Member variable pattern not supported: " ++ partText p
  | fieldIncomplete line signature =>
    "Member variable pattern not supported on line " ++ toString line ++ ": "
      ++ quoted signature
  | constantPart p => "Enumeration pattern not supported: " ++ partText p
  | noType =>
    "Java file type not supported. Supported types: class, interface, enum"
  | looseMembers fields methods =>
    "Keeping " ++ toString fields ++ " field(s) and " ++ toString methods
      ++ " method(s) found outside of any type declaration"
  | looseConstants count =>
    "Dropping " ++ toString count
      ++ " enum constant(s) without an enum declaration"
  | extraParents names =>
    "A class extends a single parent; ignoring " ++ quotedList names
  | strayTag line tag =>
    "Javadoc tag outside of a doc comment on line " ++ toString line ++ ": "
      ++ tag
  | passedKeyword word => "Keyword not supported: " ++ word
  | nestedType word line =>
    "Nested type declarations are not supported: " ++ word ++ " on line "
      ++ toString line
  | endInComment text line =>
    "Ignoring " ++ quoted text ++ " inside a comment on line " ++ toString line
  | unnamedFileStatement line signature =>
    "Pattern not supported on line " ++ toString line ++ ": " ++ quoted signature
  | fileBodyStatement line parts =>
    "Skipping statement inside a file-level body on line " ++ toString line
      ++ ": " ++ Part.shownAll parts
  | skippedNested parts =>
    "Skipping nested type declaration: " ++ Part.shownAll parts
  | skippedExecutable parts =>
    "Skipping executable statement: " ++ Part.shownAll parts
  | strayCloser => "Stray comment terminator"
  | reading path checking =>
    "Parsing " ++ path ++ " (lint=" ++ (if checking then "True" else "False")
      ++ ")"

end Event

/-- A value and the events on the way to it. -/
structure Logged (α : Type) where
  value : α
  log : List Event := []
  deriving DecidableEq, Repr

namespace Logged

variable {α β : Type}

instance : Monad Logged where
  pure a := ⟨a, []⟩
  bind x f := ⟨(f x.value).value, x.log ++ (f x.value).log⟩

/-- Report one event. -/
def report (e : Event) : Logged Unit := ⟨(), [e]⟩

@[simp] theorem value_pure (a : α) : (pure a : Logged α).value = a := rfl

@[simp] theorem log_pure (a : α) : (pure a : Logged α).log = [] := rfl

@[simp] theorem value_bind (x : Logged α) (f : α → Logged β) :
    (x >>= f).value = (f x.value).value := rfl

@[simp] theorem log_bind (x : Logged α) (f : α → Logged β) :
    (x >>= f).log = x.log ++ (f x.value).log := rfl

@[simp] theorem log_report (e : Event) : (report e).log = [e] := rfl

@[ext] theorem ext {x y : Logged α} (hv : x.value = y.value)
    (hl : x.log = y.log) : x = y := by
  cases x
  cases y
  simp_all

instance : LawfulMonad Logged := LawfulMonad.mk' Logged
  (fun x => by
    apply ext
    · rfl
    · exact List.append_nil x.log)
  (fun _ _ => rfl)
  (fun x f g => by
    apply ext
    · rfl
    · exact List.append_assoc x.log (f x.value).log (g (f x.value).value).log)

@[simp] theorem value_map (f : α → β) (x : Logged α) : (f <$> x).value = f x.value := rfl

@[simp] theorem log_map (f : α → β) (x : Logged α) : (f <$> x).log = x.log :=
  List.append_nil x.log

/-- Go through a list from the left, every step reporting what it finds. -/
def fold (f : β → α → Logged β) : β → List α → Logged β
  | b, [] => pure b
  | b, a :: as => do
    let b' ← f b a
    fold f b' as

/-- Going through two lists one after the other. -/
theorem fold_append (f : β → α → Logged β) (b : β) (xs ys : List α) :
    fold f b (xs ++ ys) = fold f b xs >>= fun b' => fold f b' ys := by
  induction xs generalizing b with
  | nil => simp [fold]
  | cons x xs ih => simp [fold, ih]

end Logged

end JavaOutline
