import JavaOutline.Declaration.Draft

/-! # Type headers

    The header of a type gives its name, access and modifiers, and the types
    it extends and implements; its doc comment describes the type. -/

namespace JavaOutline

open Text

/-- What the next identifier of a header stands for. -/
inductive HeaderSlot where
  | free
  | name
  | parent
  | interface
  | exception
  deriving DecidableEq, Repr

/-- A type name without its type parameters. -/
def withoutParameters (name : String) : String :=
  let head := before '<' name
  if head = "" then name else head

namespace Draft

/-- Read an identifier of a header. -/
def headerIdentifier (d : Draft) (slot : HeaderSlot) (w : String) :
    Logged (Draft × HeaderSlot) :=
  match slot with
  | .name => pure ({ d with name := withoutParameters w }, .free)
  | .parent => pure ({ d with parents := d.parents ++ [w] }, slot)
  | .interface => pure ({ d with interfaces := d.interfaces ++ [w] }, slot)
  | .exception => do
    Logged.report (.headerThrows w)
    pure (d, slot)
  | .free => pure (d, slot)

/-- Read one part of a header. -/
def headerStep (r : Draft × HeaderSlot) (p : Part) :
    Logged (Draft × HeaderSlot) :=
  match p.kind with
  | .identifier => r.1.headerIdentifier r.2 p.text
  | .typeWord => pure (r.1, .name)
  | .access => pure ({ r.1 with access := p.text }, r.2)
  | .modifier =>
    pure ({ r.1 with modifiers := r.1.modifiers ++ [p.text] }, r.2)
  | .extending => pure (r.1, .parent)
  | .implementing => pure (r.1, .interface)
  | .throwing => pure (r.1, .exception)
  | _ => do
    Logged.report (.headerPart p)
    pure r

/-- What the doc comment and the first line of a header say. -/
def describe (d : Draft) (doc : Doc) (signature : String) : Draft :=
  { d with
    signature
    description := doc.description
    author := doc.author
    version := doc.version
    deprecated := doc.deprecated
    see := doc.see }

/-- Apply the header of a type. -/
def applyHeader (d : Draft) (ps : List Part) (doc : Doc)
    (signature : String) : Logged Draft := do
  let r ← Logged.fold headerStep (d, .free) ps
  pure (r.1.describe doc signature)

end Draft

end JavaOutline
