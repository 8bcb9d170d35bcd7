import JavaOutline.Declaration.Draft
import JavaOutline.Doc.Comment
import JavaOutline.Walk.Cursor

/-! # The state of a walk

    A walk goes through the tokens of a file once.  It gathers the words of
    the current statement into parts, keeps the last doc comment for the next
    statement, and steps over annotations and comments. -/

namespace JavaOutline

/-- The kind of source text that a walk is inside. -/
inductive Span where
  | code
  | doc
  | blockComment
  | lineComment
  deriving DecidableEq, Repr

/-- How far an annotation has been passed. -/
inductive Annotation where
  | absent
  /-- Its name has just been read; arguments may follow. -/
  | named
  /-- Inside its arguments, at the given depth of parentheses. -/
  | arguments (depth : Int)
  deriving DecidableEq, Repr

/-- The statement being gathered. -/
structure Statement where
  /-- The doc comment before it. -/
  doc : Doc := {}
  parts : List Part := []
  /-- The words since the last part. -/
  words : List String := []
  /-- A lone word directly before a closing parenthesis. -/
  pendingName : String := ""
  /-- It is the header of the file's type. -/
  isHeader : Bool := false
  hasParams : Bool := false
  hasInitializer : Bool := false
  isExecutable : Bool := false
  isNested : Bool := false
  deriving DecidableEq, Repr

namespace Statement

/-- Turn the pending words into parts. -/
def flush (s : Statement) : Statement :=
  { s with parts := s.parts ++ Part.ofWords s.words, words := [] }

/-- Add a part. -/
def add (s : Statement) (p : Part) : Statement :=
  { s with parts := s.parts ++ [p] }

/-- Add a word; one with an equals sign starts an initializer. -/
def addWord (s : Statement) (w : String) : Statement :=
  { s with
    words := s.words ++ [w]
    hasInitializer := s.hasInitializer || Text.holds '=' w }

end Statement

/-- Everything that a walk carries from token to token. -/
structure Walk where
  draft : Draft := {}
  cursor : Cursor := {}
  span : Span := .code
  annotation : Annotation := .absent
  /-- The constants of the enumeration are complete. -/
  constantsDone : Bool := false
  /-- A body has been opened outside any type. -/
  fileBodyOpen : Bool := false
  docWords : List DocWord := []
  commentWords : List String := []
  /-- The last block comment. -/
  headerComment : String := ""
  statement : Statement := {}
  deriving DecidableEq, Repr

namespace Walk

/-- The file's type declaration has begun. -/
def inType (w : Walk) : Bool := w.draft.kind.isSome

/-- The constants of an enumeration are still to come. -/
def awaitsConstants (w : Walk) : Bool :=
  w.draft.kind == some .enumKind && !w.constantsDone

/-- The constants of an enumeration are being gathered: its header is
    complete, its constants are not. -/
def inConstants (w : Walk) : Bool :=
  w.awaitsConstants && !w.statement.isHeader

/-- Turn the pending words of the statement into parts. -/
def flush (w : Walk) : Walk :=
  { w with statement := w.statement.flush }

/-- Add a part to the statement, which starts here if it has not yet. -/
def addPart (w : Walk) (p : Part) : Walk :=
  { w with statement := w.statement.add p, cursor := w.cursor.mark }

/-- Add a word to the statement, which starts here if it has not yet. -/
def addWord (w : Walk) (word : String) : Walk :=
  { w with statement := w.statement.addWord word, cursor := w.cursor.mark }

/-- Start a new statement. -/
def nextStatement (w : Walk) : Walk :=
  { w with statement := {}, cursor := w.cursor.clear }

end Walk

end JavaOutline
