import JavaOutline.Statement.Constant
import JavaOutline.Statement.Field
import JavaOutline.Statement.Header
import JavaOutline.Statement.Method
import JavaOutline.Walk.State

/-! # The steps of a walk

    What each token does to a walk.  At the end of a statement its parts are
    read as a type header, a method, a field or a list of constants, whichever
    the walk has come to expect.  `refusal?` says which tokens a walk cannot
    take; every other token has a step, which never fails. -/

namespace JavaOutline

open Text

/-- Why a token list has no declaration. -/
inductive Failure where
  /-- A line number that is no integer. -/
  | lineNumber (text : String)
  /-- The end of a statement is neither a semicolon nor an opening brace. -/
  | statementEnd (text : String) (line : Int)
  deriving DecidableEq, Repr

/-- The wording of a failure, for those that have one. -/
def Failure.message : Failure → String
  | .lineNumber text => "Line number not allowed: " ++ quoted text
  | .statementEnd text line =>
    "Line " ++ toString line ++ ": Expression end not allowed: " ++ quoted text

namespace Walk

/-! ## Statements -/

/-- Add the method that the statement declares. -/
def addMethod (w : Walk) : Logged Walk := do
  let m? ← Method.ofParts? w.statement.parts w.statement.doc
    w.cursor.startLine w.cursor.signature w.statement.pendingName
  pure { w with draft.methods := w.draft.methods ++ m?.toList }

/-- Add the field that the statement declares. -/
def addField (w : Walk) : Logged Walk := do
  let f? ← Field.ofParts? w.statement.parts w.cursor.startLine
    w.cursor.signature
  pure { w with draft.fields := w.draft.fields ++ f?.toList }

/-- Add the constants that the statement lists, numbered from the ones that
    are there. -/
def addConstants (w : Walk) : Logged Walk := do
  let cs ← EnumConstant.ofParts w.draft.constants.length w.statement.parts
  pure { w with draft.constants := w.draft.constants ++ cs }

/-- Apply the header of the file's type. -/
def applyHeader (w : Walk) : Logged Walk := do
  let d ← w.draft.applyHeader w.statement.parts w.statement.doc
    w.cursor.signature
  pure { w with draft := d }

/-- Whether the statement is passed over: it is empty, it declares a type
    inside a type, or it is executable. -/
def skips (w : Walk) : Logged Bool :=
  if w.statement.parts = [] then pure true
  else if w.statement.isNested then do
    Logged.report (.skippedNested w.statement.parts)
    pure true
  else if w.statement.isExecutable then do
    Logged.report (.skippedExecutable w.statement.parts)
    pure true
  else pure false

/-- The first identifier after the marker of a file statement. -/
def firstName? (ps : List Part) : Option String :=
  ((ps.drop 1).find? (fun p => p.kind == .identifier)).map Part.text

/-- A package or import statement. -/
def nameStatement (w : Walk) (isImport : Bool) : Logged Walk :=
  match firstName? w.statement.parts with
  | none => do
    Logged.report
      (.unnamedFileStatement w.cursor.startLine w.cursor.signature)
    pure w
  | some name =>
    pure
      (if isImport then
        { w with draft.dependencies := w.draft.dependencies ++ [name] }
      else { w with draft.packageName := name })

/-- A statement outside any type, ended by a semicolon. -/
def fileStatement (w : Walk) : Logged Walk :=
  match w.statement.parts.head?.map Part.kind with
  | some .importing => w.nameStatement true
  | some .packaging => w.nameStatement false
  | _ =>
    if w.fileBodyOpen then do
      Logged.report (.fileBodyStatement w.cursor.startLine w.statement.parts)
      pure w
    else if 1 < w.statement.parts.length then w.addField
    else pure w

/-- A statement ended by a semicolon.  The first one of an enumeration closes
    its constants, even an empty list of them. -/
def endStatement (w : Walk) : Logged Walk := do
  let skip ← w.skips
  if w.awaitsConstants then
    let w' ← if skip then pure w else w.addConstants
    pure { w' with constantsDone := true }
  else if skip then pure w
  else if !w.inType then w.fileStatement
  else if w.statement.hasParams then w.addMethod
  else w.addField

/-- A statement before an opening brace: a type header, a constant with a
    body, a field initialised by a body, or a method. -/
def blockStatement (w : Walk) : Logged Walk :=
  if w.statement.isHeader then w.applyHeader
  else if w.awaitsConstants then w.addConstants
  else if w.statement.hasInitializer then w.addField
  else w.addMethod

/-- A statement ended by an opening brace.  Closing braces are no tokens, so
    a body outside any type lasts to the end of the file. -/
def beginBlock (w : Walk) : Logged Walk := do
  let skip ← w.skips
  if skip then pure w
  else
    let w' ← w.blockStatement
    pure (if w'.inType then w' else { w' with fileBodyOpen := true })

/-! ## Comments -/

/-- Close a doc comment.  Unless constants are being gathered, what was read
    before the comment is no part of the declaration after it. -/
def closeDoc (w : Walk) : Logged Walk := do
  let doc ← Doc.ofWords w.docWords
  let w' := { w with docWords := [], statement.doc := doc }
  pure
    (if w.inConstants then w'
    else
      { w' with
        statement.parts := []
        statement.isHeader := false
        cursor := if w.statement.words = [] then w.cursor.clear else w.cursor })

/-- Close a block comment, which may turn out to be a licence. -/
def closeBlockComment (w : Walk) : Walk :=
  { w with headerComment := joinWords w.commentWords, commentWords := [] }

/-- The end of a comment. -/
def closeComment (w : Walk) : Logged Walk := do
  let w' ←
    match w.span with
    | .doc => w.closeDoc
    | .blockComment => pure w.closeBlockComment
    | .code => do
      Logged.report .strayCloser
      pure w
    | .lineComment => pure w
  pure { w' with span := .code }

/-! ## Tokens -/

/-- A keyword that begins a type.  Only the first one of a file counts. -/
def typeKeyword (w : Walk) (word : String) (line : Int) : Logged Walk :=
  if w.inType then do
    Logged.report (.nestedType word line)
    pure { w with statement.isNested := true }
  else
    pure ({ w with
      draft.kind := TypeKind.ofWord? word
      statement.isHeader := true }.addPart ⟨.typeWord, word⟩)

/-- Any other structural keyword.  The block comment before the package
    statement is the licence. -/
def structuralKeyword (w : Walk) (word : String) : Walk :=
  let w' :=
    if word = "package" ∧ w.headerComment ≠ "" then
      { w with draft.license := w.headerComment }
    else w
  match Part.ofKeyword? word with
  | some p => w'.addPart p
  | none => w'

/-- A keyword in ordinary code. -/
def codeKeyword (w : Walk) (word : String) (line : Int) : Logged Walk :=
  if Keyword.isTypeWord word then w.typeKeyword word line
  else if Keyword.isStructural word then pure (w.structuralKeyword word)
  else if startsWith '@' word then
    if Keyword.isDocTag word then do
      Logged.report (.strayTag line word)
      pure w
    else pure { w with annotation := .named }
  else do
    Logged.report (.passedKeyword word)
    pure
      (if Keyword.isStatementWord word then
        { w with statement.isExecutable := true }
      else w)

/-- A keyword token. -/
def keyword (w : Walk) (word : String) (line : Int) : Logged Walk :=
  match w.span with
  | .doc => pure { w with docWords := w.docWords ++ [DocWord.ofWord word] }
  | .blockComment =>
    pure { w with commentWords := w.commentWords ++ [word] }
  | .lineComment => pure w
  | .code => { w.flush with annotation := .absent }.codeKeyword word line

/-- A symbol in ordinary code that is no closer. -/
def codeSymbol (w : Walk) (word : String) : Walk :=
  if word = "/**" then
    { w with span := .doc, docWords := [], annotation := .absent }
  else if word = "/*" then
    { w with span := .blockComment, commentWords := [], annotation := .absent }
  else if word = "//" then
    { w with span := .lineComment, annotation := .absent }
  else if startsWith '@' word then { w with annotation := .named }
  else { w.addWord word with annotation := .absent }

/-- A symbol token. -/
def symbol (w : Walk) (word : String) : Logged Walk :=
  if w.span = .lineComment then pure { w with annotation := .absent }
  else if word = "*/" then do
    let w' ← w.closeComment
    pure { w' with annotation := .absent }
  else
    match w.span with
    | .doc =>
      pure { w with
        docWords := w.docWords ++ [DocWord.ofWord word]
        annotation := .absent }
    | .blockComment =>
      pure { w with
        commentWords :=
          if word = "*" then w.commentWords else w.commentWords ++ [word]
        annotation := .absent }
    | _ => pure (w.codeSymbol word)

/-- An opening parenthesis: the arguments of an annotation, or parameters. -/
def paramStart (w : Walk) : Walk :=
  if w.span ≠ .code then w
  else if w.annotation = .named then { w with annotation := .arguments 1 }
  else
    let w' := w.flush
    { w' with
      statement.hasParams :=
        w'.statement.hasParams || !w'.statement.hasInitializer }

/-- A closing parenthesis; a lone word before it may be a method's name. -/
def paramEnd (w : Walk) : Walk :=
  if w.span ≠ .code then w
  else
    match w.statement.words with
    | [word] =>
      { w with statement.pendingName := word, statement.words := [] }
    | _ => w.flush

/-- The end of a statement. -/
def statementEnd (w : Walk) (text : String) (line : Int) : Logged Walk :=
  if w.span ≠ .code then do
    Logged.report (.endInComment text line)
    pure w
  else do
    let w' ← if text = ";" then w.flush.endStatement else w.flush.beginBlock
    pure w'.nextStatement

/-- The number of the line that starts. -/
def lineNumber (w : Walk) (text : String) : Walk :=
  { w with
    cursor := w.cursor.goTo ((integer? text).getD w.cursor.line)
    span := if w.span = .lineComment then .code else w.span }

/-- A token among the arguments of an annotation, at the given depth. -/
def annotationArgument (w : Walk) (depth : Int) (kind : TokenKind) : Walk :=
  match kind with
  | .paramStart => { w with annotation := .arguments (depth + 1) }
  | .paramEnd =>
    { w with
      annotation :=
        if depth = 1 then .absent else .arguments (depth - 1) }
  | _ => w

/-- A token outside the arguments of an annotation. -/
def plainStep (w : Walk) (t : Token) : Logged Walk :=
  match t.kind with
  | .keyword => w.keyword t.text t.line
  | .symbol => w.symbol t.text
  | .join => pure (if w.span = .code then w.flush else w)
  | .paramStart => pure w.paramStart
  | .paramEnd => pure w.paramEnd
  | .statementEnd => w.statementEnd t.text t.line
  | .lineNumber => pure (w.lineNumber t.text)
  | .sign => pure w

/-- One token. -/
def step (w : Walk) (t : Token) : Logged Walk :=
  match w.annotation with
  | .arguments depth =>
    if t.kind.isLine then w.plainStep t
    else pure (w.annotationArgument depth t.kind)
  | _ => w.plainStep t

/-- Whether the walk is in ordinary code: neither inside a comment nor among
    the arguments of an annotation. -/
def readsCode (w : Walk) : Bool :=
  w.span == .code
    && (match w.annotation with
        | .arguments _ => false
        | _ => true)

/-- Why a walk cannot take a token, if it cannot. -/
def refusal? (w : Walk) (t : Token) : Option Failure :=
  match t.kind with
  | .lineNumber =>
    if (integer? t.text).isNone then some (.lineNumber t.text) else none
  | .statementEnd =>
    if w.readsCode && t.text != ";" && t.text != "\x7b" then
      some (.statementEnd t.text t.line)
    else none
  | _ => none

/-- Go through a list of tokens up to the first one that is refused. -/
def run (w : Walk) : List Token → Logged (Except Failure Walk)
  | [] => pure (.ok w)
  | t :: ts =>
    match w.refusal? t with
    | some f => pure (.error f)
    | none => do
      let w' ← w.step t
      run w' ts

/-- Constants that are closed by the brace of their enumeration. -/
def finishConstants (w : Walk) : Logged Walk :=
  if w.awaitsConstants then do
    let w' := if w.span = .code then w.flush else w
    let skip ← w'.skips
    let w'' ← if skip then pure w' else w'.addConstants
    pure { w'' with constantsDone := true }
  else pure w

/-- The declaration at the end of a walk. -/
def finish (w : Walk) : Logged Declaration := do
  let w' ← w.finishConstants
  w'.draft.finish

end Walk

/-- The declaration of a token list. -/
def Declaration.ofTokens (ts : List Token) :
    Logged (Except Failure Declaration) :=
  match LineIndex.ofTokens ts with
  | .error text => pure (.error (.lineNumber text))
  | .ok ix => do
    match ← Walk.run { cursor := { lines := ix } } ts with
    | .error f => pure (.error f)
    | .ok w =>
      let d ← w.finish
      pure (.ok d)

end JavaOutline
