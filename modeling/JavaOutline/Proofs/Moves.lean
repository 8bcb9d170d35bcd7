import JavaOutline.Proofs.WalkFrame

/-! # The moves of a walk

    A step has two halves.  Which move to make is decided by little of the walk, its
    `Walk.View`, and by the token (`View.move`).  What the move does to the walk is
    then a matter of a few cases (`Walk.take`).  That a step is the one after the
    other (`Walk.step_eq`) is proved here once, by going through all handlers of
    tokens.  What is said elsewhere about every step is said about every move:

      * `Walk.exists_move` gives the move of a step together with the conditions
        under which it is made (`View.Moves`, `View.Closes`);
      * `Walk.Bisimulation` relates two walks with the same view, from step to step. -/

namespace JavaOutline

open Text

/-! ## What a move does -/

/-- What a token does to the statement under construction. -/
inductive Change where
  | flush
  | word (text : String)
  | part (p : Part)
  | nested
  | executable
  | params
  /-- A lone word is put aside as a possible name. -/
  | name (text : String)
  deriving DecidableEq

/-- The statement after a change. -/
def Statement.change (s : Statement) : Change → Statement
  | .flush => s.flush
  | .word text => s.addWord text
  | .part p => s.flush.add p
  | .nested => { s.flush with isNested := true }
  | .executable => { s.flush with isExecutable := true }
  | .params => { s.flush with hasParams := s.hasParams || !s.hasInitializer }
  | .name text => { s with pendingName := text, words := [] }

@[simp] theorem Statement.change_isHeader (s : Statement) (c : Change) :
    (s.change c).isHeader = s.isHeader := by
  cases c <;> rfl

/-- The change marks the start of the statement. -/
def Change.marks : Change → Bool
  | .word _ | .part _ => true
  | _ => false

/-- What a statement is read as when it ends. -/
inductive Role where
  /-- It is passed over. -/
  | nothing
  | constants
  | field
  | method
  | header
  | dependency (name : String)
  | package (name : String)
  /-- A package or import statement without a name. -/
  | unnamed
  /-- A statement of a body outside any type. -/
  | loose
  deriving DecidableEq

/-- What the end of a statement does. -/
structure Closing where
  role : Role
  events : List Event := []
  constantsDone : Bool := false
  fileBodyOpen : Bool := false

/-- What a token does to the texts of comments. -/
inductive Remark where
  | nothing
  | openDoc
  | openBlock
  | docWord (word : String)
  | blockWord (word : String)
  | closeBlock
  deriving DecidableEq

/-- What a token does. -/
inductive Move where
  /-- Neither the draft nor the statement changes. -/
  | aside (span : Span) (a : Annotation) (remark : Remark) (events : List Event)
  /-- A line starts. -/
  | line (number? : Option Int) (span : Span)
  /-- The statement goes on. -/
  | gather (change : Change) (a : Annotation) (events : List Event)
  /-- The package statement begins, and the comment before it is the licence. -/
  | license (change : Change)
  /-- The type of the file begins. -/
  | type (word : String)
  /-- A doc comment ends; whether what was read before it is dropped, and with it
      the start of the statement. -/
  | closeDoc (drops clears : Bool)
  | ends (closing : Closing)

namespace Walk

/-- The walk after a change of its statement. -/
def gather (w : Walk) (c : Change) : Walk :=
  { w with
    statement := w.statement.change c
    cursor := if c.marks then w.cursor.mark else w.cursor }

/-- Read the statement. -/
def readAs (w : Walk) : Role → Logged Walk
  | .nothing => pure w
  | .constants => w.addConstants
  | .field => w.addField
  | .method => w.addMethod
  | .header => w.applyHeader
  | .dependency name =>
    pure { w with draft.dependencies := w.draft.dependencies ++ [name] }
  | .package name => pure { w with draft.packageName := name }
  | .unnamed =>
    ⟨w, [.unnamedFileStatement w.cursor.startLine w.cursor.signature]⟩
  | .loose => ⟨w, [.fileBodyStatement w.cursor.startLine w.statement.parts]⟩

/-- End the statement. -/
def close (w : Walk) (c : Closing) : Logged Walk where
  value :=
    { (w.readAs c.role).value with
      constantsDone := c.constantsDone || w.constantsDone
      fileBodyOpen := c.fileBodyOpen || w.fileBodyOpen }
  log := c.events ++ (w.readAs c.role).log

/-- The walk after a token of a comment. -/
def remark (w : Walk) : Remark → Walk
  | .nothing => w
  | .openDoc => { w with docWords := [] }
  | .openBlock => { w with commentWords := [] }
  | .docWord word => { w with docWords := w.docWords ++ [DocWord.ofWord word] }
  | .blockWord word => { w with commentWords := w.commentWords ++ [word] }
  | .closeBlock => w.closeBlockComment

/-- Make a move. -/
def take (w : Walk) : Move → Logged Walk
  | .aside span a r events => ⟨{ w.remark r with span, annotation := a }, events⟩
  | .line number? span =>
    pure { w with cursor := w.cursor.goTo (number?.getD w.cursor.line), span }
  | .gather c a events => ⟨{ w.gather c with annotation := a }, events⟩
  | .license c =>
    pure { w.gather c with
      draft.license :=
        if w.headerComment ≠ "" then w.headerComment else w.draft.license
      annotation := .absent }
  | .type word =>
    pure ({ w.flush with
      draft.kind := TypeKind.ofWord? word
      statement.isHeader := true
      annotation := .absent }.addPart ⟨.typeWord, word⟩)
  | .closeDoc drops clears => do
    let doc ← Doc.ofWords w.docWords
    pure { w with
      docWords := []
      span := .code
      annotation := .absent
      statement := { w.statement with
        doc
        parts := if drops then [] else w.statement.parts
        isHeader := !drops && w.statement.isHeader }
      cursor := if clears then w.cursor.clear else w.cursor }
  | .ends c => do
    let w' ← w.flush.close c
    pure w'.nextStatement

/-! ## Which move is made -/

/-- All of a walk that a step decides by. -/
structure View where
  span : Span
  annotation : Annotation
  kind : Option TypeKind
  constantsDone : Bool
  fileBodyOpen : Bool
  /-- The statement, without its doc comment. -/
  statement : Statement

/-- What a step sees of a walk. -/
def view (w : Walk) : View where
  span := w.span
  annotation := w.annotation
  kind := w.draft.kind
  constantsDone := w.constantsDone
  fileBodyOpen := w.fileBodyOpen
  statement := { w.statement with doc := {} }

end Walk

/-- What is reported about a statement that is passed over. -/
def Statement.passedOver? (s : Statement) : Option (List Event) :=
  if s.parts = [] then some []
  else if s.isNested then some [.skippedNested s.parts]
  else if s.isExecutable then some [.skippedExecutable s.parts]
  else none

namespace Walk.View

def inType (v : View) : Bool := v.kind.isSome

def awaitsConstants (v : View) : Bool :=
  v.kind == some .enumKind && !v.constantsDone

def inConstants (v : View) : Bool := v.awaitsConstants && !v.statement.isHeader

def readsCode (v : View) : Bool :=
  v.span == .code
    && (match v.annotation with
        | .arguments _ => false
        | _ => true)

def flush (v : View) : View := { v with statement := v.statement.flush }

/-- The token is passed over. -/
def stay (v : View) (events : List Event) : Move :=
  .aside v.span v.annotation .nothing events

/-- A keyword in ordinary code. -/
def codeKeyword (v : View) (word : String) (line : Int) : Move :=
  if Keyword.isTypeWord word then
    if v.inType then .gather .nested .absent [.nestedType word line] else .type word
  else if Keyword.isStructural word then
    if word = "package" then .license ((Part.ofKeyword? word).elim .flush .part)
    else .gather ((Part.ofKeyword? word).elim .flush .part) .absent []
  else if startsWith '@' word then
    if Keyword.isDocTag word then .gather .flush .absent [.strayTag line word]
    else .gather .flush .named []
  else
    .gather (if Keyword.isStatementWord word then .executable else .flush) .absent
      [.passedKeyword word]

def keyword (v : View) (word : String) (line : Int) : Move :=
  match v.span with
  | .doc => .aside v.span v.annotation (.docWord word) []
  | .blockComment => .aside v.span v.annotation (.blockWord word) []
  | .lineComment => v.stay []
  | .code => v.codeKeyword word line

/-- The end of a comment. -/
def closeComment (v : View) : Move :=
  match v.span with
  | .doc => .closeDoc (!v.inConstants) (!v.inConstants && v.statement.words = [])
  | .blockComment => .aside .code .absent .closeBlock []
  | .code => .aside .code .absent .nothing [.strayCloser]
  | .lineComment => .aside .code .absent .nothing []

/-- A symbol in ordinary code that is no closer. -/
def codeSymbol (v : View) (word : String) : Move :=
  if word = "/**" then .aside .doc .absent .openDoc []
  else if word = "/*" then .aside .blockComment .absent .openBlock []
  else if word = "//" then .aside .lineComment .absent .nothing []
  else if startsWith '@' word then .aside v.span .named .nothing []
  else .gather (.word word) .absent []

def symbol (v : View) (word : String) : Move :=
  if v.span = .lineComment then .aside v.span .absent .nothing []
  else if word = "*/" then v.closeComment
  else
    match v.span with
    | .doc => .aside v.span .absent (.docWord word) []
    | .blockComment =>
      .aside v.span .absent (if word = "*" then .nothing else .blockWord word) []
    | _ => v.codeSymbol word

def paramStart (v : View) : Move :=
  if v.span ≠ .code then v.stay []
  else if v.annotation = .named then .aside v.span (.arguments 1) .nothing []
  else .gather .params v.annotation []

def paramEnd (v : View) : Move :=
  if v.span ≠ .code then v.stay []
  else
    match v.statement.words with
    | [word] => .gather (.name word) v.annotation []
    | _ => .gather .flush v.annotation []

/-- A statement outside any type, ended by a semicolon. -/
def fileRole (v : View) : Role :=
  match v.statement.parts.head?.map Part.kind with
  | some .importing => (firstName? v.statement.parts).elim .unnamed .dependency
  | some .packaging => (firstName? v.statement.parts).elim .unnamed .package
  | _ =>
    if v.fileBodyOpen then .loose
    else if 1 < v.statement.parts.length then .field
    else .nothing

/-- The constants of an enumeration are complete. -/
def lastConstants (v : View) : Closing :=
  match v.statement.passedOver? with
  | some events => { role := .nothing, events, constantsDone := true }
  | none => { role := .constants, constantsDone := true }

/-- A statement ended by a semicolon. -/
def semicolon (v : View) : Closing :=
  if v.awaitsConstants then v.lastConstants
  else
    match v.statement.passedOver? with
    | some events => { role := .nothing, events }
    | none =>
      { role :=
          if !v.inType then v.fileRole
          else if v.statement.hasParams then .method
          else .field }

/-- A statement before an opening brace. -/
def blockRole (v : View) : Role :=
  if v.statement.isHeader then .header
  else if v.awaitsConstants then .constants
  else if v.statement.hasInitializer then .field
  else .method

/-- A statement ended by a brace. -/
def brace (v : View) : Closing :=
  match v.statement.passedOver? with
  | some events => { role := .nothing, events }
  | none => { role := v.blockRole, fileBodyOpen := !v.inType }

def statementEnd (v : View) (text : String) (line : Int) : Move :=
  if v.span ≠ .code then v.stay [.endInComment text line]
  else .ends (if text = ";" then v.flush.semicolon else v.flush.brace)

/-- A token outside the arguments of an annotation. -/
def plainMove (v : View) (t : Token) : Move :=
  match t.kind with
  | .keyword => v.keyword t.text t.line
  | .symbol => v.symbol t.text
  | .join => if v.span = .code then .gather .flush v.annotation [] else v.stay []
  | .paramStart => v.paramStart
  | .paramEnd => v.paramEnd
  | .statementEnd => v.statementEnd t.text t.line
  | .lineNumber =>
    .line (integer? t.text) (if v.span = .lineComment then .code else v.span)
  | .sign => v.stay []

/-- The annotation after a token among its arguments. -/
def argument (depth : Int) : TokenKind → Annotation
  | .paramStart => .arguments (depth + 1)
  | .paramEnd => if depth = 1 then .absent else .arguments (depth - 1)
  | _ => .arguments depth

/-- The move that a token makes. -/
def move (v : View) (t : Token) : Move :=
  match v.annotation with
  | .arguments depth =>
    if t.kind.isLine then v.plainMove t
    else .aside v.span (argument depth t.kind) .nothing []
  | _ => v.plainMove t

end Walk.View

namespace Walk

/-! ## Steps are moves -/

section

variable (w : Walk)

theorem view_span : w.view.span = w.span := rfl

theorem view_passing : w.view.annotation = w.annotation := rfl

theorem view_inType : w.view.inType = w.inType := rfl

theorem view_awaitsConstants : w.view.awaitsConstants = w.awaitsConstants := rfl

theorem view_words : w.view.statement.words = w.statement.words := rfl

theorem view_passedOver? : w.view.statement.passedOver? = w.statement.passedOver? := rfl

theorem skips_eq :
    w.skips = ⟨w.statement.passedOver?.isSome, w.statement.passedOver?.getD []⟩ := by
  rw [skips, Statement.passedOver?]
  split
  · rfl
  · split
    · rfl
    · split <;> rfl

/-- Whatever it is read as, a statement changes nothing but the draft. -/
theorem readAs_frame (r : Role) : ∃ d, (w.readAs r).value = { w with draft := d } := by
  cases r <;> exact ⟨_, rfl⟩

theorem readAs_kind (r : Role) : (w.readAs r).value.draft.kind = w.draft.kind := by
  cases r with
  | header =>
      obtain ⟨_, _, _, _, _, hd⟩ := w.draft.applyHeader_frame w.statement.parts
        w.statement.doc w.cursor.signature
      show (w.draft.applyHeader _ _ _).value.kind = _
      rw [hd]
      rfl
  | _ => rfl

theorem close_frame (c : Closing) :
    ∃ d, (w.close c).value = { w with
      draft := d
      constantsDone := c.constantsDone || w.constantsDone
      fileBodyOpen := c.fileBodyOpen || w.fileBodyOpen } := by
  obtain ⟨d, hd⟩ := w.readAs_frame c.role
  exact ⟨d, by rw [close, hd]⟩

theorem close_role (r : Role) : w.close { role := r } = w.readAs r := by
  cases r <;> rfl

/-- Constants that are complete, whether some are left to add or not. -/
theorem close_lastConstants :
    w.close w.view.lastConstants = (do
      let skip ← w.skips
      let w' ← if skip then pure w else w.addConstants
      pure { w' with constantsDone := true }) := by
  rw [skips_eq, View.lastConstants, view_passedOver?]
  cases w.statement.passedOver? with
  | some events => exact Logged.ext rfl rfl
  | none => exact Logged.ext rfl (List.append_nil _).symm

theorem fileStatement_eq : w.fileStatement = w.readAs w.view.fileRole := by
  have hname : ∀ b, w.nameStatement b
      = w.readAs ((firstName? w.statement.parts).elim .unnamed
          (if b then .dependency else .package)) := by
    intro b
    rw [nameStatement]
    cases firstName? w.statement.parts with
    | none => rfl
    | some name => cases b <;> rfl
  have hparts : w.view.statement.parts = w.statement.parts := rfl
  have hopen : w.view.fileBodyOpen = w.fileBodyOpen := rfl
  have hother : (if w.fileBodyOpen then do
          Logged.report (.fileBodyStatement w.cursor.startLine w.statement.parts)
          pure w
        else if 1 < w.statement.parts.length then w.addField
        else pure w)
      = w.readAs (if w.fileBodyOpen then .loose
          else if 1 < w.statement.parts.length then .field else .nothing) := by
    split
    · rfl
    · split <;> rfl
  rw [fileStatement, View.fileRole, hparts, hopen]
  cases w.statement.parts.head?.map Part.kind with
  | none => exact hother
  | some kind =>
      cases kind with
      | importing => exact hname true
      | packaging => exact hname false
      | _ => exact hother

theorem endStatement_eq : w.endStatement = w.close w.view.semicolon := by
  have hparams : w.view.statement.hasParams = w.statement.hasParams := rfl
  rw [View.semicolon, view_awaitsConstants, view_passedOver?, view_inType, hparams]
  cases hwaits : w.awaitsConstants with
  | true =>
      rw [if_pos rfl, close_lastConstants, endStatement, hwaits]
      rfl
  | false =>
      rw [if_neg Bool.false_ne_true, endStatement, hwaits, skips_eq]
      cases w.statement.passedOver? with
      | some events => exact Logged.ext rfl rfl
      | none =>
          rw [close_role]
          refine Eq.trans (Logged.ext rfl rfl) (?_ : (if !w.inType then w.fileStatement
            else if w.statement.hasParams then w.addMethod else w.addField) = _)
          split
          · exact w.fileStatement_eq
          · split <;> rfl

theorem blockStatement_eq : w.blockStatement = w.readAs w.view.blockRole := by
  have hheader : w.view.statement.isHeader = w.statement.isHeader := rfl
  have hinit : w.view.statement.hasInitializer = w.statement.hasInitializer := rfl
  rw [blockStatement, View.blockRole, hheader, view_awaitsConstants, hinit]
  split
  · rfl
  · split
    · rfl
    · split <;> rfl

theorem beginBlock_eq : w.beginBlock = w.close w.view.brace := by
  rw [View.brace, view_passedOver?, view_inType, beginBlock, skips_eq]
  cases w.statement.passedOver? with
  | some events => exact Logged.ext rfl rfl
  | none =>
      rw [blockStatement_eq]
      generalize w.view.blockRole = r
      have hkind : (w.readAs r).value.inType = w.inType :=
        congrArg Option.isSome (w.readAs_kind r)
      obtain ⟨d, hd⟩ := w.readAs_frame r
      refine Logged.ext ?_ (List.append_nil _)
      show (if (w.readAs r).value.inType then (w.readAs r).value
          else { (w.readAs r).value with fileBodyOpen := true })
        = { (w.readAs r).value with
            constantsDone := w.constantsDone, fileBodyOpen := !w.inType || w.fileBodyOpen }
      rw [hkind, hd]
      cases w.inType <;> rfl

/-! ### Other tokens -/

theorem structuralKeyword_eq (word : String) :
    w.structuralKeyword word
      = if word = "package" then
          { (Part.ofKeyword? word).elim w w.addPart with
            draft.license :=
              if w.headerComment ≠ "" then w.headerComment else w.draft.license }
        else (Part.ofKeyword? word).elim w w.addPart := by
  rw [structuralKeyword]
  by_cases hpackage : word = "package"
  · rw [if_pos hpackage]
    by_cases hcomment : w.headerComment = ""
    · rw [if_neg fun h => h.2 hcomment, if_neg (not_not_intro hcomment)]
      cases Part.ofKeyword? word <;> rfl
    · rw [if_pos ⟨hpackage, hcomment⟩, if_pos hcomment]
      cases Part.ofKeyword? word <;> rfl
  · rw [if_neg hpackage, if_neg fun h => hpackage h.1]
    cases Part.ofKeyword? word <;> rfl

theorem codeKeyword_eq (word : String) (line : Int) :
    { w.flush with annotation := .absent }.codeKeyword word line
      = w.take (w.view.codeKeyword word line) := by
  rw [codeKeyword, View.codeKeyword, view_inType]
  split
  · rw [typeKeyword]
    show (if w.inType then _ else _) = _
    split <;> rfl
  · split
    · rw [structuralKeyword_eq]
      split <;> cases Part.ofKeyword? word <;> rfl
    · split
      · split <;> rfl
      · cases Keyword.isStatementWord word <;> rfl

theorem keyword_eq (word : String) (line : Int) :
    w.keyword word line = w.take (w.view.keyword word line) := by
  rw [keyword, View.keyword, view_span]
  cases w.span with
  | code => exact w.codeKeyword_eq word line
  | doc | blockComment | lineComment => rfl

theorem closeComment_eq :
    (do
      let w' ← w.closeComment
      pure { w' with annotation := .absent }) = w.take w.view.closeComment := by
  rw [closeComment, View.closeComment, view_span]
  cases w.span with
  | doc =>
      have hconstants : w.view.inConstants = w.inConstants := rfl
      rw [closeDoc, hconstants, view_words]
      apply Logged.ext
      · cases w.inConstants with
        | true => rfl
        | false => by_cases hempty : w.statement.words = [] <;> simp [take, hempty]
      · simp only [take, Logged.log_bind, Logged.log_pure, List.append_nil]
  | blockComment | code | lineComment => rfl

theorem symbol_eq (word : String) :
    w.symbol word = w.take (w.view.symbol word) := by
  have hclose := w.closeComment_eq
  have hcode : pure (w.codeSymbol word) = w.take (w.view.codeSymbol word) := by
    rw [codeSymbol, View.codeSymbol]
    repeat' split
    all_goals rfl
  rw [symbol, View.symbol, view_span]
  split
  · rfl
  · split
    · exact hclose
    · cases w.span with
      | doc => rfl
      | blockComment =>
          dsimp only
          split <;> rfl
      | code | lineComment => exact hcode

theorem plainStep_eq (t : Token) : w.plainStep t = w.take (w.view.plainMove t) := by
  rw [plainStep, View.plainMove]
  cases t.kind with
  | keyword => exact w.keyword_eq t.text t.line
  | symbol => exact w.symbol_eq t.text
  | join =>
      dsimp only
      rw [view_span]
      split <;> rfl
  | paramStart =>
      dsimp only
      rw [paramStart, View.paramStart, view_span]
      split
      · rfl
      · rw [view_passing]
        split <;> rfl
  | paramEnd =>
      dsimp only
      rw [paramEnd, View.paramEnd, view_span]
      split
      · rfl
      · rw [view_words]
        rcases w.statement.words with _ | ⟨word, _ | ⟨_, _⟩⟩ <;> rfl
  | statementEnd =>
      dsimp only
      rw [statementEnd, View.statementEnd, view_span]
      split
      · rfl
      · split
        · rw [endStatement_eq]
          rfl
        · rw [beginBlock_eq]
          rfl
  | lineNumber | sign => rfl

/-- **A step is the move that the view decides.** -/
theorem step_eq (t : Token) : w.step t = w.take (w.view.move t) := by
  rw [step, View.move, view_passing]
  cases ha : w.annotation with
  | absent | named => exact w.plainStep_eq t
  | arguments depth =>
      dsimp only
      split
      · exact w.plainStep_eq t
      · cases t.kind with
        | paramStart | paramEnd => rfl
        | _ =>
            show pure w = w.take (.aside w.span (.arguments depth) .nothing [])
            rw [← ha]
            rfl

/-- The constants are all that is left to read. -/
theorem View.lastConstants_role (v : View) :
    v.lastConstants.role = .nothing ∨ v.lastConstants.role = .constants := by
  rw [View.lastConstants]
  split
  · exact .inl rfl
  · exact .inr rfl

/-- The end of a file ends the statement that lists constants. -/
theorem finishConstants_eq :
    w.finishConstants = if w.awaitsConstants then
        (if w.span = .code then w.flush else w).close
          (if w.span = .code then w.view.flush else w.view).lastConstants
      else pure w := by
  have hclose : ∀ v : Walk, (do
      let skip ← v.skips
      let v' ← if skip then pure v else v.addConstants
      pure { v' with constantsDone := true }) = v.close v.view.lastConstants :=
    fun v => v.close_lastConstants.symm
  rw [finishConstants]
  split
  · split
    · exact hclose w.flush
    · exact hclose w
  · rfl

end

/-! ## When a move is made -/

end Walk

/-- The words of executable statements have no other role. -/
theorem Keyword.isStatementWord_eq_false {word : String}
    (h : isTypeWord word = true ∨ isStructural word = true
      ∨ startsWith '@' word = true) : isStatementWord word = false := by
  have hwords : ∀ w ∈ statementWords, isTypeWord w = false ∧ isStructural w = false
      ∧ startsWith '@' w = false := by decide
  refine Bool.eq_false_iff.mpr fun hstatement => ?_
  obtain ⟨htype, hstructural, hat⟩ := hwords word (List.contains_iff_mem.mp hstatement)
  rcases h with h | h | h
  · cases htype.symm.trans h
  · cases hstructural.symm.trans h
  · cases hat.symm.trans h

/-- The marks of comments. -/
def commentMarks : List String := ["//", "/*", "/**", "*/"]

/-- A statement inside a type with one more token. -/
def Statement.take (s : Statement) (t : Token) : Statement :=
  match t.kind with
  | .keyword =>
    if Keyword.isTypeWord t.text then { s.flush with isNested := true }
    else if Keyword.isStructural t.text then
      ((Part.ofKeyword? t.text).elim s.flush s.flush.add)
    else if startsWith '@' t.text then s.flush
    else if Keyword.isStatementWord t.text then { s.flush with isExecutable := true }
    else s.flush
  | .symbol => if startsWith '@' t.text then s else s.addWord t.text
  | .join => s.flush
  | .paramStart =>
    { s.flush with hasParams := s.hasParams || !s.hasInitializer }
  | .paramEnd =>
    match s.words with
    | [word] => { s with pendingName := word, words := [] }
    | _ => s.flush
  | _ => s

/-- What a keyword adds to a statement. -/
theorem Statement.take_keyword {t : Token} (hk : t.kind = .keyword) (s : Statement) :
    s.take t
      = if Keyword.isTypeWord t.text then { s.flush with isNested := true }
        else if Keyword.isStructural t.text then
          (Part.ofKeyword? t.text).elim s.flush s.flush.add
        else if startsWith '@' t.text then s.flush
        else if Keyword.isStatementWord t.text then { s.flush with isExecutable := true }
        else s.flush := by
  rw [take, hk]

/-- The report quotes the text of a line. -/
def Event.quotes : Event → Bool
  | .methodUnnamed .. | .fieldIncomplete .. | .unnamedFileStatement .. => true
  | _ => false

namespace Walk.View

/-- The token changes the statement by `c`. -/
structure Gathers (v : View) (t : Token) (c : Change) : Prop where
  code : v.readsCode = true
  notLine : t.kind.isLine = false
  notEnd : t.kind ≠ .statementEnd
  /-- A word that begins a type is in the middle of one. -/
  type : t.kind = .keyword → Keyword.isTypeWord t.text = true → v.inType = true
  executable : (t.kind == .keyword && Keyword.isStatementWord t.text)
    = decide (c = .executable)
  word : ∀ text, c = .word text → t.kind = .symbol ∧ text = t.text
  part : ∀ p, c = .part p → Part.ofKeyword? t.text = some p
  takes : v.inType = true → ∀ s : Statement, s.words = v.statement.words →
    s.change c = s.take t

/-- The tokens of ordinary code that leave the statement alone. -/
inductive Ignores (v : View) (t : Token) (r : Remark) : Prop where
  | mark (kind : t.kind = .symbol) (mark : t.text ∈ commentMarks)
  | name (kind : t.kind = .symbol) (sign : startsWith '@' t.text = true)
      (silent : r = .nothing)
  | arguments (kind : t.kind = .paramStart) (named : v.annotation = .named)
  | sign (kind : t.kind = .sign)

/-- A statement that ends with the text can be read so. -/
def Admits (v : View) (text : String) : Role → Prop
  | .constants => v.awaitsConstants = true
  | .header => v.statement.isHeader = true ∧ text ≠ ";"
  | .dependency _ | .package _ | .unnamed | .loose => v.inType = false
  | .nothing | .field | .method => True

/-- A statement that ends with the text is read by `c`. -/
structure Closes (v : View) (text : String) (c : Closing) : Prop where
  admits : v.Admits text c.role
  parts : c.role ≠ .nothing → v.statement.parts ≠ []
  silent : c.events.any Event.quotes = false
  /-- The first semicolon of an enumeration closes its constants. -/
  done : text = ";" → v.awaitsConstants = true → c.constantsDone = true

/-- The token makes the move. -/
inductive Moves (v : View) (t : Token) : Move → Prop where
  | aside {span : Span} {a : Annotation} {r : Remark} {events : List Event}
      (notNumber : t.kind ≠ .lineNumber)
      (quiet : v.readsCode = true → v.Ignores t r)
      (silent : events.any Event.quotes = false) :
      v.Moves t (.aside span a r events)
  | line (kind : t.kind = .lineNumber) {span : Span} :
      v.Moves t (.line (integer? t.text) span)
  | gather {c : Change} {a : Annotation} {events : List Event}
      (gathers : v.Gathers t c) (silent : events.any Event.quotes = false) :
      v.Moves t (.gather c a events)
  | license {c : Change} (gathers : v.Gathers t c) (kind : t.kind = .keyword)
      (word : t.text = "package") : v.Moves t (.license c)
  | type (code : v.readsCode = true) (kind : t.kind = .keyword)
      (word : Keyword.isTypeWord t.text = true) (fresh : v.inType = false) :
      v.Moves t (.type t.text)
  | closeDoc (kind : t.kind = .symbol) (doc : v.span = .doc) :
      v.Moves t (.closeDoc (!v.inConstants) (!v.inConstants && v.statement.words = []))
  | ends {c : Closing} (code : v.readsCode = true) (kind : t.kind = .statementEnd)
      (closes : v.flush.Closes t.text c) : v.Moves t (.ends c)

theorem Gathers.notNumber {v : View} {t : Token} {c : Change} (h : v.Gathers t c) :
    t.kind ≠ .lineNumber := by
  intro hk
  have hline := h.notLine
  rw [hk] at hline
  cases hline

theorem Ignores.plain {v : View} {t : Token} {r : Remark} (h : v.Ignores t r) :
    t.kind ≠ .keyword ∧ t.kind ≠ .statementEnd := by
  cases h with
  | mark hk | name hk | arguments hk | sign hk =>
      rw [hk]
      decide

/-- The end of a statement in ordinary code can do nothing else. -/
theorem Moves.of_statementEnd {v : View} {t : Token} {m : Move} (h : v.Moves t m)
    (hcode : v.readsCode = true) (hk : t.kind = .statementEnd) :
    ∃ c, m = .ends c ∧ v.flush.Closes t.text c := by
  cases h with
  | ends _ _ hcloses => exact ⟨_, rfl, hcloses⟩
  | aside _ hquiet => exact absurd hk (hquiet hcode).plain.2
  | gather hg => exact absurd hk hg.notEnd
  | license hg => exact absurd hk hg.notEnd
  | line hk' => cases hk.symm.trans hk'
  | type _ hk' => cases hk.symm.trans hk'
  | closeDoc hk' => cases hk.symm.trans hk'

theorem parts_of_passedOver? {s : Statement} (h : s.passedOver? = none) :
    s.parts ≠ [] := by
  intro hparts
  rw [Statement.passedOver?, if_pos hparts] at h
  cases h

theorem silent_of_passedOver? {s : Statement} {events : List Event}
    (h : s.passedOver? = some events) : events.any Event.quotes = false := by
  rw [Statement.passedOver?] at h
  repeat' split at h
  all_goals cases h
  all_goals rfl

theorem admits_fileRole {v : View} (h : v.inType = false) (text : String) :
    v.Admits text v.fileRole := by
  rw [fileRole]
  split
  · cases firstName? v.statement.parts <;> exact h
  · cases firstName? v.statement.parts <;> exact h
  · split
    · exact h
    · split <;> trivial

theorem admits_blockRole (v : View) {text : String} (htext : text ≠ ";") :
    v.Admits text v.blockRole := by
  rw [blockRole]
  split
  · next hheader => exact ⟨hheader, htext⟩
  · split
    · next hawaits => exact hawaits
    · split <;> trivial

theorem closes_semicolon (v : View) : v.Closes ";" v.semicolon := by
  have hparts : ∀ {r : Role}, v.statement.passedOver? = none → r ≠ .nothing →
      v.statement.parts ≠ [] := fun h _ => parts_of_passedOver? h
  rw [semicolon]
  cases hawaits : v.awaitsConstants with
  | true =>
      rw [if_pos rfl, lastConstants]
      cases hpassed : v.statement.passedOver? with
      | some events =>
          exact ⟨trivial, absurd rfl, silent_of_passedOver? hpassed, fun _ _ => rfl⟩
      | none => exact ⟨hawaits, hparts hpassed, rfl, fun _ _ => rfl⟩
  | false =>
      have hdone : ";" = ";" → v.awaitsConstants = true → false = true := fun _ h =>
        hawaits.symm.trans h
      rw [if_neg Bool.false_ne_true]
      cases hpassed : v.statement.passedOver? with
      | some events => exact ⟨trivial, absurd rfl, silent_of_passedOver? hpassed, hdone⟩
      | none =>
          refine ⟨?_, hparts hpassed, rfl, hdone⟩
          dsimp only
          split
          · next hout => exact admits_fileRole (by simpa using hout) ";"
          · split <;> trivial

theorem closes_brace (v : View) {text : String} (htext : text ≠ ";") :
    v.Closes text v.brace := by
  have hdone : text = ";" → v.awaitsConstants = true → false = true := fun h =>
    absurd h htext
  rw [brace]
  cases hpassed : v.statement.passedOver? with
  | some events => exact ⟨trivial, absurd rfl, silent_of_passedOver? hpassed, hdone⟩
  | none =>
      exact ⟨v.admits_blockRole htext, fun _ => parts_of_passedOver? hpassed, rfl, hdone⟩

/-! ### Other tokens -/

section

variable {v : View} {t : Token} {c : Change}

/-- A change that adds no word and no part. -/
theorem Gathers.of_unmarked (hcode : v.readsCode = true) (hline : t.kind.isLine = false)
    (hend : t.kind ≠ .statementEnd)
    (htype : t.kind = .keyword → Keyword.isTypeWord t.text = true → v.inType = true)
    (hexecutable : (t.kind == .keyword && Keyword.isStatementWord t.text)
      = decide (c = .executable))
    (hmarks : c.marks = false)
    (htakes : ∀ s : Statement, s.words = v.statement.words → s.change c = s.take t) :
    v.Gathers t c where
  code := hcode
  notLine := hline
  notEnd := hend
  type := htype
  executable := hexecutable
  word := fun text h => by
    rw [h] at hmarks
    cases hmarks
  part := fun p h => by
    rw [h] at hmarks
    cases hmarks
  takes := fun _ => htakes

theorem Gathers.of_keyword (hk : t.kind = .keyword) (hcode : v.readsCode = true)
    (htype : Keyword.isTypeWord t.text = true → v.inType = true)
    (hexecutable : Keyword.isStatementWord t.text = decide (c = .executable))
    (hmarks : c.marks = false) (htakes : ∀ s : Statement, s.change c = s.take t) :
    v.Gathers t c :=
  .of_unmarked hcode (by rw [hk]; rfl) (by rw [hk]; decide) (fun _ => htype)
    (by rw [hk]; exact hexecutable) hmarks fun s _ => htakes s

/-- A join or a parenthesis. -/
theorem Gathers.of_mark (hk : t.kind ≠ .keyword) (hend : t.kind ≠ .statementEnd)
    (hline : t.kind.isLine = false) (hcode : v.readsCode = true) (hc : c ≠ .executable)
    (hmarks : c.marks = false)
    (htakes : ∀ s : Statement, s.words = v.statement.words → s.change c = s.take t) :
    v.Gathers t c := by
  refine .of_unmarked hcode hline hend (absurd · hk) ?_ hmarks htakes
  rw [beq_eq_false_iff_ne.mpr hk, decide_eq_false hc, Bool.false_and]

theorem moves_codeKeyword (hk : t.kind = .keyword) (hcode : v.readsCode = true) :
    v.Moves t (v.codeKeyword t.text t.line) := by
  rw [codeKeyword]
  split
  · next htype =>
      have hsilent := Keyword.isStatementWord_eq_false (.inl htype)
      split
      · next hin =>
          refine .gather (.of_keyword hk hcode (fun _ => hin) hsilent rfl fun s => ?_) rfl
          rw [Statement.take_keyword hk, if_pos htype]
          rfl
      · next hout => exact .type hcode hk htype (Bool.eq_false_iff.mpr hout)
  · next htype =>
      have hnot : Keyword.isTypeWord t.text = true → v.inType = true := fun h =>
        absurd h htype
      split
      · next hstructural =>
          have hsilent := Keyword.isStatementWord_eq_false (.inr (.inl hstructural))
          have htakes : ∀ s : Statement, s.take t
              = (Part.ofKeyword? t.text).elim s.flush s.flush.add := fun s => by
            rw [Statement.take_keyword hk, if_neg htype, if_pos hstructural]
          have hgathers : v.Gathers t ((Part.ofKeyword? t.text).elim .flush .part) := by
            cases hp : Part.ofKeyword? t.text with
            | none =>
                refine .of_keyword hk hcode hnot hsilent rfl fun s => ?_
                rw [htakes, hp]
                rfl
            | some p =>
                refine ⟨hcode, by rw [hk]; rfl, by rw [hk]; decide, fun _ => hnot,
                  by rw [hk]; exact hsilent, fun _ h => (by cases h),
                  fun q hq => by cases hq; exact hp, fun _ s _ => ?_⟩
                rw [htakes, hp]
                rfl
          split
          · next hpackage => exact .license hgathers hk hpackage
          · exact .gather hgathers rfl
      · next hstructural =>
          have htakes : ∀ s : Statement, s.take t = if startsWith '@' t.text then s.flush
              else if Keyword.isStatementWord t.text then { s.flush with isExecutable := true }
              else s.flush := fun s => by
            rw [Statement.take_keyword hk, if_neg htype, if_neg hstructural]
          split
          · next hat =>
              have hsilent := Keyword.isStatementWord_eq_false (.inr (.inr hat))
              have hflush : v.Gathers t .flush :=
                .of_keyword hk hcode hnot hsilent rfl fun s => by
                  rw [htakes, if_pos hat]
                  rfl
              split <;> exact .gather hflush rfl
          · next hat =>
              split
              · next hword =>
                  refine .gather (.of_keyword hk hcode hnot hword rfl fun s => ?_) rfl
                  rw [htakes, if_neg hat, if_pos hword]
                  rfl
              · next hword =>
                  refine .gather (.of_keyword hk hcode hnot (Bool.eq_false_iff.mpr hword) rfl
                    fun s => ?_) rfl
                  rw [htakes, if_neg hat, if_neg hword]
                  rfl

/-- Outside ordinary code a token is passed over. -/
theorem Moves.hidden (hcode : v.readsCode ≠ true) (hline : t.kind ≠ .lineNumber)
    {span : Span} {a : Annotation} {r : Remark} {events : List Event}
    (hsilent : events.any Event.quotes = false) : v.Moves t (.aside span a r events) :=
  .aside hline (fun h => absurd h hcode) hsilent

theorem readsCode_iff_span (ha : ∀ d, v.annotation ≠ .arguments d) :
    v.readsCode = true ↔ v.span = .code := by
  rw [readsCode, Bool.and_eq_true, beq_iff_eq]
  cases hpassing : v.annotation with
  | arguments d => exact absurd hpassing (ha d)
  | absent | named => exact and_iff_left rfl

/-! Outside the arguments of an annotation the span tells ordinary code from the rest. -/

variable (hspan : v.readsCode = true ↔ v.span = .code)

include hspan

theorem moves_keyword (hk : t.kind = .keyword) : v.Moves t (v.keyword t.text t.line) := by
  have hstay : v.span ≠ .code → ∀ {a : Annotation} {r : Remark},
      v.Moves t (.aside v.span a r []) := fun hs =>
    .hidden (mt hspan.mp hs) (by rw [hk]; decide) rfl
  rw [keyword]
  split
  · next hs => exact hstay (by rw [hs]; decide)
  · next hs => exact hstay (by rw [hs]; decide)
  · next hs => exact hstay (by rw [hs]; decide)
  · next hs => exact moves_codeKeyword hk (hspan.mpr hs)

theorem moves_codeSymbol (hk : t.kind = .symbol) (hs : v.span = .code) :
    v.Moves t (v.codeSymbol t.text) := by
  have hline : t.kind ≠ .lineNumber := by rw [hk]; decide
  have hmark : t.text ∈ commentMarks → ∀ {span : Span} {r : Remark},
      v.Moves t (.aside span .absent r []) := fun hmark =>
    .aside hline (fun _ => .mark hk hmark) rfl
  rw [codeSymbol]
  split
  · next hdoc => exact hmark (by rw [hdoc]; decide)
  · split
    · next hblock => exact hmark (by rw [hblock]; decide)
    · split
      · next hdash => exact hmark (by rw [hdash]; decide)
      · split
        · next hat => exact .aside hline (fun _ => .name hk hat rfl) rfl
        · next hat =>
            refine .gather ⟨hspan.mpr hs, by rw [hk]; rfl, by rw [hk]; decide,
              fun h => (by cases hk.symm.trans h), by rw [hk]; rfl,
              fun _ h => ⟨hk, (Change.word.inj h).symm⟩, fun _ h => (by cases h),
              fun _ s _ => ?_⟩ rfl
            rw [Statement.take, hk]
            exact (if_neg hat).symm

theorem moves_symbol (hk : t.kind = .symbol) : v.Moves t (v.symbol t.text) := by
  have hline : t.kind ≠ .lineNumber := by rw [hk]; decide
  have hstay : v.span ≠ .code → ∀ {a : Annotation} {r : Remark},
      v.Moves t (.aside v.span a r []) := fun hs => .hidden (mt hspan.mp hs) hline rfl
  rw [symbol]
  split
  · next hs => exact hstay (by rw [hs]; decide)
  · next hdash =>
      split
      · next hclose =>
          have hmark : ∀ {r : Remark}, v.Ignores t r := .mark hk (by rw [hclose]; decide)
          rw [closeComment]
          split
          · next hs => exact .closeDoc hk hs
          · exact .aside hline (fun _ => hmark) rfl
          · exact .aside hline (fun _ => hmark) rfl
          · exact .aside hline (fun _ => hmark) rfl
      · split
        · next hs => exact hstay (by rw [hs]; decide)
        · next hs => exact hstay (by rw [hs]; decide)
        · next hdoc hblock =>
            have hs : v.span = .code := by
              cases hs : v.span with
              | code => rfl
              | doc => exact absurd hs hdoc
              | blockComment => exact absurd hs hblock
              | lineComment => exact absurd hs hdash
            exact moves_codeSymbol hspan hk hs

theorem moves_join (hk : t.kind = .join) :
    v.Moves t (if v.span = .code then .gather .flush v.annotation [] else v.stay []) := by
  split
  · next hs =>
      refine .gather (.of_mark (by rw [hk]; decide) (by rw [hk]; decide) (by rw [hk]; rfl)
        (hspan.mpr hs) (by decide) rfl fun s _ => ?_) rfl
      rw [Statement.take, hk]
      rfl
  · next hs => exact .hidden (mt hspan.mp hs) (by rw [hk]; decide) rfl

theorem moves_paramStart (hk : t.kind = .paramStart) : v.Moves t v.paramStart := by
  rw [paramStart]
  split
  · next hs => exact .hidden (mt hspan.mp hs) (by rw [hk]; decide) rfl
  · next hs =>
      split
      · next hnamed =>
          exact .aside (by rw [hk]; decide) (fun _ => .arguments hk hnamed) rfl
      · refine .gather (.of_mark (by rw [hk]; decide) (by rw [hk]; decide)
          (by rw [hk]; rfl) (hspan.mpr (Decidable.not_not.mp hs)) (by decide) rfl fun s _ => ?_) rfl
        rw [Statement.take, hk]
        rfl

theorem moves_paramEnd (hk : t.kind = .paramEnd) : v.Moves t v.paramEnd := by
  rw [paramEnd]
  split
  · next hs => exact .hidden (mt hspan.mp hs) (by rw [hk]; decide) rfl
  · next hs =>
      have hmark : ∀ {c : Change}, c ≠ .executable → c.marks = false →
          (∀ s : Statement, s.words = v.statement.words → s.change c = s.take t) →
          v.Gathers t c :=
        .of_mark (by rw [hk]; decide) (by rw [hk]; decide) (by rw [hk]; rfl)
          (hspan.mpr (Decidable.not_not.mp hs))
      split
      · next word hlone =>
          refine .gather (hmark (fun h => by cases h) rfl fun s hwords => ?_) rfl
          rw [Statement.take, hk, hwords, hlone]
          rfl
      · next hlone =>
          refine .gather (hmark (by decide) rfl fun s hwords => ?_) rfl
          rw [Statement.take, hk, hwords]
          dsimp only
          split
          · next word hword => exact absurd hword (hlone word)
          · rfl

theorem moves_statementEnd (hk : t.kind = .statementEnd) :
    v.Moves t (v.statementEnd t.text t.line) := by
  rw [statementEnd]
  split
  · next hs => exact .hidden (mt hspan.mp hs) (by rw [hk]; decide) rfl
  · next hs =>
      refine .ends (hspan.mpr (Decidable.not_not.mp hs)) hk ?_
      split
      · next htext =>
          rw [htext]
          exact v.flush.closes_semicolon
      · next htext => exact v.flush.closes_brace htext

theorem moves_plain : v.Moves t (v.plainMove t) := by
  rw [plainMove]
  cases hk : t.kind with
  | keyword => exact moves_keyword hspan hk
  | symbol => exact moves_symbol hspan hk
  | join => exact moves_join hspan hk
  | paramStart => exact moves_paramStart hspan hk
  | paramEnd => exact moves_paramEnd hspan hk
  | statementEnd => exact moves_statementEnd hspan hk
  | lineNumber => exact .line hk
  | sign => exact .aside (by rw [hk]; decide) (fun _ => .sign hk) rfl

end

/-- Every token makes its move under the conditions of the move. -/
theorem moves (v : View) (t : Token) : v.Moves t (v.move t) := by
  rw [move]
  cases ha : v.annotation with
  | absent | named =>
      exact moves_plain (readsCode_iff_span fun d hd => by cases ha.symm.trans hd)
  | arguments depth =>
      have hquiet : v.readsCode ≠ true := by
        rw [readsCode, ha, Bool.and_false]
        decide
      dsimp only
      cases hk : t.kind with
      | lineNumber =>
          rw [if_pos (show TokenKind.isLine .lineNumber = true from rfl), plainMove, hk]
          exact .line hk
      | sign =>
          rw [if_pos (show TokenKind.isLine .sign = true from rfl), plainMove, hk]
          exact .hidden hquiet (by rw [hk]; decide) rfl
      | _ => exact .hidden hquiet (by rw [hk]; decide) rfl

end Walk.View

namespace Walk

/-- **What a step can do**: it makes one move, and under the conditions of it. -/
theorem exists_move (w : Walk) (t : Token) :
    ∃ m, w.view.Moves t m ∧ w.step t = w.take m :=
  ⟨w.view.move t, w.view.moves t, w.step_eq t⟩

/-! ## Two walks with the same view -/

theorem refusal?_of_view {w v : Walk} (h : v.view = w.view) (t : Token) :
    v.refusal? t = w.refusal? t := by
  have hcode : v.readsCode = w.readsCode := congrArg View.readsCode h
  rw [refusal?, refusal?, hcode]

/-- Related walks have the same view, and every move keeps them related. -/
structure Bisimulation (R : Walk → Walk → Prop) : Prop where
  view {w v : Walk} : R w v → v.view = w.view
  take {w v : Walk} (m : Move) : R w v → R (w.take m).value (v.take m).value

namespace Bisimulation

variable {R : Walk → Walk → Prop} {w v : Walk} (hR : Bisimulation R)

include hR

/-- **A step keeps walks related.** -/
theorem step (h : R w v) (t : Token) : R (w.step t).value (v.step t).value := by
  rw [step_eq, step_eq, hR.view h]
  exact hR.take _ h

/-- Two related walks are refused the same token, or end related. -/
theorem run (h : R w v) (ts : List Token) :
    (∃ f, (w.run ts).value = .error f ∧ (v.run ts).value = .error f)
      ∨ ∃ w' v', (w.run ts).value = .ok w' ∧ (v.run ts).value = .ok v' ∧ R w' v' := by
  induction ts generalizing w v with
  | nil => exact .inr ⟨w, v, rfl, rfl, h⟩
  | cons t ts ih =>
      rw [Walk.run, Walk.run, refusal?_of_view (hR.view h) t]
      cases w.refusal? t with
      | some f => exact .inl ⟨f, rfl, rfl⟩
      | none => exact ih (hR.step h t)

end Bisimulation

end Walk

end JavaOutline
