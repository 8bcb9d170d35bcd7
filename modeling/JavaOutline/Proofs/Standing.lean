import JavaOutline.Outline
import JavaOutline.Proofs.Layout
import JavaOutline.Proofs.LineNumber
import JavaOutline.Proofs.Moves

/-! # Walks, line numbers aside

    A walk keeps the number and the text of lines for each declaration.  All
    else about it in ordinary code is its `Standing`: the draft without line
    numbers and line texts, the statement so far, and a few flags.  `Takes`
    says how a list of bare tokens leads from one standing to another, whatever
    tokens of lines stand between them, and the lemmas below say it for each
    word, each mark and each way a statement can end. -/

namespace JavaOutline

/-! ## Declarations without line numbers -/

/-- A draft without its line text and with less of its members. -/
def Draft.erase (f : Field → Field) (m : Method → Method) (d : Draft) : Draft :=
  { d with
    signature := ""
    fields := d.fields.map f
    methods := d.methods.map m }

/-- A declaration without its line text and with less of its members. -/
def Declaration.erase (f : Field → Field) (m : Method → Method)
    (d : Declaration) : Declaration :=
  { d with
    signature := ""
    fields := d.fields.map f
    methods := d.methods.map m }

theorem Draft.toClass_value (d : Draft) :
    d.toClass.value
      = d.withShape (.classShape (d.parents.headD "") d.interfaces) := by
  rw [toClass]
  split <;> rfl

/-- The shape of the declaration that a draft describes. -/
def Draft.shape (d : Draft) : Shape :=
  match d.kind with
  | some .interfaceKind => .interfaceShape d.parents
  | some .enumKind => .enumShape d.interfaces d.constants
  | _ => .classShape (d.parents.headD "") d.interfaces

theorem Draft.finish_value (d : Draft) :
    d.finish.value = d.withShape d.shape := by
  rw [finish, shape]
  cases d.kind with
  | none => exact d.toClass_value
  | some k =>
      cases k with
      | classKind => exact d.toClass_value
      | interfaceKind => rfl
      | enumKind => rfl

/-- The end of a draft has no regard for what its members are. -/
theorem Draft.finish_erase (f : Field → Field) (m : Method → Method)
    (d : Draft) : (d.erase f m).finish.value = d.finish.value.erase f m := by
  rw [finish_value, finish_value]
  rfl

/-- Reading a header commutes with a change that no part of it can see. -/
theorem Draft.fold_headerStep_map {g : Draft → Draft}
    (hg : ∀ (d : Draft) (slot : HeaderSlot) (p : Part),
      (headerStep (g d, slot) p).value
        = (g (headerStep (d, slot) p).value.1, (headerStep (d, slot) p).value.2))
    (ps : List Part) (d : Draft) (slot : HeaderSlot) :
    (Logged.fold headerStep (g d, slot) ps).value
      = (g (Logged.fold headerStep (d, slot) ps).value.1,
          (Logged.fold headerStep (d, slot) ps).value.2) := by
  induction ps generalizing d slot with
  | nil => rfl
  | cons p ps ih =>
      rw [Logged.fold, Logged.fold, Logged.value_bind, Logged.value_bind, hg, ih]

theorem Draft.fold_headerStep_erase (f : Field → Field) (m : Method → Method)
    (ps : List Part) (d : Draft) (slot : HeaderSlot) :
    (Logged.fold headerStep (d.erase f m, slot) ps).value
      = ((Logged.fold headerStep (d, slot) ps).value.1.erase f m,
          (Logged.fold headerStep (d, slot) ps).value.2) := by
  refine fold_headerStep_map (fun d slot p => ?_) ps d slot
  rw [headerStep, headerStep]
  cases p.kind with
  | identifier => cases slot <;> rfl
  | _ => rfl

theorem Draft.applyHeader_erase (f : Field → Field) (m : Method → Method)
    (d : Draft) (ps : List Part) (doc : Doc) (signature : String) :
    (d.applyHeader ps doc signature).value.erase f m
      = ((d.erase f m).applyHeader ps doc "").value := by
  rw [applyHeader, applyHeader, Logged.value_bind, Logged.value_bind,
    fold_headerStep_erase]
  rfl

def Field.unplaced (f : Field) : Field := { f with line := 0, signature := "" }

def Method.unplaced (m : Method) : Method := { m with line := 0, signature := "" }

/-- A draft without the numbers and the texts of lines. -/
def Draft.unplaced (d : Draft) : Draft :=
  { d with
    signature := ""
    fields := d.fields.map Field.unplaced
    methods := d.methods.map Method.unplaced }

/-- A declaration without the numbers and the texts of lines. -/
def Declaration.unplaced (d : Declaration) : Declaration :=
  { d with
    signature := ""
    fields := d.fields.map Field.unplaced
    methods := d.methods.map Method.unplaced }

theorem Draft.finish_unplaced (d : Draft) :
    d.unplaced.finish.value = d.finish.value.unplaced :=
  d.finish_erase Field.unplaced Method.unplaced

/-! ## Standings -/

/-- Where a walk in ordinary code stands, line numbers aside. -/
structure Standing where
  draft : Draft := {}
  /-- The constants of the enumeration are complete. -/
  constantsDone : Bool := false
  /-- The last block comment. -/
  headerComment : String := ""
  statement : Statement := {}
  deriving DecidableEq, Repr

/-- The walk is in ordinary code, past any annotation, and stands at `x`. -/
structure Walk.StandsAt (w : Walk) (x : Standing) : Prop where
  draft : w.draft.unplaced = x.draft
  constantsDone : w.constantsDone = x.constantsDone
  headerComment : w.headerComment = x.headerComment
  statement : w.statement = x.statement
  span : w.span = .code
  annotation : w.annotation = .absent

/-- Where a walk in ordinary code stands. -/
def Walk.standing (w : Walk) : Standing :=
  ⟨w.draft.unplaced, w.constantsDone, w.headerComment, w.statement⟩

namespace Walk.StandsAt

variable {w : Walk} {x : Standing}

theorem step_eq (h : w.StandsAt x) (t : Token) : w.step t = w.plainStep t := by
  rw [step, h.annotation]

theorem kind (h : w.StandsAt x) : w.draft.kind = x.draft.kind := by
  rw [← h.draft]
  rfl

/-- A change to the statement, and to where the walk is. -/
theorem withStatement (h : w.StandsAt x) (f : Statement → Statement)
    (c : Cursor) :
    ({ w with statement := f w.statement, cursor := c } : Walk).StandsAt
      { x with statement := f x.statement } :=
  ⟨h.draft, h.constantsDone, h.headerComment, congrArg f h.statement, h.span,
    h.annotation⟩

/-- The tokens that keep track of lines do not move a walk. -/
theorem line (h : w.StandsAt x) {t : Token} (ht : t.kind.isLine = true) :
    (w.step t).value.StandsAt x := by
  rw [h.step_eq, plainStep]
  cases hk : t.kind with
  | sign => exact h
  | lineNumber =>
      refine ⟨h.draft, h.constantsDone, h.headerComment, h.statement, ?_,
        h.annotation⟩
      show (if w.span = .lineComment then Span.code else w.span) = .code
      rw [h.span]
      rfl
  | _ =>
      rw [hk] at ht
      cases ht

theorem lines (h : w.StandsAt x) {ts : List Token}
    (hts : ∀ t ∈ ts, t.kind.isLine = true) : (w.steps ts).StandsAt x := by
  induction ts generalizing w with
  | nil => exact h
  | cons t ts ih =>
      exact ih (h.line (hts t (by simp))) fun u hu => hts u (by simp [hu])

end Walk.StandsAt

/-! ## Tokens and the lines between them -/

theorem bareTokens_eq_nil_iff {ts : List Token} :
    bareTokens ts = [] ↔ ∀ t ∈ ts, t.kind.isLine = true := by
  simp [bareTokens]

theorem exists_of_bareTokens_append {ts us vs : List Token}
    (h : bareTokens ts = us ++ vs) :
    ∃ ts1 ts2, ts = ts1 ++ ts2 ∧ bareTokens ts1 = us ∧ bareTokens ts2 = vs := by
  obtain ⟨l1, l2, hl, hus, hvs⟩ := List.map_eq_append_iff.mp h
  obtain ⟨ts1, ts2, rfl, h1, h2⟩ := List.filter_eq_append_iff.mp hl
  exact ⟨ts1, ts2, rfl, by rw [bareTokens, h1, hus], by rw [bareTokens, h2, hvs]⟩

theorem exists_of_bareTokens_cons {ts us : List Token} {u : Token}
    (h : bareTokens ts = u :: us) :
    ∃ ts1 t ts2, ts = ts1 ++ t :: ts2 ∧ (∀ v ∈ ts1, v.kind.isLine = true)
      ∧ t.bare = u ∧ bareTokens ts2 = us := by
  obtain ⟨t, l, hfilter, ht, hl⟩ := List.map_eq_cons_iff.mp h
  obtain ⟨ts1, ts2, rfl, h1, -, h2⟩ := List.filter_eq_cons_iff.mp hfilter
  refine ⟨ts1, t, ts2, rfl, fun v hv => ?_, ht, by rw [bareTokens, h2, hl]⟩
  simpa using h1 v hv

/-! ## What tokens do -/

/-- The bare tokens `us` lead from `x` to `y`, whatever tokens of lines stand
    between them. -/
def Takes (x : Standing) (us : List Token) (y : Standing) : Prop :=
  ∀ (w : Walk) (ts : List Token), w.StandsAt x → bareTokens ts = us →
    (w.steps ts).StandsAt y

namespace Takes

variable {x y z : Standing} {us vs : List Token}

theorem nil : Takes x [] x := by
  intro w ts hw hts
  exact hw.lines (bareTokens_eq_nil_iff.mp hts)

theorem append (h1 : Takes x us y) (h2 : Takes y vs z) :
    Takes x (us ++ vs) z := by
  intro w ts hw hts
  obtain ⟨ts1, ts2, rfl, hus, hvs⟩ := exists_of_bareTokens_append hts
  rw [Walk.steps_append]
  exact h2 _ ts2 (h1 w ts1 hw hus) hvs

/-- A single token, on any line. -/
theorem single {u : Token} (h : ∀ (w : Walk) (n : Int), w.StandsAt x →
    (w.plainStep ⟨u.kind, u.text, n⟩).value.StandsAt y) : Takes x [u] y := by
  intro w ts hw hts
  obtain ⟨ts1, t, ts2, rfl, hlines, ht, hrest⟩ := exists_of_bareTokens_cons hts
  have hw1 := hw.lines hlines
  have hstep := h _ t.line hw1
  rw [← ht] at hstep
  rw [Walk.steps_append]
  show (Walk.steps ((_ : Walk).step t).value ts2).StandsAt y
  rw [hw1.step_eq]
  exact Walk.StandsAt.lines hstep (bareTokens_eq_nil_iff.mp hrest)

theorem cons {u : Token} (h1 : Takes x [u] y) (h2 : Takes y us z) :
    Takes x (u :: us) z :=
  h1.append h2

end Takes

/-! ### Words -/

/-- A word that opens no comment, closes none and is no annotation. -/
structure PlainText (w : String) : Prop where
  closer : w ≠ "*/"
  head : ∀ c ∈ w.toList.head?, c ≠ '/' ∧ c ≠ '@'

/-- A word that is nothing else joins the statement. -/
theorem Walk.symbol_word {w : Walk} {word : String} (hs : w.span = .code)
    (hc : word ≠ "*/" ∧ word ≠ "/**" ∧ word ≠ "/*" ∧ word ≠ "//")
    (hat : Text.startsWith '@' word = false) :
    (w.symbol word).value = { w.addWord word with annotation := .absent } := by
  rw [symbol, hs, if_neg (by decide), if_neg hc.1]
  show w.codeSymbol word = _
  rw [codeSymbol, if_neg hc.2.1, if_neg hc.2.2.1, if_neg hc.2.2.2, hat]
  rfl

theorem PlainText.symbol {word : String} (h : PlainText word) {w : Walk}
    (hs : w.span = .code) :
    (w.symbol word).value = { w.addWord word with annotation := .absent } := by
  have hne : ∀ s : String, s.toList.head? = some '/' → word ≠ s := by
    rintro s hs rfl
    exact (h.head '/' hs).1 rfl
  have hat : Text.startsWith '@' word = false := by
    rw [Text.startsWith, beq_eq_false_iff_ne]
    intro hw
    exact (h.head '@' hw).2 rfl
  exact Walk.symbol_word hs ⟨h.closer, hne _ rfl, hne _ rfl, hne _ rfl⟩ hat

namespace Takes

variable {x y : Standing}

/-- A word joins the pending words. -/
theorem symbol {word : String} (hw : PlainText word) :
    Takes x [⟨.symbol, word, 0⟩]
      { x with statement := x.statement.addWord word } := by
  refine .single fun w n h => ?_
  show (w.symbol word).value.StandsAt _
  rw [hw.symbol h.span]
  refine ⟨h.draft, h.constantsDone, h.headerComment, ?_, h.span, rfl⟩
  show w.statement.addWord word = _
  rw [h.statement]

/-- A keyword ends the pending words. -/
theorem keyword {word : String}
    (hy : ∀ (w : Walk) (n : Int),
      w.StandsAt { x with statement := x.statement.flush } →
      (w.codeKeyword word n).value.StandsAt y) :
    Takes x [⟨.keyword, word, 0⟩] y := by
  refine .single fun w n h => ?_
  show (w.keyword word n).value.StandsAt y
  rw [Walk.keyword, h.span]
  refine hy _ n ⟨h.draft, h.constantsDone, h.headerComment, ?_, h.span, rfl⟩
  show w.statement.flush = _
  rw [h.statement]

/-- A keyword that is a part of the statement. -/
theorem partWord {word : String} {p : Part}
    (ht : Keyword.isTypeWord word = false)
    (hs : Keyword.isStructural word = true)
    (hp : Part.ofKeyword? word = some p)
    (hc : word = "package" → x.headerComment = "") :
    Takes x [⟨.keyword, word, 0⟩]
      { x with statement := x.statement.flush.add p } := by
  refine .keyword fun w n h => ?_
  have hlicense : ¬ (word = "package" ∧ w.headerComment ≠ "") := by
    rintro ⟨hword, hne⟩
    exact hne (h.headerComment.trans (hc hword))
  rw [Walk.codeKeyword, ht, hs]
  show (w.structuralKeyword word).StandsAt _
  rw [Walk.structuralKeyword]
  simp only [if_neg hlicense, hp]
  exact h.withStatement (·.add p) w.cursor.mark

/-- The keyword of the file's type. -/
theorem typeWord (k : TypeKind) (hk : x.draft.kind = none) :
    Takes x [⟨.keyword, k.word, 0⟩]
      { x with
        draft := { x.draft with kind := some k }
        statement := { x.statement.flush with
          isHeader := true }.add ⟨.typeWord, k.word⟩ } := by
  refine .keyword fun w n h => ?_
  have htype : Keyword.isTypeWord k.word = true := by cases k <;> decide
  have hin : w.inType = false := by rw [Walk.inType, h.kind, hk]; rfl
  rw [Walk.codeKeyword, htype]
  show (w.typeKeyword k.word n).value.StandsAt _
  rw [Walk.typeKeyword, hin, TypeKind.ofWord?_word]
  refine ⟨?_, h.constantsDone, h.headerComment, ?_, h.span, h.annotation⟩
  · show ({ w.draft with kind := some k } : Draft).unplaced = _
    rw [← h.draft]
    rfl
  · show ({ w.statement with isHeader := true } : Statement).add _ = _
    rw [h.statement]

/-- The keyword of a type inside the file's type. -/
theorem nestedWord (k : TypeKind) (hk : x.draft.kind.isSome = true) :
    Takes x [⟨.keyword, k.word, 0⟩]
      { x with statement := { x.statement.flush with isNested := true } } := by
  refine .keyword fun w n h => ?_
  have htype : Keyword.isTypeWord k.word = true := by cases k <;> decide
  have hin : w.inType = true := by rw [Walk.inType, h.kind, hk]
  rw [Walk.codeKeyword, htype]
  show (w.typeKeyword k.word n).value.StandsAt _
  rw [Walk.typeKeyword, hin]
  exact h.withStatement (fun s => { s with isNested := true }) w.cursor

/-! ### Marks -/

theorem comma :
    Takes x [⟨.join, ",", 0⟩] { x with statement := x.statement.flush } := by
  refine .single fun w n h => ?_
  show (if w.span = .code then w.flush else w).StandsAt _
  rw [if_pos h.span]
  exact h.withStatement Statement.flush w.cursor

theorem openParen :
    Takes x [⟨.paramStart, "(", 0⟩]
      { x with
        statement := { x.statement.flush with
          hasParams := x.statement.hasParams || !x.statement.hasInitializer } } := by
  refine .single fun w n h => ?_
  show w.paramStart.StandsAt _
  have hspan : ¬ w.span ≠ .code := fun hne => hne h.span
  have hann : w.annotation ≠ .named := by rw [h.annotation]; decide
  rw [Walk.paramStart, if_neg hspan, if_neg hann]
  exact h.withStatement (fun s => { s.flush with
    hasParams := s.hasParams || !s.hasInitializer }) w.cursor

/-- A closing parenthesis after other than one word. -/
theorem closeParen (hw : ∀ word, x.statement.words ≠ [word]) :
    Takes x [⟨.paramEnd, ")", 0⟩] { x with statement := x.statement.flush } := by
  refine .single fun w n h => ?_
  show w.paramEnd.StandsAt _
  have hspan : ¬ w.span ≠ .code := fun hne => hne h.span
  rw [Walk.paramEnd, if_neg hspan]
  split
  · next word hword =>
      rw [h.statement] at hword
      exact absurd hword (hw word)
  · exact h.withStatement Statement.flush w.cursor

/-- A closing parenthesis after a lone word. -/
theorem closeParen_word {word : String} (hw : x.statement.words = [word]) :
    Takes x [⟨.paramEnd, ")", 0⟩]
      { x with
        statement := { x.statement with pendingName := word, words := [] } } := by
  refine .single fun w n h => ?_
  show w.paramEnd.StandsAt _
  have hspan : ¬ w.span ≠ .code := fun hne => hne h.span
  have hwords : w.statement.words = [word] := by rw [h.statement, hw]
  rw [Walk.paramEnd, if_neg hspan, hwords]
  exact h.withStatement
    (fun s => { s with pendingName := word, words := [] }) w.cursor

end Takes

/-! ### The ends of statements -/

namespace Statement

/-- The statement is not passed over. -/
structure Kept (s : Statement) : Prop where
  parts : s.parts ≠ []
  nested : s.isNested = false
  executable : s.isExecutable = false

/-- The method that a statement declares, line numbers aside. -/
def method? (s : Statement) : Option Method :=
  (Method.ofParts? s.parts s.doc 0 "" s.pendingName).value

/-- The field that a statement declares, line numbers aside. -/
def field? (s : Statement) : Option Field :=
  (Field.ofParts? s.parts 0 "").value

theorem method?_eq (s : Statement) (line : Int) (signature : String) :
    (Method.ofParts? s.parts s.doc line signature s.pendingName).value.map
      Method.unplaced = s.method? := by
  rw [method?, Method.ofParts?, Method.ofParts?, Logged.value_bind,
    Logged.value_bind]
  generalize (Logged.fold MethodReading.step {} s.parts).value = r
  by_cases hname : r.finalName s.pendingName = "" ∧ ¬ r.isConstructor
  · simp only [if_pos hname]
    rfl
  · simp only [if_neg hname]
    rfl

theorem field?_eq (s : Statement) (line : Int) (signature : String) :
    (Field.ofParts? s.parts line signature).value.map Field.unplaced
      = s.field? := by
  rw [field?, Field.ofParts?, Field.ofParts?, Logged.value_bind,
    Logged.value_bind]
  split <;> rfl

end Statement

theorem Draft.applyHeader_unplaced (d : Draft) (ps : List Part) (doc : Doc)
    (signature : String) :
    (d.applyHeader ps doc signature).value.unplaced
      = (d.unplaced.applyHeader ps doc "").value :=
  d.applyHeader_erase Field.unplaced Method.unplaced ps doc signature

namespace Standing

/-- The pending words have become parts. -/
def flush (x : Standing) : Standing := { x with statement := x.statement.flush }

/-- A statement has ended with the draft `d`, and a new one starts. -/
def next (x : Standing) (d : Draft) : Standing :=
  { x with draft := d, statement := {} }

/-- The constants of an enumeration are still to come. -/
def awaitsConstants (x : Standing) : Bool :=
  x.draft.kind == some .enumKind && !x.constantsDone

/-- The draft with the constants that the statement lists. -/
def withConstants (x : Standing) : Draft :=
  { x.draft with
    constants := x.draft.constants
      ++ (EnumConstant.ofParts x.draft.constants.length x.statement.parts).value }

/-- The draft with the method that the statement declares. -/
def withMethod (x : Standing) : Draft :=
  { x.draft with methods := x.draft.methods ++ x.statement.method?.toList }

/-- The draft with the field that the statement declares. -/
def withField (x : Standing) : Draft :=
  { x.draft with fields := x.draft.fields ++ x.statement.field?.toList }

/-- The draft with the header that the statement is. -/
def withHeader (x : Standing) : Draft :=
  (x.draft.applyHeader x.statement.parts x.statement.doc "").value

end Standing

namespace Walk.StandsAt

variable {w : Walk} {x : Standing}

theorem awaitsConstants (h : w.StandsAt x) :
    w.awaitsConstants = x.awaitsConstants := by
  rw [Walk.awaitsConstants, Standing.awaitsConstants, h.kind, h.constantsDone]

theorem inType (h : w.StandsAt x) : w.inType = x.draft.kind.isSome := by
  rw [Walk.inType, h.kind]

theorem addMethod (h : w.StandsAt x) :
    w.addMethod.value.StandsAt { x with draft := x.withMethod } := by
  refine ⟨?_, h.constantsDone, h.headerComment, h.statement, h.span, h.annotation⟩
  rw [Standing.withMethod, ← h.draft, ← h.statement,
    ← w.statement.method?_eq w.cursor.startLine w.cursor.signature]
  show Draft.unplaced { w.draft with methods := _ } = _
  simp only [Draft.unplaced, List.map_append, Option.toList_map]

theorem addField (h : w.StandsAt x) :
    w.addField.value.StandsAt { x with draft := x.withField } := by
  refine ⟨?_, h.constantsDone, h.headerComment, h.statement, h.span, h.annotation⟩
  rw [Standing.withField, ← h.draft, ← h.statement,
    ← w.statement.field?_eq w.cursor.startLine w.cursor.signature]
  show Draft.unplaced { w.draft with fields := _ } = _
  simp only [Draft.unplaced, List.map_append, Option.toList_map]

theorem addConstants (h : w.StandsAt x) :
    w.addConstants.value.StandsAt { x with draft := x.withConstants } := by
  refine ⟨?_, h.constantsDone, h.headerComment, h.statement, h.span, h.annotation⟩
  rw [Standing.withConstants, ← h.draft, ← h.statement]
  rfl

theorem applyHeader (h : w.StandsAt x) :
    w.applyHeader.value.StandsAt { x with draft := x.withHeader } := by
  refine ⟨?_, h.constantsDone, h.headerComment, h.statement, h.span, h.annotation⟩
  rw [Standing.withHeader, ← h.draft, ← h.statement]
  exact Draft.applyHeader_unplaced _ _ _ _

/-- A statement that is kept is not passed over. -/
theorem skips (h : w.StandsAt x) (hk : x.statement.Kept) :
    w.skips.value = false := by
  rw [Walk.skips, h.statement, if_neg hk.parts, hk.nested, hk.executable]
  rfl

/-- The constants of a statement, which may be empty. -/
theorem constants (h : w.StandsAt x) (hn : x.statement.isNested = false)
    (hx : x.statement.isExecutable = false) :
    (if w.skips.value then pure w else w.addConstants).value.StandsAt
      { x with draft := x.withConstants } := by
  by_cases hparts : x.statement.parts = []
  · have hskip : w.skips.value = true := by
      rw [Walk.skips, h.statement, if_pos hparts]
      rfl
    have hnone : x.withConstants = x.draft := by
      rw [Standing.withConstants, hparts]
      exact congrArg (fun cs => { x.draft with constants := cs })
        (List.append_nil x.draft.constants)
    rw [hskip, hnone]
    exact h
  · rw [h.skips ⟨hparts, hn, hx⟩]
    exact h.addConstants

end Walk.StandsAt

namespace Takes

variable {x : Standing} {d : Draft}

/-- The end of a statement ends the pending words, and a new statement starts
    after it. -/
theorem statementEnd {text : String} (b : Bool)
    (hy : ∀ w : Walk, w.StandsAt x.flush →
      (if text = ";" then w.endStatement else w.beginBlock).value.StandsAt
        { x.flush with draft := d, constantsDone := b }) :
    Takes x [⟨.statementEnd, text, 0⟩] { x.next d with constantsDone := b } := by
  refine .single fun w n h => ?_
  have hspan : ¬ w.span ≠ .code := fun hne => hne h.span
  have hend := hy w.flush (h.withStatement Statement.flush w.cursor)
  show (w.statementEnd text n).value.StandsAt _
  rw [Walk.statementEnd, if_neg hspan]
  split
  · next htext =>
      rw [if_pos htext] at hend
      exact hend.withStatement (fun _ => {}) _
  · next htext =>
      rw [if_neg htext] at hend
      exact hend.withStatement (fun _ => {}) _

/-- A declaration of the file's type that ends with a semicolon. -/
theorem semicolon_member (hk : x.statement.flush.Kept)
    (ht : x.draft.kind.isSome = true) (ha : x.awaitsConstants = false)
    (hy : ∀ w : Walk, w.StandsAt x.flush →
      (if x.statement.hasParams then w.addMethod else w.addField).value.StandsAt
        { x.flush with draft := d }) :
    Takes x [⟨.statementEnd, ";", 0⟩] (x.next d) := by
  refine .statementEnd x.constantsDone fun w h => ?_
  have hwait : w.awaitsConstants = false := h.awaitsConstants.trans ha
  have htype : w.inType = true := h.inType.trans ht
  have hend := hy w h
  rw [if_pos rfl, Walk.endStatement, Logged.value_bind, h.skips hk, hwait, htype,
    h.statement]
  exact hend

/-- A method without a body. -/
theorem semicolon_method (hk : x.statement.flush.Kept)
    (ht : x.draft.kind.isSome = true) (ha : x.awaitsConstants = false)
    (hp : x.statement.hasParams = true) :
    Takes x [⟨.statementEnd, ";", 0⟩] (x.next x.flush.withMethod) := by
  refine semicolon_member hk ht ha fun w h => ?_
  rw [if_pos hp]
  exact h.addMethod

/-- A field. -/
theorem semicolon_field (hk : x.statement.flush.Kept)
    (ht : x.draft.kind.isSome = true) (ha : x.awaitsConstants = false)
    (hp : x.statement.hasParams = false) :
    Takes x [⟨.statementEnd, ";", 0⟩] (x.next x.flush.withField) := by
  refine semicolon_member hk ht ha fun w h => ?_
  rw [hp]
  exact h.addField

/-- The end of the constants of an enumeration, of which there may be none. -/
theorem semicolon_constants (hn : x.statement.isNested = false)
    (hx : x.statement.isExecutable = false) (ha : x.awaitsConstants = true) :
    Takes x [⟨.statementEnd, ";", 0⟩]
      { x.next x.flush.withConstants with constantsDone := true } := by
  refine .statementEnd true fun w h => ?_
  have hwait : w.awaitsConstants = true := h.awaitsConstants.trans ha
  have hend := h.constants hn hx
  rw [if_pos rfl, Walk.endStatement, Logged.value_bind, hwait]
  cases hs : w.skips.value <;>
  · rw [hs] at hend
    exact ⟨hend.draft, rfl, hend.headerComment, hend.statement, hend.span,
      hend.annotation⟩

/-- A statement outside any type that ends with a semicolon. -/
theorem semicolon_file (hk : x.statement.flush.Kept)
    (ht : x.draft.kind = none)
    (hy : ∀ w : Walk, w.StandsAt x.flush →
      w.fileStatement.value.StandsAt { x.flush with draft := d }) :
    Takes x [⟨.statementEnd, ";", 0⟩] (x.next d) := by
  refine .statementEnd x.constantsDone fun w h => ?_
  have hwait : w.awaitsConstants = false := by
    rw [Walk.awaitsConstants, h.kind]
    show (x.draft.kind == _ && _) = false
    rw [ht]
    rfl
  have htype : w.inType = false := by
    rw [h.inType]
    show x.draft.kind.isSome = false
    rw [ht]
    rfl
  have hend := hy w h
  rw [if_pos rfl, Walk.endStatement, Logged.value_bind, h.skips hk, hwait,
    htype]
  exact hend

/-- A package or an import statement. -/
theorem semicolon_name (isImport : Bool) (name : String)
    (hp : x.statement.flush.parts
      = [⟨if isImport then .importing else .packaging, ""⟩, ⟨.identifier, name⟩])
    (hn : x.statement.isNested = false) (hx : x.statement.isExecutable = false)
    (ht : x.draft.kind = none) :
    Takes x [⟨.statementEnd, ";", 0⟩]
      (x.next (if isImport then
        { x.draft with dependencies := x.draft.dependencies ++ [name] }
        else { x.draft with packageName := name })) := by
  refine semicolon_file ⟨by rw [hp]; simp, hn, hx⟩ ht fun w h => ?_
  have hparts : w.statement.parts = _ :=
    (congrArg Statement.parts h.statement).trans hp
  have hdraft : w.draft.unplaced = x.draft := h.draft
  cases isImport with
  | true =>
      rw [Walk.fileStatement, hparts]
      show (w.nameStatement true).value.StandsAt _
      rw [Walk.nameStatement, hparts]
      refine ⟨?_, h.constantsDone, h.headerComment, h.statement, h.span,
        h.annotation⟩
      rw [← hdraft]
      rfl
  | false =>
      rw [Walk.fileStatement, hparts]
      show (w.nameStatement false).value.StandsAt _
      rw [Walk.nameStatement, hparts]
      refine ⟨?_, h.constantsDone, h.headerComment, h.statement, h.span,
        h.annotation⟩
      rw [← hdraft]
      rfl

/-- A statement before an opening brace that is not passed over. -/
theorem brace_kept (hk : x.statement.flush.Kept)
    (hy : ∀ w : Walk, w.StandsAt x.flush →
      w.blockStatement.value.StandsAt { x.flush with draft := d }) :
    Takes x [Token.brace] (x.next d) := by
  refine .statementEnd x.constantsDone fun w h => ?_
  have hend := hy w h
  rw [if_neg (by decide), Walk.beginBlock, Logged.value_bind, h.skips hk]
  show (if w.blockStatement.value.inType then w.blockStatement.value
    else { w.blockStatement.value with fileBodyOpen := true }).StandsAt _
  split
  · exact hend
  · exact ⟨hend.draft, hend.constantsDone, hend.headerComment, hend.statement,
      hend.span, hend.annotation⟩

/-- The header of the file's type. -/
theorem brace_header (hk : x.statement.flush.Kept)
    (hh : x.statement.isHeader = true) :
    Takes x [Token.brace] (x.next x.flush.withHeader) := by
  refine brace_kept hk fun w h => ?_
  have hheader : w.statement.isHeader = true := by
    rw [h.statement]
    exact hh
  rw [Walk.blockStatement, if_pos hheader]
  exact h.applyHeader

/-- Constants of which the last has a body. -/
theorem brace_constants (hk : x.statement.flush.Kept)
    (hh : x.statement.isHeader = false) (ha : x.awaitsConstants = true) :
    Takes x [Token.brace] (x.next x.flush.withConstants) := by
  refine brace_kept hk fun w h => ?_
  have hheader : w.statement.isHeader = false := by
    rw [h.statement]
    exact hh
  have hwait : w.awaitsConstants = true := h.awaitsConstants.trans ha
  rw [Walk.blockStatement, hheader, hwait]
  exact h.addConstants

/-- A method with a body. -/
theorem brace_method (hk : x.statement.flush.Kept)
    (hh : x.statement.isHeader = false) (ha : x.awaitsConstants = false)
    (hi : x.statement.hasInitializer = false) :
    Takes x [Token.brace] (x.next x.flush.withMethod) := by
  refine brace_kept hk fun w h => ?_
  have hheader : w.statement.isHeader = false := by
    rw [h.statement]
    exact hh
  have hwait : w.awaitsConstants = false := h.awaitsConstants.trans ha
  have hinit : w.statement.hasInitializer = false := by
    rw [h.statement]
    exact hi
  rw [Walk.blockStatement, hheader, hwait, hinit]
  exact h.addMethod

/-- A type inside the file's type. -/
theorem brace_nested (hp : x.statement.flush.parts ≠ [])
    (hn : x.statement.isNested = true) :
    Takes x [Token.brace] (x.next x.draft) := by
  refine .statementEnd x.constantsDone fun w h => ?_
  have hskip : w.skips.value = true := by
    have hnested : w.statement.isNested = true := by
      rw [h.statement]
      exact hn
    have hparts : w.statement.parts ≠ [] := by
      rw [h.statement]
      exact hp
    rw [Walk.skips, if_neg hparts, if_pos hnested]
    rfl
  rw [if_neg (by decide), Walk.beginBlock, Logged.value_bind, hskip]
  exact h

end Takes

/-! ## Whole sources -/

/-- The draft at the end of a file; constants that no semicolon has closed
    count. -/
def Standing.final (x : Standing) : Draft :=
  if x.awaitsConstants then x.flush.withConstants else x.draft

/-- The declaration at the end of a walk. -/
theorem Walk.StandsAt.finish {w : Walk} {x : Standing} (h : w.StandsAt x)
    (hn : x.statement.isNested = false)
    (hx : x.statement.isExecutable = false) :
    w.finish.value.unplaced = x.final.finish.value := by
  rw [Walk.finish, Logged.value_bind, ← Draft.finish_unplaced]
  congr 2
  rw [finishConstants, h.awaitsConstants, Standing.final]
  split
  · have hflush : w.flush.StandsAt x.flush :=
      h.withStatement Statement.flush w.cursor
    have hend := (hflush.constants hn hx).draft
    simp only [if_pos h.span, Logged.value_bind]
    cases hs : w.flush.skips.value <;>
    · rw [hs] at hend
      exact hend
  · exact h.draft

/-- A token that no walk refuses. -/
structure Token.Accepted (t : Token) : Prop where
  number : t.kind = .lineNumber → (Text.integer? t.text).isSome = true
  ending : t.kind = .statementEnd → t.text = ";" ∨ t.text = "\x7b"

theorem Token.InLine.accepted {t : Token} (h : t.InLine) : t.Accepted := by
  refine ⟨fun hk => ?_, h.ending⟩
  have hline := h.not_line
  rw [hk] at hline
  exact nomatch hline

theorem Token.accepted_lineNumber {n : Nat} (hn : n < 10 ^ Text.maxDigits) :
    (Token.lineNumber n).Accepted := by
  refine ⟨fun _ => ?_, fun h => nomatch h⟩
  show (Text.integer? (toString n)).isSome = true
  rw [Text.integer?_toString, if_pos hn]
  rfl

theorem Token.accepted_sign (n : Nat) (l : List Char) :
    (Token.sign n l).Accepted :=
  ⟨(fun h => nomatch h), (fun h => nomatch h)⟩

theorem Token.Accepted.refusal? {t : Token} (h : t.Accepted) (w : Walk) :
    w.refusal? t = none := by
  rw [Walk.refusal?]
  cases hk : t.kind with
  | lineNumber =>
      have hsome := h.number hk
      simp only [Option.isNone_iff_eq_none]
      rw [if_neg]
      intro hnone
      rw [hnone] at hsome
      cases hsome
  | statementEnd =>
      rcases h.ending hk with htext | htext <;> simp [htext]
  | _ => rfl

/-- A walk over tokens that are not refused takes every step. -/
theorem Walk.run_of_accepted {ts : List Token} (h : ∀ t ∈ ts, t.Accepted)
    (w : Walk) : (w.run ts).value = .ok (w.steps ts) := by
  induction ts generalizing w with
  | nil => rfl
  | cons t ts ih =>
      rw [run, (h t (by simp)).refusal? w]
      exact ih (fun u hu => h u (by simp [hu])) _

/-- The line texts of such tokens can be gathered. -/
theorem LineIndex.gather_of_accepted {ts : List Token}
    (h : ∀ t ∈ ts, t.Accepted) (n : Int) (ix : LineIndex) :
    ∃ ix', LineIndex.gather n ix ts = .ok ix' := by
  induction ts generalizing n ix with
  | nil => exact ⟨ix, rfl⟩
  | cons t ts ih =>
      have ih := fun n ix => ih (fun u hu => h u (by simp [hu])) n ix
      rw [gather]
      cases hk : t.kind with
      | lineNumber =>
          obtain ⟨m, hm⟩ := Option.isSome_iff_exists.mp
            ((h t (by simp)).number hk)
          simp only [hm]
          exact ih m ix
      | _ => exact ih _ _

/-- The number of lines of a source. -/
def lineCount (source : String) : Nat := source.toList.count '\n' + 1

/-- Every line has a number that can be read back, one of at most `maxDigits`
    digits. -/
def LinesFit (source : String) : Prop := lineCount source < 10 ^ Text.maxDigits

theorem linesFit_ofList {cs : List Char} (h : cs.count '\n' + 1 < 10) :
    LinesFit (String.ofList cs) := by
  rw [LinesFit, lineCount, String.toList_ofList]
  exact Nat.lt_of_lt_of_le h (Nat.le_self_pow (by decide) 10)

theorem tokenize_accepted {source : String} (h : LinesFit source)
    (extra : List String) :
    ∀ t ∈ tokenize source extra, t.Accepted := by
  rw [LinesFit, lineCount] at h
  have hstart : ({} : Reader).line = 1 := rfl
  rw [tokenize_eq_read, List.forall_mem_cons]
  refine ⟨Token.accepted_lineNumber (by omega), ?_⟩
  refine Reader.forall_tokens extra (fun _ _ ht => ht.inLine.accepted)
    Token.accepted_sign {} source.toList fun m _ hm => ?_
  exact Token.accepted_lineNumber (by omega)

/-- The outline of a source with few lines is the declaration at the end of the
    walk over its tokens. -/
theorem outline_of_gather {source : String} (settings : Settings)
    (h : LinesFit source) {ix : LineIndex}
    (hix : LineIndex.gather 1 [] (tokenize source settings.ignoredKeywords)
      = .ok ix) :
    (outline source settings).value
      = .ok (Walk.steps { cursor := { lines := ix } }
          (tokenize source settings.ignoredKeywords)).finish.value := by
  have haccept := tokenize_accepted h settings.ignoredKeywords
  rw [outline, Declaration.ofTokens, LineIndex.ofTokens, hix]
  simp only [Logged.value_bind, Walk.run_of_accepted haccept]
  rfl

/-- There is such a walk. -/
theorem outline_value {source : String} (settings : Settings)
    (h : LinesFit source) :
    ∃ ix, (outline source settings).value
      = .ok (Walk.steps { cursor := { lines := ix } }
          (tokenize source settings.ignoredKeywords)).finish.value := by
  obtain ⟨ix, hix⟩ := LineIndex.gather_of_accepted
    (tokenize_accepted h settings.ignoredKeywords) 1 []
  exact ⟨ix, outline_of_gather settings h hix⟩

/-- The outline of a source whose bare tokens lead from the start to `y`. -/
theorem outline_of_takes {source : String} {settings : Settings} {y : Standing}
    (hlines : LinesFit source)
    (h : Takes {} (bareTokens (tokenize source settings.ignoredKeywords)) y)
    (hn : y.statement.isNested = false)
    (hx : y.statement.isExecutable = false) :
    ∃ d, (outline source settings).value = .ok d
      ∧ d.unplaced = y.final.finish.value := by
  obtain ⟨ix, hix⟩ := outline_value settings hlines
  have hend := h { cursor := { lines := ix } } _ ⟨rfl, rfl, rfl, rfl, rfl, rfl⟩ rfl
  exact ⟨_, hix, hend.finish hn hx⟩

end JavaOutline
