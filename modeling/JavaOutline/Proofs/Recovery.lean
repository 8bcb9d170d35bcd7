import JavaOutline.Proofs.WrittenParts

/-! # What is written is recovered

    The walk takes the lexemes of a member from one standing between members
    to the next, with the member added to the draft (`takes_member`); likewise
    the statements before the type, its header and its constants.  Put
    together: the outline of a source that renders a `TypeSource` is its
    declaration. -/

namespace JavaOutline

open Text

variable {extra : List String} {x : Standing}

/-! ## Members -/

/-- Between two members of a type. -/
structure Standing.InBody (x : Standing) : Prop where
  statement : x.statement = {}
  kind : x.draft.kind.isSome = true
  constants : x.awaitsConstants = false

/-- After the end of a statement the next one is still to start. -/
theorem Standing.InBody.next (hx : x.InBody) (s : Statement) (d : Draft) :
    ({ x with statement := s } : Standing).next d = { x with draft := d } := by
  rw [Standing.next, hx.statement]

/-- A draft with one more member. -/
def Draft.withMember (d : Draft) (m : Member extra) : Draft :=
  { d with
    fields := d.fields ++ m.field?.toList
    methods := d.methods ++ m.method?.toList }

/-- The texts of a field after its leading keywords. -/
def fieldTexts (type : Word extra) (name : Name extra)
    (init : Option (Initializer extra)) : List String :=
  type.text :: name.text
    :: init.elim [] fun i => "=" :: i.words.map Word.text

/-- Each of them is read as one word, is no keyword and is not split. -/
theorem fieldTexts_word (type : Word extra) (name : Name extra)
    (init : Option (Initializer extra)) :
    ∀ w ∈ fieldTexts type name init,
      WordForm w.toList ∧ Keyword.isKeyword extra w = false ∧ Unsplit w := by
  have hword : ∀ v : Word extra, WordForm v.text.toList
      ∧ Keyword.isKeyword extra v.text = false ∧ Unsplit v.text := fun v =>
    ⟨.word v.form, v.plain, v.unsplit⟩
  simp only [fieldTexts, List.forall_mem_cons]
  refine ⟨hword type, hword name.word, ?_⟩
  cases init with
  | none => exact fun w hw => nomatch hw
  | some i =>
      simp only [Option.elim, List.forall_mem_cons, List.forall_mem_map]
      exact ⟨⟨.equals, i.plain, unsplit_equals⟩, fun v _ => hword v⟩

theorem Member.lexemes_field (l : Leading) (type : Word extra)
    (name : Name extra) (init : Option (Initializer extra)) :
    (Member.field l type name init).lexemes
      = l.lexemes ++ (fieldTexts type name init).map Lexeme.word
        ++ [.mark .semicolon] := by
  cases init with
  | none => simp [lexemes, fieldTexts, Word.lexeme, Name.lexeme]
  | some i =>
      simp [lexemes, fieldTexts, Word.lexeme, Name.lexeme, Initializer.lexemes]

theorem takes_field (l : Leading) (type : Word extra) (name : Name extra)
    (init : Option (Initializer extra)) (hx : x.InBody) :
    Takes x ((Member.field l type name init).lexemes.map (Lexeme.token extra))
      { x with draft := x.draft.withMember (.field l type name init) } := by
  have htexts := fieldTexts_word type name init
  let s := (x.statement.extend l.parts).addWords (fieldTexts type name init)
  have hs : s
      = { parts := l.parts, words := fieldTexts type name init
          hasInitializer := (fieldTexts type name init).any (holds '=') } := by
    show ((x.statement.extend l.parts).addWords _ : Statement) = _
    rw [Statement.addWords_eq, hx.statement]
    rfl
  have hparts : s.flush.parts
      = l.parts ++ Part.ofWords (fieldTexts type name init) := by
    rw [hs]
    rfl
  -- the words become a type and a name, and the reader of fields splits them
  -- again: the name is the last word before the equals sign
  have hfield : s.flush.field? = (Member.field l type name init).field? := by
    rw [Statement.field?, hparts]
    refine Field.ofParts?_written l (fun w hw => (htexts w hw).2.2)
      type.holds_equals name.word.holds_equals ?_
    cases init with
    | none => exact .inl rfl
    | some i => exact .inr ⟨_, rfl⟩
  have hdraft : ({ x with statement := s.flush } : Standing).withField
      = x.draft.withMember (.field l type name init) := by
    simp only [Standing.withField, hfield, Draft.withMember, Member.method?,
      Option.toList_none, List.append_nil]
  have hkept : s.flush.Kept := by
    refine ⟨?_, ?_, ?_⟩
    · rw [hparts]
      simp [fieldTexts, Part.ofWords]
    · rw [hs]
      rfl
    · rw [hs]
      rfl
  have hend := Takes.semicolon_field (x := { x with statement := s }) hkept
    hx.kind hx.constants (by rw [hs])
  rw [hx.next] at hend
  rw [Member.lexemes_field, List.map_append, List.map_append, ← hdraft]
  exact ((takes_leading l (by rw [hx.statement])).append
    (takes_texts (fun w hw => (htexts w hw).1)
      fun w hw => (htexts w hw).2.1)).append hend

/-- The return type and the name of a method, up to the parenthesis. -/
theorem takes_methodName (ws : List (Word extra)) {doc : Doc} {ps : List Part}
    (hx : x.statement = { doc, parts := ps }) :
    Takes x ((ws.map Word.lexeme ++ [Lexeme.mark .openParen]).map
        (Lexeme.token extra))
      { x with
        statement := { doc
                       parts := ps ++ Part.ofWords (ws.map Word.text)
                       hasParams := true } } := by
  let s := x.statement.addWords (ws.map Word.text)
  have hplain : ∀ t ∈ ws.map Word.text, holds '=' t = false :=
    List.forall_mem_map.mpr fun w _ => w.holds_equals
  have hflush : s.flush = x.statement.extend (Part.ofWords (ws.map Word.text)) :=
    Statement.flush_addWords (by rw [hx]) hplain
  have hopen := Takes.openParen (x := { x with statement := s })
  -- the flags are those of the statement once its words are parts
  have hinit : s.hasInitializer = false := by
    have h := congrArg Statement.hasInitializer hflush
    rw [hx] at h
    exact h
  have hparams : s.hasParams = false := by
    have h := congrArg Statement.hasParams hflush
    rw [hx] at h
    exact h
  rw [hinit, hparams, hflush, hx] at hopen
  rw [List.map_append]
  exact (takes_words ws).append hopen

/-- Parameters, up to the closing parenthesis. -/
theorem takes_params (params : List (Word extra × Word extra))
    (hx : x.statement.words = []) :
    Takes x ((separated (params.map fun p => [p.1.lexeme, p.2.lexeme])
        ++ [Lexeme.mark .closeParen]).map (Lexeme.token extra))
      { x with
        statement := x.statement.extend
          ((params.map fun p => (p.1.text, p.2.text)).flatMap
            fun p => [⟨.typeName, p.1⟩, ⟨.identifier, p.2⟩]) } := by
  let gs := params.map fun p => [p.1, p.2]
  let ts := gs.map (·.map Word.text)
  have hlexemes : params.map (fun p => [p.1.lexeme, p.2.lexeme])
      = gs.map (·.map Word.lexeme) := by
    simp only [gs, List.map_map]
    rfl
  -- a parameter has two words, so the parenthesis drops none
  have hwords : ∀ word, (x.statement.joined ts).words ≠ [word] := by
    intro word hword
    rcases Statement.words_joined ts hx with hnil | hmem
    · rw [hnil] at hword
      exact nomatch hword
    · rw [hword] at hmem
      obtain ⟨g, hg, hgw⟩ := List.mem_map.mp hmem
      obtain ⟨p, -, rfl⟩ := List.mem_map.mp hg
      exact nomatch hgw
  have hparts : ts.flatMap Part.ofWords
      = (params.map fun p => (p.1.text, p.2.text)).flatMap
          fun p => [⟨.typeName, p.1⟩, ⟨.identifier, p.2⟩] := by
    simp only [ts, gs, List.map_map, List.flatMap_map]
    rfl
  have hclose := Takes.closeParen
    (x := { x with statement := x.statement.joined ts }) hwords
  rw [Statement.flush_joined_words gs hx, hparts] at hclose
  rw [hlexemes, List.map_append]
  exact (takes_separated gs).append hclose

theorem standsFor_throws : StandsFor "throws" ⟨.throwing, ""⟩ :=
  ⟨by decide, by decide, by decide, by decide⟩

/-- The body or the semicolon after the parts of a method. -/
theorem takes_methodEnd (extra : List String) (body : Bool) {s : Statement}
    {doc : Doc} {ps : List Part} {m : Method}
    (hs : s.flush = { doc, parts := ps, hasParams := true }) (hne : ps ≠ [])
    (hm : (Method.ofParts? ps doc 0 "" "").value = some m)
    (hkind : x.draft.kind.isSome = true) (hconstants : x.awaitsConstants = false) :
    Takes { x with statement := s }
      [(if body then Lexeme.block else .mark .semicolon).token extra]
      (x.next { x.draft with methods := x.draft.methods ++ [m] }) := by
  have hdraft : ({ x with statement := s.flush } : Standing).withMethod
      = { x.draft with methods := x.draft.methods ++ [m] } := by
    have hmethod : s.flush.method? = some m := by
      rw [Statement.method?, hs]
      exact hm
    simp only [Standing.withMethod, hmethod, Option.toList_some]
  have hkept : s.flush.Kept := by
    rw [hs]
    exact ⟨hne, rfl, rfl⟩
  have hparams : s.hasParams = true := congrArg Statement.hasParams hs
  have hheader : s.isHeader = false := congrArg Statement.isHeader hs
  have hinit : s.hasInitializer = false := congrArg Statement.hasInitializer hs
  rw [← hdraft]
  cases body with
  | true =>
      exact Takes.brace_method (x := { x with statement := s }) hkept hheader
        hconstants hinit
  | false =>
      exact Takes.semicolon_method (x := { x with statement := s }) hkept hkind
        hconstants hparams

/-- A method, or without a return type a constructor, up to its body or its
    semicolon. -/
structure Signature (extra : List String) where
  leading : Leading
  returnType : Option (Word extra)
  name : Word extra
  params : List (Word extra × Word extra)
  thrown : List (Word extra)

namespace Signature

def lexemes (g : Signature extra) : List Lexeme :=
  g.leading.lexemes ++ (g.returnType.toList ++ [g.name]).map Word.lexeme
    ++ [.mark .openParen]
    ++ (separated (g.params.map fun p => [p.1.lexeme, p.2.lexeme])
      ++ [.mark .closeParen])
    ++ clause "throws" g.thrown

/-- The signature with a body or a semicolon. -/
def declaration (g : Signature extra) (body : Bool) : List Lexeme :=
  g.lexemes ++ [if body then .block else .mark .semicolon]

/-- The parts of the statement. -/
def parts (g : Signature extra) : List Part :=
  methodParts g.leading (g.returnType.map Word.text) g.name.text
    (g.params.map fun p => (p.1.text, p.2.text)) (g.thrown.map Word.text)

/-- The method that is declared after a doc comment. -/
def method (g : Signature extra) (doc : Doc) : Method where
  name := g.name.text
  returnType :=
    if doc.returns ≠ "" then doc.returns else (g.returnType.getD g.name).text
  parameters := g.params.map fun p =>
    { type := p.1.text, name := p.2.text
      description := paramDescription doc.params p.2.text }
  access := g.leading.accessText
  modifiers := g.leading.modifierTexts
  exceptions := g.thrown.map fun t =>
    { type := t.text, description := exceptionDescription doc.exceptions t.text }
  description := doc.description
  deprecated := doc.deprecated
  see := doc.see

theorem ofParts?_parts (g : Signature extra) (doc : Doc) :
    (Method.ofParts? g.parts doc 0 "" "").value = some (g.method doc) := by
  have htext : (g.returnType.map Word.text).getD g.name.text
      = (g.returnType.getD g.name).text := by
    cases g.returnType <;> rfl
  have hret : (g.returnType.map Word.text).getD g.name.text ≠ "" := by
    rw [htext]
    exact (g.returnType.getD g.name).text_ne
  rw [parts, Method.ofParts?_methodParts _ _ g.name.text_ne hret, htext, method]
  simp only [matchParams, matchExceptions, List.map_map]
  rfl

/-- The statement up to its end. -/
theorem takes (g : Signature extra) {doc : Doc} (hx : x.statement = { doc }) :
    ∃ s : Statement, s.flush = { doc, parts := g.parts, hasParams := true }
      ∧ Takes x (g.lexemes.map (Lexeme.token extra)) { x with statement := s } := by
  have htexts : (g.returnType.toList ++ [g.name]).map Word.text
      = (g.returnType.map Word.text).toList ++ [g.name.text] := by
    rw [List.map_append, Option.toList_map]
    rfl
  have hname : Takes x ((g.leading.lexemes
        ++ (g.returnType.toList ++ [g.name]).map Word.lexeme
        ++ [Lexeme.mark .openParen]).map (Lexeme.token extra))
      { x with
        statement := { doc
                       parts := g.leading.parts ++ Part.ofWords
                         ((g.returnType.map Word.text).toList ++ [g.name.text])
                       hasParams := true } } := by
    rw [List.append_assoc, List.map_append, ← htexts]
    exact (takes_leading g.leading (by rw [hx])).append
      (takes_methodName _ (by rw [hx]; rfl))
  have hparams := hname.append (takes_params g.params rfl)
  obtain ⟨s, hclause, hs⟩ := takes_clause standsFor_throws g.thrown
  have htakes := hparams.append hclause
  rw [← List.map_append, ← List.map_append] at htakes
  refine ⟨s, ?_, htakes⟩
  rw [hs, Statement.flush_of_nil rfl]
  rfl

/-- The whole statement, after a doc comment or without one. -/
theorem takes_declared (g : Signature extra) (body : Bool) {doc : Doc}
    (hx : x.statement = { doc }) (hkind : x.draft.kind.isSome = true)
    (hconstants : x.awaitsConstants = false) :
    Takes x ((g.declaration body).map (Lexeme.token extra))
      (x.next { x.draft with methods := x.draft.methods ++ [g.method doc] }) := by
  obtain ⟨s, hs, htakes⟩ := g.takes hx
  have hend := takes_methodEnd extra body hs (methodParts_ne_nil _ _ _ _ _)
    (g.ofParts?_parts doc) hkind hconstants
  rw [declaration, List.map_append]
  exact htakes.append hend

end Signature

/-- A method or a constructor. -/
theorem takes_method (l : Leading) (ret : Option (Word extra))
    (name : Name extra) (params : List (Word extra × Name extra))
    (thrown : List (Word extra)) (body : Bool) (hx : x.InBody) :
    Takes x ((Member.method l ret name params thrown body).lexemes.map
        (Lexeme.token extra))
      { x with
        draft := x.draft.withMember
          (.method l ret name params thrown body) } := by
  let g : Signature extra :=
    { leading := l, returnType := ret, name := name.word
      params := params.map fun p => (p.1, p.2.word), thrown }
  let m := Member.method l ret name params thrown body
  have hlexemes : m.lexemes = g.declaration body := by
    simp [m, g, Member.lexemes, Signature.declaration, Signature.lexemes,
      paramLexemes, Word.lexeme, Name.lexeme, Name.word, Function.comp_def]
  have hmethod : m.method? = some (g.method {}) := by
    cases ret <;>
      simp [m, g, Member.method?, Signature.method, paramDescription,
        exceptionDescription, Name.word, Function.comp_def]
  have hdraft : x.draft.withMember m
      = { x.draft with methods := x.draft.methods ++ [g.method {}] } := by
    simp only [Draft.withMember, hmethod, m, Member.field?, Option.toList_none,
      Option.toList_some, List.append_nil]
  have htakes := g.takes_declared body hx.statement hx.kind hx.constants
  rw [hlexemes, hdraft]
  rw [Standing.next, ← hx.statement] at htakes
  exact htakes

/-- A class inside the type. -/
theorem takes_nested (l : Leading) (name : Name extra) (hx : x.InBody) :
    Takes x ((Member.nested l name).lexemes.map (Lexeme.token extra))
      { x with draft := x.draft.withMember (.nested l name) } := by
  have hdraft : x.draft.withMember (.nested l name) = x.draft := by
    simp only [Draft.withMember, Member.field?, Member.method?,
      Option.toList_none, List.append_nil]
  let start : Statement :=
    { (x.statement.extend l.parts).flush with isNested := true }
  let s := start.addWords [name.text]
  have hparts : s.flush.parts ≠ [] := by
    simp [s, start, Statement.flush, Statement.addWords_eq, Part.ofWords,
      Statement.extend, hx.statement]
  have hnested : s.isNested = true := by
    simp [s, start, Statement.addWords_eq]
  have hclass : Takes { x with statement := x.statement.extend l.parts }
      [(Lexeme.word "class").token extra] { x with statement := start } := by
    rw [token_keyword (by decide)]
    exact .nestedWord .classKind hx.kind
  have hend := Takes.brace_nested (x := { x with statement := s }) hparts hnested
  rw [hx.next] at hend
  rw [hdraft, Member.lexemes, List.map_append]
  exact (takes_leading l (by rw [hx.statement])).append
    (hclass.cons ((takes_words [name.word]).append hend))

/-- What every member does to the draft. -/
theorem takes_member (m : Member extra) (hx : x.InBody) :
    Takes x (m.lexemes.map (Lexeme.token extra))
      { x with draft := x.draft.withMember m } := by
  cases m with
  | field l type name init => exact takes_field l type name init hx
  | method l ret name params thrown body =>
      exact takes_method l ret name params thrown body hx
  | nested l name => exact takes_nested l name hx

theorem takes_members (ms : List (Member extra)) :
    ∀ {x : Standing}, x.InBody →
      Takes x ((ms.flatMap Member.lexemes).map (Lexeme.token extra))
        { x with
          draft := { x.draft with
            fields := x.draft.fields ++ ms.filterMap Member.field?
            methods := x.draft.methods ++ ms.filterMap Member.method? } } := by
  induction ms with
  | nil =>
      intro x hx
      simp only [List.filterMap_nil, List.append_nil]
      exact .nil
  | cons m ms ih =>
      intro x hx
      have hrest := ih (x := { x with draft := x.draft.withMember m })
        ⟨hx.statement, hx.kind, hx.constants⟩
      have hfields : (m :: ms).filterMap Member.field?
          = m.field?.toList ++ ms.filterMap Member.field? := by
        rw [List.filterMap_cons]
        cases m.field? <;> rfl
      have hmethods : (m :: ms).filterMap Member.method?
          = m.method?.toList ++ ms.filterMap Member.method? := by
        rw [List.filterMap_cons]
        cases m.method? <;> rfl
      rw [List.flatMap_cons, List.map_append, hfields, hmethods,
        ← List.append_assoc, ← List.append_assoc]
      exact (takes_member m hx).append hrest

/-! ## Before the type -/

/-- A package or an import statement. -/
theorem takes_fileName (isImport : Bool) (n : Word extra)
    (hs : x.statement = {}) (hk : x.draft.kind = none)
    (hc : x.headerComment = "") :
    Takes x ([.word (if isImport then "import" else "package"), n.lexeme,
        .mark .semicolon].map (Lexeme.token extra))
      { x with
        draft := if isImport then
            { x.draft with dependencies := x.draft.dependencies ++ [n.text] }
          else { x.draft with packageName := n.text } } := by
  -- the keyword is a part of its own, and the name after it an identifier
  let p : Part := ⟨if isImport then .importing else .packaging, ""⟩
  let s := (x.statement.flush.add p).addWords [n.text]
  have hkeyword : Takes x
      [(Lexeme.word (if isImport then "import" else "package")).token extra]
      { x with statement := x.statement.flush.add p } := by
    rw [token_keyword (by cases isImport <;> decide)]
    exact .partWord (by cases isImport <;> decide)
      (by cases isImport <;> decide) (by cases isImport <;> rfl) fun _ => hc
  have hend := Takes.semicolon_name (x := { x with statement := s }) isImport n.text
    (by simp [s, p, hs, Statement.addWords_eq, Statement.flush, Statement.add,
      Part.ofWords])
    (by simp [s, hs, Statement.addWords_eq, Statement.flush, Statement.add])
    (by simp [s, hs, Statement.addWords_eq, Statement.flush, Statement.add]) hk
  rw [Standing.next, ← hs] at hend
  exact hkeyword.cons ((takes_words [n]).append hend)

theorem takes_imports (ns : List (Word extra)) :
    ∀ {x : Standing}, x.statement = {} → x.draft.kind = none →
      x.headerComment = "" →
      Takes x ((ns.flatMap fun n =>
          [.word "import", n.lexeme, .mark .semicolon]).map (Lexeme.token extra))
        { x with
          draft := { x.draft with
            dependencies := x.draft.dependencies ++ ns.map Word.text } } := by
  induction ns with
  | nil =>
      intro x _ _ _
      rw [List.map_nil, List.append_nil]
      exact .nil
  | cons n ns ih =>
      intro x hs hk hc
      have hn := takes_fileName true n hs hk hc
      have hrest := ih (x := { x with draft := { x.draft with
        dependencies := x.draft.dependencies ++ [n.text] } }) hs hk hc
      rw [List.append_assoc] at hrest
      rw [List.flatMap_cons, List.map_append]
      exact hn.append hrest

/-- The package and the imports of a file. -/
theorem takes_file (packageName : Option (Word extra)) (imports : List (Word extra)) :
    Takes {} (((packageName.toList.flatMap fun n =>
          [.word "package", n.lexeme, .mark .semicolon])
        ++ imports.flatMap fun n =>
          [.word "import", n.lexeme, .mark .semicolon]).map (Lexeme.token extra))
      { draft := { packageName := (packageName.map Word.text).getD ""
                   dependencies := imports.map Word.text } } := by
  have hpackage : Takes {} ((packageName.toList.flatMap fun n =>
      [.word "package", n.lexeme, .mark .semicolon]).map (Lexeme.token extra))
      { draft := { packageName := (packageName.map Word.text).getD "" } } := by
    cases packageName with
    | none => exact .nil
    | some n => exact takes_fileName false n rfl rfl rfl
  have himports := takes_imports imports (x := { draft :=
    { packageName := (packageName.map Word.text).getD "" } }) rfl rfl rfl
  rw [List.map_append]
  exact hpackage.append himports

/-! ## The header and the constants -/

theorem standsFor_extends : StandsFor "extends" ⟨.extending, ""⟩ :=
  ⟨by decide, by decide, by decide, by decide⟩

theorem standsFor_implements : StandsFor "implements" ⟨.implementing, ""⟩ :=
  ⟨by decide, by decide, by decide, by decide⟩

/-- The header of a type up to its brace, after the package and the imports. -/
theorem takes_header (l : Leading) (k : TypeKind) (name : Name extra)
    (ps is : List (Word extra)) (packageName : String)
    (dependencies : List String) :
    ∃ t : Statement, t.flush
        = { parts := Draft.headerParts l k.word name.text (ps.map Word.text)
              (is.map Word.text)
            isHeader := true }
      ∧ Takes { draft := { packageName, dependencies } }
          ((l.lexemes ++ [.word k.word, name.lexeme] ++ clause "extends" ps
            ++ clause "implements" is).map (Lexeme.token extra))
          { draft := { kind := some k, packageName, dependencies }
            statement := t } := by
  let d : Draft := { kind := some k, packageName, dependencies }
  let start : Statement :=
    { parts := l.parts ++ [⟨.typeWord, k.word⟩], isHeader := true }
  let named := start.addWords [name.text]
  have hleading : Takes { draft := { packageName, dependencies } }
      (l.lexemes.map (Lexeme.token extra))
      { draft := { packageName, dependencies }, statement := { parts := l.parts } } :=
    takes_leading l rfl
  have htype : Takes
      { draft := { packageName, dependencies }, statement := { parts := l.parts } }
      [(Lexeme.word k.word).token extra] { draft := d, statement := start } := by
    rw [token_keyword (by cases k <;> decide)]
    have h := Takes.typeWord (x := { draft := { packageName, dependencies }
                                     statement := { parts := l.parts } }) k rfl
    rwa [Statement.flush_of_nil rfl] at h
  have hname : Takes { draft := d, statement := start }
      ([name.lexeme].map (Lexeme.token extra)) { draft := d, statement := named } :=
    takes_words [name.word]
  obtain ⟨s, hextends, hs⟩ :=
    takes_clause (x := { draft := d, statement := named }) standsFor_extends ps
  obtain ⟨t, himplements, ht⟩ :=
    takes_clause (x := { draft := d, statement := s }) standsFor_implements is
  refine ⟨t, ?_, ?_⟩
  · have hnamed : named.flush = start.extend [⟨.identifier, name.text⟩] :=
      Statement.flush_addWords rfl fun w hw => by
        rw [List.mem_singleton.mp hw]
        exact name.word.holds_equals
    rw [ht, hs, hnamed, Statement.extend_extend, Statement.extend_extend]
    simp [Statement.extend, start, Draft.headerParts]
  · simp only [List.map_append]
    exact ((hleading.append (htype.cons hname)).append hextends).append
      himplements

/-- The constants of an enumeration and the semicolon that closes them. -/
theorem takes_constants (cs : List (Name extra)) (hs : x.statement = {})
    (ha : x.awaitsConstants = true) (hc : x.draft.constants = []) :
    Takes x ((separated (cs.map fun c => [c.lexeme])
        ++ [Lexeme.mark .semicolon]).map (Lexeme.token extra))
      { x with
        draft := { x.draft with constants := numbered (cs.map Name.text) }
        constantsDone := true } := by
  obtain ⟨s, hnames, hs'⟩ := takes_names (x := x) (cs.map Name.word) (by rw [hs])
  have hlexemes : (cs.map Name.word).map (fun n => [n.lexeme])
      = cs.map fun c => [c.lexeme] := by
    rw [List.map_map]
    rfl
  have hflush : s.flush
      = { parts := (cs.map Name.text).map fun n => ⟨.identifier, n⟩ } := by
    rw [hs', hs, List.map_map (l := cs)]
    rfl
  -- the semicolon numbers the identifiers from zero
  have hend := Takes.semicolon_constants (x := { x with statement := s })
    (congrArg Statement.isNested hflush :)
    (congrArg Statement.isExecutable hflush :) ha
  have hdraft : ({ x with statement := s.flush } : Standing).withConstants
      = { x.draft with constants := numbered (cs.map Name.text) } := by
    rw [Standing.withConstants, hflush, hc]
    exact congrArg (fun cs => { x.draft with constants := cs })
      (EnumConstant.ofParts_identifiers [] (cs.map Name.text))
  rw [Standing.next, Standing.flush, hdraft, ← hs] at hend
  rw [hlexemes] at hnames
  rw [List.map_append]
  exact hnames.append hend

/-! ## Whole types -/

namespace TypeSource

/-- The constants of the type. -/
def constants (s : TypeSource extra) : List EnumConstant :=
  match s.outlook with
  | .ofEnum _ constants => numbered (constants.map Name.text)
  | _ => []

/-- The draft after the header. -/
def headerDraft (s : TypeSource extra) : Draft where
  kind := some s.outlook.kind
  packageName := (s.packageName.map Word.text).getD ""
  dependencies := s.imports.map Word.text
  name := s.name.text
  access := s.leading.accessText
  modifiers := s.leading.modifierTexts
  parents := s.outlook.parents.map Word.text
  interfaces := s.outlook.interfaces.map Word.text

/-- The draft after the whole type. -/
def draft (s : TypeSource extra) : Draft :=
  { s.headerDraft with
    constants := s.constants
    fields := s.members.filterMap Member.field?
    methods := s.members.filterMap Member.method? }

theorem finish_draft (s : TypeSource extra) :
    s.draft.finish.value = s.declaration := by
  obtain ⟨packageName, imports, leading, name, outlook, members⟩ := s
  cases outlook with
  | ofClass parent interfaces =>
      show (Draft.toClass _).value = _
      rw [Draft.toClass_value]
      cases parent <;> rfl
  | ofInterface parents => rfl
  | ofEnum interfaces constants => rfl

/-- From the start of the file to the brace of the type. -/
theorem takes_head (s : TypeSource extra) :
    ∃ t : Statement, t.flush
        = { parts := Draft.headerParts s.leading s.outlook.kind.word s.name.text
              (s.outlook.parents.map Word.text)
              (s.outlook.interfaces.map Word.text)
            isHeader := true }
      ∧ Takes {} (s.head.map (Lexeme.token extra))
          { draft := { kind := some s.outlook.kind
                       packageName := (s.packageName.map Word.text).getD ""
                       dependencies := s.imports.map Word.text }
            statement := t } := by
  have hfile := takes_file s.packageName s.imports
  obtain ⟨t, ht, hheader⟩ := takes_header s.leading s.outlook.kind s.name
    s.outlook.parents s.outlook.interfaces
    ((s.packageName.map Word.text).getD "") (s.imports.map Word.text)
  refine ⟨t, ht, ?_⟩
  have htakes := hfile.append hheader
  simpa only [head, List.map_append, List.append_assoc, List.nil_append]
    using htakes

/-- After the text before the braces every walk over a file stands in the header of
    the type, whatever the lines of the file. -/
theorem stands_at_header {s : TypeSource extra} {p : List Char}
    (h : Laid false s.head p) :
    IsHead extra p ∧ ∃ t : Statement, t.isHeader = true ∧ t.flush.Kept ∧ ∀ ix,
      (Walk.steps { cursor := { lines := ix } } (headTokens extra p)).StandsAt
        { draft := { kind := some s.outlook.kind
                     packageName := (s.packageName.map Word.text).getD ""
                     dependencies := s.imports.map Word.text }
          statement := t } := by
  obtain ⟨hhead, htokens⟩ := h.isHead extra s.block_not_mem_head
  obtain ⟨t, ht, htakes⟩ := s.takes_head
  refine ⟨hhead, t, (congrArg Statement.isHeader ht :), ?_, fun ix =>
    htakes _ _ ⟨rfl, rfl, rfl, rfl, rfl, rfl⟩ htokens⟩
  rw [ht]
  exact ⟨by simp [Draft.headerParts], rfl, rfl⟩

/-- From the start of the file to the inside of the type. -/
theorem takes_opened (s : TypeSource extra) :
    Takes {} (s.head.map (Lexeme.token extra) ++ [Token.brace])
      { draft := s.headerDraft } := by
  obtain ⟨t, ht, hhead⟩ := s.takes_head
  have hkept : t.flush.Kept := by
    rw [ht]
    exact ⟨by simp [Draft.headerParts], rfl, rfl⟩
  have hend := hhead.append
    (Takes.brace_header hkept (congrArg Statement.isHeader ht :))
  rwa [Standing.withHeader, Standing.flush, ht,
    Draft.applyHeader_headerParts] at hend

/-- From the brace of the type to its end. -/
theorem takes_body (s : TypeSource extra) :
    Takes { draft := s.headerDraft } (s.body.map (Lexeme.token extra))
      { draft := s.draft
        constantsDone := s.outlook.kind == .enumKind } := by
  let x : Standing :=
    { draft := { s.headerDraft with constants := s.constants }
      constantsDone := s.outlook.kind == .enumKind }
  have hconstants : Takes { draft := s.headerDraft }
      (s.outlook.lexemes.map (Lexeme.token extra)) x := by
    obtain ⟨packageName, imports, leading, name, outlook, members⟩ := s
    cases outlook with
    | ofEnum interfaces constants => exact takes_constants constants rfl rfl rfl
    | _ => exact .nil
  have hbody : x.InBody := by
    refine ⟨rfl, rfl, ?_⟩
    simp [Standing.awaitsConstants, x, headerDraft]
  rw [body, List.map_append]
  exact hconstants.append (takes_members s.members hbody)

theorem takes (s : TypeSource extra) :
    Takes {} (s.head.map (Lexeme.token extra)
        ++ Token.brace :: s.body.map (Lexeme.token extra))
      { draft := s.draft
        constantsDone := s.outlook.kind == .enumKind } := by
  have htakes := s.takes_opened.append s.takes_body
  rwa [List.append_assoc] at htakes

/-- The tokens of a source that renders the type. -/
theorem Renders.bareTokens_tokenize {s : TypeSource extra} {source : String}
    (h : s.Renders source) :
    bareTokens (tokenize source extra)
      = s.head.map (Lexeme.token extra)
        ++ Token.brace :: s.body.map (Lexeme.token extra) := by
  obtain ⟨p, x, t, rfl, hp, hx, ht⟩ := h
  obtain ⟨hhead, hlexemes⟩ := hp.isHead extra s.block_not_mem_head
  obtain ⟨ts, htokens, hts⟩ := tokenize_type hhead (hx.spellsBody extra) ht
  rw [htokens, bareTokens_append, hlexemes, hts]

end TypeSource

/-- What is written is recovered: the outline of any source that renders a type
    is the declaration of the type, line numbers and line texts aside. -/
theorem outline_of_renders (settings : Settings)
    (s : TypeSource settings.ignoredKeywords) (source : String)
    (h : s.Renders source) (hlines : LinesFit source) :
    ∃ d, (outline source settings).value = .ok d
      ∧ d.unplaced = s.declaration := by
  have htakes := s.takes
  rw [← h.bareTokens_tokenize] at htakes
  obtain ⟨d, hd, hplace⟩ := outline_of_takes hlines htakes rfl rfl
  refine ⟨d, hd, ?_⟩
  have hfinal : Standing.final
      { draft := s.draft, constantsDone := s.outlook.kind == .enumKind }
      = s.draft := by
    simp [Standing.final, Standing.awaitsConstants, TypeSource.draft,
      TypeSource.headerDraft]
  rw [hplace, hfinal, s.finish_draft]

/-- An enumeration with one member of each kind. -/
def sampleType : TypeSource [] where
  packageName := some ⟨"shop.stock", by decide, by decide⟩
  imports := [⟨"java.util.List", by decide, by decide⟩]
  leading := { access := some ⟨"public", by decide⟩, modifiers := [] }
  name := ⟨"Size", by decide, by decide⟩
  outlook := .ofEnum [⟨"Comparable<Size>", by decide, by decide⟩]
    [⟨"SMALL", by decide, by decide⟩, ⟨"LARGE", by decide, by decide⟩]
  members :=
    [.field { access := none, modifiers := [⟨"static", by decide⟩] }
        ⟨"Map<String, List<Size>>", by decide, by decide⟩
        ⟨"names", by decide, by decide⟩
        (some ⟨⟨"EMPTY", by decide, by decide⟩, [], by decide⟩),
      .nested { access := none, modifiers := [] } ⟨"Box", by decide, by decide⟩,
      .method { access := none, modifiers := [] } none
        ⟨"Size", by decide, by decide⟩
        [(⟨"int", by decide, by decide⟩, ⟨"grams", by decide, by decide⟩)]
        [⟨"Error", by decide, by decide⟩] true]

theorem outline_sampleType :
    ∃ d, (outline sampleType.text {}).value = .ok d ∧ d.unplaced
      = { name := "Size"
          packageName := "shop.stock"
          dependencies := ["java.util.List"]
          access := "public"
          fields := [{ type := "Map<String, List<Size>>", name := "names"
                       modifiers := ["static"] }]
          methods := [{ name := "Size", returnType := "Size"
                        parameters := [{ type := "int", name := "grams" }]
                        exceptions := [{ type := "Error" }] }]
          shape := .enumShape ["Comparable<Size>"]
            [⟨"SMALL", "0"⟩, ⟨"LARGE", "1"⟩] } :=
  outline_of_renders {} sampleType sampleType.text sampleType.renders_text
    (linesFit_ofList (by decide +kernel))

end JavaOutline
