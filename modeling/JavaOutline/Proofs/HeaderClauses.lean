import JavaOutline.Proofs.Asides
import JavaOutline.Proofs.HeaderOnce
import JavaOutline.Proofs.LaterTypes
import JavaOutline.Proofs.MethodModifiers

/-! # The clauses of a type header

    The header of a type lists what the type extends, what it implements and what it
    permits.  The first two clauses have a keyword that the reader of headers knows.
    The keyword `permits` is passed over, so the reader takes the names after it for
    more names of the clause before: permitted types become parents or interfaces,
    unless there is no such clause.

      * `Draft.fold_clauses` is the law for the parts of a header.
      * `takes_headerSource` says that a walk makes these parts, and applies them.
      * Before the header nothing is known of it (`header_walkAt_of_outside`), and after
        it nothing changes. -/

namespace JavaOutline

open Text

/-- A type header as it is written, up to its brace.  A clause without names is not
    there. -/
structure HeaderSource (extra : List String) where
  keywords : List { w : String // w ∈ Keyword.accessWords ++ Keyword.modifierWords }
  kind : TypeKind
  name : Word extra
  extending : List (Word extra)
  implementing : List (Word extra)
  permitting : List (Word extra)

namespace HeaderSource

variable {extra : List String}

def lexemes (h : HeaderSource extra) : List Lexeme :=
  (h.keywords.map Subtype.val).map .word ++ [.word h.kind.word, h.name.lexeme]
    ++ clause "extends" h.extending ++ clause "implements" h.implementing
    ++ clause "permits" h.permitting

/-- The names that are read as parents: permitted types are among them if they
    directly follow what is extended. -/
def parents (h : HeaderSource extra) : List String :=
  h.extending.map Word.text
    ++ if h.extending ≠ [] ∧ h.implementing = [] then h.permitting.map Word.text else []

/-- The names that are read as interfaces: permitted types are among them if they
    follow what is implemented. -/
def interfaces (h : HeaderSource extra) : List String :=
  h.implementing.map Word.text
    ++ if h.implementing ≠ [] then h.permitting.map Word.text else []

/-- What the header contributes to a declaration. -/
def shape (h : HeaderSource extra) : Shape :=
  match h.kind with
  | .classKind => .classShape (h.parents.headD "") h.interfaces
  | .interfaceKind => .interfaceShape h.parents
  | .enumKind => .enumShape h.interfaces []

/-- What the reader takes the last names for. -/
def lastSlot (h : HeaderSource extra) : HeaderSlot :=
  if h.implementing ≠ [] then .interface
  else if h.extending ≠ [] then .parent
  else .free

/-- The parts of the statement. -/
def parts (h : HeaderSource extra) : List Part :=
  (h.keywords.map Subtype.val).map keywordPart
    ++ [⟨.typeWord, h.kind.word⟩, ⟨.identifier, h.name.text⟩]
    ++ clauseParts .extending (h.extending.map Word.text)
    ++ clauseParts .implementing (h.implementing.map Word.text)
    ++ (h.permitting.map Word.text).map fun n => ⟨.identifier, n⟩

theorem mem_keywords (h : HeaderSource extra) : ∀ w ∈ h.keywords.map Subtype.val,
    w ∈ Keyword.accessWords ++ Keyword.modifierWords :=
  List.forall_mem_map.mpr fun k _ => k.property

/-- The clauses are kept apart just if there is nothing to mix. -/
theorem clauses_apart_iff (h : HeaderSource extra) :
    (h.parents = h.extending.map Word.text ∧ h.interfaces = h.implementing.map Word.text)
      ↔ h.permitting = [] ∨ (h.extending = [] ∧ h.implementing = []) := by
  rw [parents, interfaces]
  by_cases hi : h.implementing = []
  · by_cases he : h.extending = [] <;> simp [hi, he]
  · simp [hi]

end HeaderSource

/-! ## Reading the parts -/

namespace Draft

/-- The draft with names in the list that the slot stands for. -/
def listed (d : Draft) (slot : HeaderSlot) (names : List String) : Draft :=
  match slot with
  | .parent => { d with parents := d.parents ++ names }
  | .interface => { d with interfaces := d.interfaces ++ names }
  | _ => d

theorem listed_nil (d : Draft) (slot : HeaderSlot) : d.listed slot [] = d := by
  cases slot <;> simp [listed]

/-- Names go where the names before them went. -/
theorem fold_names (d : Draft) {slot : HeaderSlot} (hslot : slot ≠ .name)
    (names : List String) :
    (Logged.fold headerStep (d, slot) (names.map fun n => ⟨.identifier, n⟩)).value
      = (d.listed slot names, slot) := by
  have hread := Logged.fold_map (f := headerStep) (fun n => ⟨.identifier, n⟩)
    (fun ns => (d.listed slot ns, slot)) ?_ names
  · rwa [listed_nil] at hread
  · intro done n
    cases slot with
    | name => exact absurd rfl hslot
    | parent | interface => simp [headerStep, headerIdentifier, listed]
    | free | exception => rfl

/-- A clause that is there determines where the names after it go. -/
theorem fold_clauseParts (kind : PartKind) (slot : HeaderSlot) (hslot : slot ≠ .name)
    (hmark : ∀ r : Draft × HeaderSlot, (headerStep r ⟨kind, ""⟩).value = (r.1, slot))
    (names : List String) (d : Draft) (start : HeaderSlot) :
    (Logged.fold headerStep (d, start) (clauseParts kind names)).value
      = (d.listed slot names, if names = [] then start else slot) := by
  rw [clauseParts]
  split
  · next hnil =>
      rw [hnil, listed_nil]
      rfl
  · rw [Logged.fold, Logged.value_bind, hmark]
    exact d.fold_names hslot names

/-- Keywords before a type change neither parents nor interfaces. -/
theorem fold_keywordParts (d : Draft) {ws : List String}
    (h : ∀ w ∈ ws, w ∈ Keyword.accessWords ++ Keyword.modifierWords) :
    ∃ access modifiers, (Logged.fold headerStep (d, .free) (ws.map keywordPart)).value
      = ({ d with access, modifiers }, .free) := by
  induction ws generalizing d with
  | nil => exact ⟨d.access, d.modifiers, rfl⟩
  | cons w ws ih =>
      rw [List.map_cons, Logged.fold, Logged.value_bind, keywordPart]
      have hrest := fun v hv => h v (List.mem_cons_of_mem w hv)
      split
      · exact ih { d with access := w } hrest
      · exact ih { d with modifiers := d.modifiers ++ [w] } hrest

/-- **Permitted types join the clause before them.** -/
theorem fold_clauses {extra : List String} (d : Draft) (h : HeaderSource extra) :
    ∃ access modifiers name, (Logged.fold headerStep (d, .free) h.parts).value
      = ({ d with
            access, modifiers, name
            parents := d.parents ++ h.parents
            interfaces := d.interfaces ++ h.interfaces }, h.lastSlot) := by
  obtain ⟨access, modifiers, hkeywords⟩ := d.fold_keywordParts h.mem_keywords
  let named : Draft := { d with access, modifiers, name := withoutParameters h.name.text }
  let implied := (named.listed .parent (h.extending.map Word.text)).listed .interface
    (h.implementing.map Word.text)
  have hname : (Logged.fold headerStep ({ d with access, modifiers }, .free)
      [⟨.typeWord, h.kind.word⟩, ⟨.identifier, h.name.text⟩]).value = (named, .free) := rfl
  have hextends := fold_clauseParts .extending .parent (by decide)
    (fun _ => rfl) (h.extending.map Word.text) named .free
  have himplements := fold_clauseParts .implementing .interface (by decide)
    (fun _ => rfl) (h.implementing.map Word.text)
    (named.listed .parent (h.extending.map Word.text))
    (if h.extending.map Word.text = [] then .free else .parent)
  have hslot : (if h.implementing.map Word.text = [] then
        if h.extending.map Word.text = [] then .free else .parent
      else .interface) = h.lastSlot := by
    simp [HeaderSource.lastSlot]
  have hpermits : (Logged.fold headerStep (implied, h.lastSlot)
      ((h.permitting.map Word.text).map fun n => ⟨.identifier, n⟩)).value
        = (implied.listed h.lastSlot (h.permitting.map Word.text), h.lastSlot) := by
    refine implied.fold_names ?_ _
    rw [HeaderSource.lastSlot]
    repeat' split
    all_goals decide
  refine ⟨access, modifiers, withoutParameters h.name.text, ?_⟩
  rw [HeaderSource.parts, Logged.fold_append, Logged.value_bind, Logged.fold_append,
    Logged.value_bind, Logged.fold_append, Logged.value_bind, Logged.fold_append,
    Logged.value_bind, hkeywords, hname, hextends, himplements, hslot, hpermits]
  refine Prod.ext ?_ rfl
  by_cases hi : h.implementing = []
  · by_cases he : h.extending = [] <;>
      simp [implied, named, listed, HeaderSource.lastSlot, HeaderSource.parents,
        HeaderSource.interfaces, hi, he]
  · simp [implied, named, listed, HeaderSource.lastSlot, HeaderSource.parents,
      HeaderSource.interfaces, hi]

end Draft

/-! ## Walking over the header -/

section

variable {extra : List String} {x : Standing}

/-- The keyword `permits` is passed over; it only ends the words before it. -/
theorem takes_permits (names : List (Word extra)) :
    ∃ s, Takes x ((clause "permits" names).map (Lexeme.token extra))
        { x with statement := s }
      ∧ s.flush = x.statement.flush.extend
          ((names.map Word.text).map fun n => ⟨.identifier, n⟩) := by
  cases names with
  | nil => exact ⟨x.statement, .nil, (Statement.extend_nil _).symm⟩
  | cons n names =>
      have hkeyword : Takes x [(Lexeme.word "permits").token extra]
          { x with statement := x.statement.flush } := by
        have htoken : (Lexeme.word "permits").token extra = ⟨.keyword, "permits", 0⟩ := by
          have hignored : Keyword.isIgnored "permits" = true := by decide
          rw [Lexeme.token, Token.ofWord, Keyword.isKeyword, hignored, Bool.or_true,
            Bool.true_or]
          rfl
        rw [htoken]
        exact .keyword fun _ _ h => h
      obtain ⟨s, hnames, hs⟩ := takes_names (n :: names)
        (x := { x with statement := x.statement.flush }) rfl
      exact ⟨s, hkeyword.cons hnames, hs⟩

/-- The header up to its brace. -/
theorem HeaderSource.takes (h : HeaderSource extra) {doc : Doc}
    (hs : x.statement = { doc }) (hk : x.draft.kind = none) :
    ∃ t : Statement, t.flush = { doc, parts := h.parts, isHeader := true }
      ∧ Takes x (h.lexemes.map (Lexeme.token extra))
          { x with draft := { x.draft with kind := some h.kind }, statement := t } := by
  let d : Draft := { x.draft with kind := some h.kind }
  let leading := (h.keywords.map Subtype.val).map keywordPart
  let start : Statement :=
    { doc, parts := leading ++ [⟨.typeWord, h.kind.word⟩], isHeader := true }
  let named := start.addWords [h.name.text]
  have hleading : Takes x (((h.keywords.map Subtype.val).map .word).map (Lexeme.token extra))
      { x with statement := { doc, parts := leading } } := by
    have hkeywords : Takes x
        (((h.keywords.map Subtype.val).map .word).map (Lexeme.token extra)) _ :=
      takes_keywords (fun w hw => standsFor_keyword (h.mem_keywords w hw)) (by rw [hs])
    rwa [hs] at hkeywords
  have htype : Takes { x with statement := { doc, parts := leading } }
      [(Lexeme.word h.kind.word).token extra] { x with draft := d, statement := start } := by
    rw [token_keyword (by cases h.kind <;> decide)]
    have htype := Takes.typeWord (x := { x with statement := { doc, parts := leading } })
      h.kind hk
    rwa [Statement.flush_of_nil rfl] at htype
  have hname : Takes { x with draft := d, statement := start }
      ([h.name.lexeme].map (Lexeme.token extra)) { x with draft := d, statement := named } :=
    takes_words [h.name]
  obtain ⟨s, hextends, hflush⟩ := takes_clause
    (x := { x with draft := d, statement := named }) standsFor_extends h.extending
  obtain ⟨s', himplements, hflush'⟩ := takes_clause
    (x := { x with draft := d, statement := s }) standsFor_implements h.implementing
  obtain ⟨t, hpermits, ht⟩ := takes_permits
    (x := { x with draft := d, statement := s' }) h.permitting
  refine ⟨t, ?_, ?_⟩
  · have hnamed : named.flush = start.extend [⟨.identifier, h.name.text⟩] :=
      Statement.flush_addWords rfl fun w hw => by
        rw [List.mem_singleton.mp hw]
        exact h.name.holds_equals
    rw [ht, hflush', hflush, hnamed, Statement.extend_extend, Statement.extend_extend,
      Statement.extend_extend]
    simp [Statement.extend, start, leading, parts]
  · simp only [lexemes, List.map_append]
    exact (((hleading.append (htype.cons hname)).append hextends).append
      himplements).append hpermits

/-- **A header with its brace.** -/
theorem takes_headerSource (h : HeaderSource extra) {doc : Doc}
    (hs : x.statement = { doc }) (hk : x.draft.kind = none) :
    ∃ d, Takes x (h.lexemes.map (Lexeme.token extra) ++ [Token.brace]) (x.next d)
      ∧ d.kind = some h.kind
      ∧ d.parents = x.draft.parents ++ h.parents
      ∧ d.interfaces = x.draft.interfaces ++ h.interfaces := by
  obtain ⟨t, ht, htakes⟩ := h.takes hs hk
  have hkept : t.flush.Kept := by
    rw [ht]
    exact ⟨by simp [HeaderSource.parts], rfl, rfl⟩
  have hbrace := Takes.brace_header
    (x := { x with draft := { x.draft with kind := some h.kind }, statement := t })
    hkept (congrArg Statement.isHeader ht :)
  obtain ⟨access, modifiers, name, hfold⟩ := Draft.fold_clauses
    { x.draft with kind := some h.kind } h
  refine ⟨_, htakes.append hbrace, ?_⟩
  rw [Standing.withHeader, Standing.flush, ht, Draft.applyHeader, Logged.value_bind, hfold]
  exact ⟨rfl, rfl, rfl⟩

end

/-! ## Before and after the header -/

namespace Walk

variable {w : Walk}

/-- The tokens that keep track of lines have no regard for annotations. -/
theorem steps_annotated {ts : List Token} (h : ∀ t ∈ ts, t.kind.isLine = true)
    (a : Annotation) (w : Walk) :
    (w.annotated a).steps ts = (w.steps ts).annotated a := by
  induction ts generalizing w with
  | nil => rfl
  | cons t ts ih =>
      have hline := h t List.mem_cons_self
      have hstep : ((w.annotated a).step t).value = (w.step t).value.annotated a := by
        rw [step_of_isLine hline, step_of_isLine hline, plainStep, plainStep]
        cases hk : t.kind with
        | lineNumber | sign => rfl
        | _ =>
            rw [hk] at hline
            cases hline
      show ((w.annotated a).step t).value.steps ts = _
      rw [hstep]
      exact ih (fun u hu => h u (List.mem_cons_of_mem t hu)) (w.step t).value

/-- A keyword in ordinary code ends an annotation. -/
theorem step_keyword_annotated (hcode : w.readsCode = true) {t : Token}
    (ht : t.kind = .keyword) : (w.annotated .absent).step t = w.step t := by
  have hspan := w.span_of_readsCode hcode
  have hspan' : (w.annotated .absent).span = .code := hspan
  rw [step_of_not_inArguments (w.not_inArguments_of_readsCode hcode),
    step_of_not_inArguments rfl, plainStep, plainStep, ht]
  show (w.annotated .absent).keyword t.text t.line = w.keyword t.text t.line
  rw [keyword, keyword, hspan, hspan']
  rfl

/-- So before a keyword it does not matter whether there was one. -/
theorem steps_keyword_annotated (hcode : w.readsCode = true) {ts us : List Token}
    {word : String} (hts : bareTokens ts = ⟨.keyword, word, 0⟩ :: us) :
    (w.annotated .absent).steps ts = w.steps ts := by
  obtain ⟨lines, t, rest, rfl, hlines, ht, -⟩ := exists_of_bareTokens_cons hts
  -- up to the keyword only the line changes
  have hbefore : (w.steps lines).readsCode = true := by
    have hstands : (w.annotated .absent).StandsAt w.standing :=
      ⟨rfl, rfl, rfl, rfl, w.span_of_readsCode hcode, rfl⟩
    have hspan := (hstands.lines hlines).span
    rw [steps_annotated hlines] at hspan
    have hsame : w.steps lines = (w.steps lines).annotated w.annotation :=
      steps_annotated hlines w.annotation w
    refine (w.steps lines).readsCode_iff.mpr ⟨hspan, ?_⟩
    rw [hsame]
    exact w.not_inArguments_of_readsCode hcode
  have hkind : t.kind = .keyword := (congrArg Token.kind ht :)
  have hstep := step_keyword_annotated hbefore hkind
  rw [steps_append, steps_append, steps_annotated hlines]
  show (((w.steps lines).annotated .absent).step t).value.steps rest = _
  rw [hstep]
  rfl

end Walk

/-- Outside any type nothing is known of a header. -/
theorem header_walkAt_of_outside {ix : LineIndex} {ts : List Token}
    (h : (walkAt ix ts).draft.kind = none) : (walkAt ix ts).draft.header = {} := by
  induction ts using List.reverseRecOn with
  | nil => rfl
  | append_singleton ts t ih =>
      have heffect := (walkAt ix ts).headerEffect t
      rw [← walkAt_snoc] at heffect
      cases heffect with
      | begins htype _ hkind _ =>
          obtain ⟨k, hk⟩ := TypeKind.exists_ofWord? htype.word
          cases h.symm.trans (hkind.trans hk)
      | other _ _ hkeeps => exact hkeeps.header.trans (ih (hkeeps.kind.symm.trans h))
      | ends _ hkind hheader _ =>
          have hout := hkind.symm.trans h
          refine (hheader.resolve_right fun hreads => ?_).trans (ih hout)
          have hin := walkAt_headsType ix ts hreads.1
          rw [Walk.inType, hout] at hin
          cases hin

/-- After the tokens `pre` a walk is in ordinary code, outside any type and between
    two statements. -/
structure BeforeHeader (pre : List Token) : Prop where
  code : (walkAt [] pre).readsCode = true
  outside : (walkAt [] pre).draft.kind = none
  fresh : ∃ doc, (walkAt [] pre).statement = { doc }

/-- The texts of lines do not matter to that. -/
theorem BeforeHeader.walkAt {pre : List Token} (h : BeforeHeader pre) (ix : LineIndex) :
    (walkAt ix pre).readsCode = true ∧ (walkAt ix pre).draft.kind = none
      ∧ ∃ doc, (walkAt ix pre).statement = { doc } := by
  have hsame : JavaOutline.walkAt [] pre = (JavaOutline.walkAt ix pre).unsigned :=
    Walk.steps_unsigned { cursor := { lines := ix } } pre
  obtain ⟨hcode, hout, hfresh⟩ := h
  rw [hsame] at hcode hout hfresh
  exact ⟨hcode, hout, hfresh⟩

section

variable {extra : List String}

/-- A header starts with a keyword. -/
theorem HeaderSource.exists_keyword (h : HeaderSource extra) :
    ∃ word us, h.lexemes.map (Lexeme.token extra) = ⟨.keyword, word, 0⟩ :: us := by
  rw [lexemes]
  cases hks : h.keywords with
  | nil =>
      have htoken : (Lexeme.word h.kind.word).token extra = ⟨.keyword, h.kind.word, 0⟩ :=
        token_keyword (by cases h.kind <;> decide)
      exact ⟨h.kind.word, _, by simp [htoken]; rfl⟩
  | cons k ks =>
      have htoken : (Lexeme.word k.val).token extra = ⟨.keyword, k.val, 0⟩ :=
        token_keyword (standsFor_keyword k.property).structural
      exact ⟨k.val, _, by simp [htoken]; rfl⟩

/-- The draft after a header, and after whatever follows it. -/
structure HeaderSource.Given (h : HeaderSource extra) (d : Draft) : Prop where
  kind : d.kind = some h.kind
  parents : d.parents = h.parents
  interfaces : d.interfaces = h.interfaces

theorem HeaderSource.Given.shape {h : HeaderSource extra} {d : Draft} (hd : h.Given d) :
    d.shape.withoutConstants = h.shape := by
  rw [Draft.shape, HeaderSource.shape, hd.kind, hd.parents, hd.interfaces]
  cases h.kind <;> rfl

/-- What follows the header leaves it alone. -/
theorem HeaderSource.Given.grows {h : HeaderSource extra} {d e : Draft} (hd : h.Given d)
    (he : d.Grows e) : h.Given e := by
  obtain ⟨fs, ms, cs, license, rfl⟩ := he
  exact ⟨hd.kind, hd.parents, hd.interfaces⟩

/-- One header with its brace, read by a walk that knows of none. -/
theorem HeaderSource.steps (h : HeaderSource extra) {w : Walk} {ts : List Token}
    {doc : Doc} (hcode : w.readsCode = true) (hout : w.draft.kind = none)
    (hheader : w.draft.header = {}) (hfresh : w.statement = { doc })
    (hts : bareTokens ts = h.lexemes.map (Lexeme.token extra) ++ [Token.brace]) :
    h.Given (w.steps ts).draft ∧ (w.steps ts).PastHeader := by
  obtain ⟨word, us, hword⟩ := h.exists_keyword
  obtain ⟨d, htakes, hkind, hparents, hinterfaces⟩ :=
    takes_headerSource (x := w.standing) h hfresh hout
  have hstands : (w.steps ts).StandsAt (w.standing.next d) := by
    rw [← Walk.steps_keyword_annotated hcode (by rw [hts, hword]; rfl)]
    exact htakes _ ts ⟨rfl, rfl, rfl, rfl, w.span_of_readsCode hcode, rfl⟩ hts
  have hd : (w.steps ts).draft.unplaced = d := hstands.draft
  have hkind : (w.steps ts).draft.kind = some h.kind := hstands.kind.trans hkind
  refine ⟨⟨hkind, ?_, ?_⟩, ?_, ?_⟩
  · have hnone : w.draft.parents = [] := (congrArg TypeHeader.parents hheader :)
    calc (w.steps ts).draft.parents
        = d.parents := (congrArg Draft.parents hd :)
      _ = w.draft.parents ++ h.parents := hparents
      _ = h.parents := by rw [hnone, List.nil_append]
  · have hnone : w.draft.interfaces = [] := (congrArg TypeHeader.interfaces hheader :)
    calc (w.steps ts).draft.interfaces
        = d.interfaces := (congrArg Draft.interfaces hd :)
      _ = w.draft.interfaces ++ h.interfaces := hinterfaces
      _ = h.interfaces := by rw [hnone, List.nil_append]
  · rw [Walk.inType, hkind]
    rfl
  · rw [hstands.statement]
    rfl

/-- A header in its place. -/
theorem HeaderSource.given (h : HeaderSource extra) {pre ts : List Token}
    (hpre : BeforeHeader pre)
    (hts : bareTokens ts = h.lexemes.map (Lexeme.token extra) ++ [Token.brace])
    (ix : LineIndex) (post : List Token) :
    h.Given (walkAt ix (pre ++ ts ++ post)).draft := by
  obtain ⟨hcode, hout, doc, hfresh⟩ := hpre.walkAt ix
  obtain ⟨hgiven, hpast⟩ := h.steps hcode hout (header_walkAt_of_outside hout) hfresh hts
  have hafter : walkAt ix (pre ++ ts ++ post)
      = ((walkAt ix pre).steps ts).steps post := by
    rw [walkAt, Walk.steps_append, Walk.steps_append]
    rfl
  rw [hafter]
  exact hgiven.grows (hpast.steps post).draft

/-- **THE CLAUSES OF A HEADER.**  Of every header with its brace, after any tokens
    that leave a walk in ordinary code, outside any type and between two statements,
    and before any tokens at all: the parents are the extended types and the interfaces
    the implemented ones, in order, but permitted types are added to the clause that
    stands before them.  So the clauses are kept apart if and only if nothing is
    permitted, or nothing is extended and nothing implemented.  The declaration has
    what the walk has. -/
theorem header_clauses (h : HeaderSource extra) {pre ts : List Token}
    (hpre : BeforeHeader pre)
    (hts : bareTokens ts = h.lexemes.map (Lexeme.token extra) ++ [Token.brace]) :
    (∀ ix post, (walkAt ix (pre ++ ts ++ post)).draft.parents = h.parents
        ∧ (walkAt ix (pre ++ ts ++ post)).draft.interfaces = h.interfaces)
      ∧ (∀ post d, (Declaration.ofTokens (pre ++ ts ++ post)).value = .ok d →
          d.shape.withoutConstants = h.shape)
      ∧ ((h.parents = h.extending.map Word.text
            ∧ h.interfaces = h.implementing.map Word.text)
          ↔ h.permitting = [] ∨ (h.extending = [] ∧ h.implementing = [])) := by
  refine ⟨fun ix post => ?_, fun post d hd => ?_, h.clauses_apart_iff⟩
  · have hgiven := h.given hpre hts ix post
    exact ⟨hgiven.parents, hgiven.interfaces⟩
  · obtain ⟨ix, w, -, hrun, rfl⟩ := Declaration.exists_run_of_ofTokens hd
    obtain rfl : w = walkAt ix (pre ++ ts ++ post) := Walk.eq_steps_of_run hrun
    rw [Walk.finish_value]
    have hgiven := h.given hpre hts ix post
    exact (hgiven.grows (.withConstants _ _)).shape

end

/-- An interface that extends a type and permits another. -/
def sealedInterface : HeaderSource [] where
  keywords := []
  kind := .interfaceKind
  name := ⟨"S", .refl true, .refl false⟩
  extending := [⟨"B", .refl true, .refl false⟩]
  implementing := []
  permitting := [⟨"C", .refl true, .refl false⟩]

/-- The permitted type is read as a second parent. -/
theorem header_clauses_sealed :
    ∃ d, (outline "interface S extends B permits C \x7b \x7d" {}).value = .ok d
      ∧ d.shape = .interfaceShape ["B", "C"]
      ∧ sealedInterface.extending.map Word.text = ["B"] := by
  let tokens := tokenize "interface S extends B permits C \x7b \x7d" []
  have hpre : BeforeHeader (tokens.take 1) :=
    ⟨by decide +kernel, by decide +kernel, {}, by decide +kernel⟩
  have hts : bareTokens ((tokens.drop 1).take 7)
      = sealedInterface.lexemes.map (Lexeme.token []) ++ [Token.brace] := by decide +kernel
  have hsplit : tokens.take 1 ++ (tokens.drop 1).take 7 ++ tokens.drop 8 = tokens := by
    decide +kernel
  obtain ⟨-, hshape, -⟩ := header_clauses sealedInterface hpre hts
  have hkind : (outline "interface S extends B permits C \x7b \x7d" {}).value.toOption.map
      Declaration.kind = some .interfaceKind := by decide +kernel
  cases hd : (outline "interface S extends B permits C \x7b \x7d" {}).value with
  | error f =>
      rw [hd] at hkind
      cases hkind
  | ok d =>
      have hclauses := hshape (tokens.drop 8) d (by rw [hsplit]; exact hd)
      refine ⟨d, rfl, ?_, rfl⟩
      -- only the shape of an enumeration loses its constants
      have hkept : d.shape.withoutConstants = d.shape := by
        cases hs : d.shape with
        | enumShape interfaces constants =>
            rw [hs] at hclauses
            cases hclauses
        | _ => rfl
      rw [← hkept, hclauses]
      rfl

end JavaOutline
