import JavaOutline.Proofs.CommentSpans
import JavaOutline.Proofs.Growth
import JavaOutline.Proofs.Moves

/-! # What the text of a doc comment can change

    The words of a doc comment end up in one record: that of the type, or that of
    one method.  Everything else in an outline is the same whatever a doc comment
    says.

    The proof follows two walks over lists of tokens that differ in the words of
    one doc comment.  `Walk.Twin` says how they stay together: either the two
    comments are still waiting for a declaration and the drafts are the same, or
    nothing is waiting and the drafts differ in one record (`Draft.Differs`).
    Every move keeps it (`bisimulation_twin`), and the end of a statement is the
    only one that gets from the first case to the second. -/

namespace JavaOutline

/-! ## Records that differ in their documentation -/

def Param.undocumented (p : Param) : Param := { p with description := "" }

def ExceptionDoc.undocumented (e : ExceptionDoc) : ExceptionDoc :=
  { e with description := "" }

/-- A method without what a doc comment can say about it. -/
def Method.undocumented (m : Method) : Method :=
  { m with
    returnType := ""
    description := ""
    deprecated := ""
    see := ""
    parameters := m.parameters.map Param.undocumented
    exceptions := m.exceptions.map ExceptionDoc.undocumented }

/-- The two declarations differ at most in what is said about the type itself,
    or at most in what is said about a single method. -/
inductive Declaration.Differs (d e : Declaration) : Prop where
  | own (description author version deprecated see : String)
      (same : e = { d with description, author, version, deprecated, see }) :
      Differs d e
  | method (i : Nat) (m n : Method) (old : d.methods[i]? = some m)
      (same : e = { d with methods := d.methods.set i n })
      (rest : n.undocumented = m.undocumented) : Differs d e

/-- The same for drafts. -/
inductive Draft.Differs (d e : Draft) : Prop where
  | own (description author version deprecated see : String)
      (same : e = { d with description, author, version, deprecated, see }) :
      Differs d e
  | method (i : Nat) (m n : Method) (old : d.methods[i]? = some m)
      (same : e = { d with methods := d.methods.set i n })
      (rest : n.undocumented = m.undocumented) : Differs d e

/-- A header overwrites what is said about the type. -/
theorem Draft.applyHeader_documented (d : Draft) (ps : List Part) (doc : Doc)
    (signature : String) (methods : List Method)
    (description author version deprecated see : String) :
    (Draft.applyHeader
        { d with methods, description, author, version, deprecated, see }
        ps doc signature).value
      = { (d.applyHeader ps doc signature).value with methods } := by
  have hread := fold_headerStep_map (g := fun d : Draft =>
      { d with methods, description, author, version, deprecated, see })
    (fun d slot p => by
      rw [headerStep, headerStep]
      cases p.kind with
      | identifier => cases slot <;> rfl
      | _ => rfl) ps d .free
  rw [applyHeader, applyHeader, Logged.value_bind, Logged.value_bind, hread]
  rfl

/-- Two doc comments make of a statement two methods that differ in their
    documentation only, or no method at all. -/
theorem Method.ofParts?_undocumented (ps : List Part) (doc doc' : Doc)
    (line : Int) (signature pendingName : String) :
    ((ofParts? ps doc line signature pendingName).value = none
        ∧ (ofParts? ps doc' line signature pendingName).value = none)
      ∨ ∃ m n, (ofParts? ps doc line signature pendingName).value = some m
          ∧ (ofParts? ps doc' line signature pendingName).value = some n
          ∧ n.undocumented = m.undocumented := by
  rw [ofParts?, ofParts?, Logged.value_bind, Logged.value_bind]
  generalize (Logged.fold MethodReading.step {} ps).value = r
  by_cases hname : r.finalName pendingName = "" ∧ ¬ r.isConstructor
  · simp only [if_pos hname]
    exact .inl ⟨rfl, rfl⟩
  · simp only [if_neg hname]
    refine .inr ⟨_, _, rfl, rfl, ?_⟩
    simp only [undocumented, matchParams, matchExceptions, List.map_map]
    rfl

namespace Draft.Differs

variable {d e : Draft}

theorem refl (d : Draft) : d.Differs d :=
  .own d.description d.author d.version d.deprecated d.see rfl

theorem kind (h : d.Differs e) : e.kind = d.kind := by
  cases h with
  | own _ _ _ _ _ hsame => rw [hsame]
  | method _ _ _ _ hsame _ => rw [hsame]

theorem constants (h : d.Differs e) : e.constants = d.constants := by
  cases h with
  | own _ _ _ _ _ hsame => rw [hsame]
  | method _ _ _ _ hsame _ => rw [hsame]

/-- A change that has nothing to do with documentation. -/
theorem map (h : d.Differs e) {g : Draft → Draft}
    (hown : ∀ (d : Draft) (description author version deprecated see : String),
      g { d with description, author, version, deprecated, see }
        = { g d with description, author, version, deprecated, see })
    (hmethods : ∀ (d : Draft) (ms : List Method),
      g { d with methods := ms } = { g d with methods := ms })
    (hkeep : (g d).methods = d.methods) : (g d).Differs (g e) := by
  cases h with
  | own a b c x y hsame => exact .own a b c x y (by rw [hsame, hown])
  | method i m n hold hsame hrest =>
      exact .method i m n (by rw [hkeep]; exact hold)
        (by rw [hsame, hmethods, hkeep]) hrest

/-- More methods after those that are there. -/
theorem withMethods (h : d.Differs e) (ms : List Method) :
    Draft.Differs { d with methods := d.methods ++ ms }
      { e with methods := e.methods ++ ms } := by
  cases h with
  | own a b c x y hsame => exact .own a b c x y (by rw [hsame])
  | method i m n hold hsame hrest =>
      have hi : i < d.methods.length := (List.getElem?_eq_some_iff.mp hold).1
      refine .method i m n ?_ ?_ hrest
      · rw [List.getElem?_append_left hi]
        exact hold
      · rw [hsame, List.set_append_left _ _ hi]

/-- The methods that two doc comments make of the same statement. -/
theorem ofParts (d : Draft) (ps : List Part) (doc doc' : Doc) (line : Int)
    (signature pendingName : String) :
    Draft.Differs
      { d with methods := d.methods
          ++ (Method.ofParts? ps doc line signature pendingName).value.toList }
      { d with methods := d.methods
          ++ (Method.ofParts? ps doc' line signature pendingName).value.toList } := by
  rcases Method.ofParts?_undocumented ps doc doc' line signature pendingName
    with ⟨hm, hn⟩ | ⟨m, n, hm, hn, hrest⟩
  · rw [hm, hn]
    exact refl _
  · rw [hm, hn]
    exact .method d.methods.length m n (by simp) (by simp) hrest

/-- A header leaves the methods alone. -/
theorem applyHeader (h : d.Differs e) (ps : List Part) (doc : Doc)
    (signature : String) :
    (d.applyHeader ps doc signature).value.Differs
      (e.applyHeader ps doc signature).value := by
  obtain ⟨_, _, _, _, _, hframe⟩ := d.applyHeader_frame ps doc signature
  have hmethods : (d.applyHeader ps doc signature).value.methods = d.methods := by
    rw [hframe]
    rfl
  cases h with
  | own a b c x y hsame =>
      have happlied : (e.applyHeader ps doc signature).value
          = (d.applyHeader ps doc signature).value := by
        rw [hsame]
        refine (d.applyHeader_documented ps doc signature d.methods a b c x y).trans ?_
        rw [← hmethods]
      rw [happlied]
      exact refl _
  | method i m n hold hsame hrest =>
      refine .method i m n (by rw [hmethods]; exact hold) ?_ hrest
      rw [hsame, hmethods]
      exact d.applyHeader_documented ps doc signature _ d.description d.author d.version
        d.deprecated d.see

theorem finish (h : d.Differs e) : d.finish.value.Differs e.finish.value := by
  rw [finish_value, finish_value]
  cases h with
  | own a b c x y hsame => exact .own a b c x y (by rw [hsame]; rfl)
  | method i m n hold hsame hrest =>
      exact .method i m n hold (by rw [hsame]; rfl) hrest

end Draft.Differs

/-! ## Two walks -/

namespace Walk

/-- The walk with another draft and another doc comment. -/
def put (e : Draft) (doc : Doc) (w : Walk) : Walk :=
  { w with draft := e, statement.doc := doc }

/-- Either both walks have the same draft, or they wait with the same doc
    comment and their drafts differ in one record. -/
def Apart (w : Walk) (e : Draft) (doc : Doc) : Prop :=
  e = w.draft ∨ (doc = w.statement.doc ∧ w.draft.Differs e)

/-- The walk `v` is the walk `w` but for one doc comment. -/
def Twin (w v : Walk) : Prop :=
  ∃ e doc, v = w.put e doc ∧ w.Apart e doc

/-- A statement has ended, so the doc comments do not matter any more. -/
def Ended (w v : Walk) : Prop :=
  ∃ e doc, v = w.put e doc ∧ w.draft.Differs e

variable {w v : Walk} {e : Draft} {doc : Doc}

theorem Apart.differs (h : w.Apart e doc) : w.draft.Differs e := by
  rcases h with rfl | ⟨-, h⟩
  · exact .refl _
  · exact h

theorem Apart.kind (h : w.Apart e doc) : e.kind = w.draft.kind :=
  h.differs.kind

/-- A change of the draft that has nothing to do with documentation. -/
theorem Apart.map (h : w.Apart e doc) {g : Draft → Draft}
    (hown : ∀ (d : Draft) (description author version deprecated see : String),
      g { d with description, author, version, deprecated, see }
        = { g d with description, author, version, deprecated, see })
    (hmethods : ∀ (d : Draft) (ms : List Method),
      g { d with methods := ms } = { g d with methods := ms })
    (hkeep : (g w.draft).methods = w.draft.methods) (hd : v.draft = g w.draft)
    (hdoc : v.statement.doc = w.statement.doc) : v.Apart (g e) doc := by
  rcases h with rfl | ⟨rfl, h⟩
  · exact .inl hd.symm
  · refine .inr ⟨hdoc.symm, ?_⟩
    rw [hd]
    exact h.map hown hmethods hkeep

/-! ### Ends of statements -/

/-- A method takes the doc comment that waits. -/
theorem Apart.addMethod (h : w.Apart e doc) :
    w.addMethod.value.Ended (w.put e doc).addMethod.value := by
  refine ⟨_, doc, rfl, ?_⟩
  rcases h with rfl | ⟨rfl, h⟩
  · exact .ofParts w.draft w.statement.parts w.statement.doc doc w.cursor.startLine
      w.cursor.signature w.statement.pendingName
  · exact h.withMethods _

/-- The header takes the doc comment that waits. -/
theorem Apart.applyHeader (h : w.Apart e doc) :
    w.applyHeader.value.Ended (w.put e doc).applyHeader.value := by
  refine ⟨_, doc, rfl, ?_⟩
  rcases h with rfl | ⟨rfl, h⟩
  · exact .own doc.description doc.author doc.version doc.deprecated doc.see rfl
  · exact h.applyHeader _ _ _

theorem Apart.addField (h : w.Apart e doc) :
    w.addField.value.Ended (w.put e doc).addField.value := by
  refine ⟨_, doc, rfl, ?_⟩
  exact h.differs.map (g := fun d => { d with fields := d.fields ++ _ })
    (fun _ _ _ _ _ _ => rfl) (fun _ _ => rfl) rfl

theorem Apart.addConstants (h : w.Apart e doc) :
    w.addConstants.value.Ended (w.put e doc).addConstants.value := by
  refine ⟨_, doc, rfl, ?_⟩
  have hconstants : (w.put e doc).draft.constants = w.draft.constants :=
    h.differs.constants
  show Draft.Differs _ { e with constants := e.constants
    ++ (EnumConstant.ofParts (w.put e doc).draft.constants.length _).value }
  rw [hconstants]
  exact h.differs.map (g := fun d => { d with constants := d.constants ++ _ })
    (fun _ _ _ _ _ _ => rfl) (fun _ _ => rfl) rfl

/-- **The doc comment that waits goes to one record**, whatever the statement is
    read as. -/
theorem Apart.readAs (h : w.Apart e doc) (r : Role) :
    (w.readAs r).value.Ended ((w.put e doc).readAs r).value := by
  cases r with
  | nothing | unnamed | loose => exact ⟨e, doc, rfl, h.differs⟩
  | constants => exact h.addConstants
  | field => exact h.addField
  | method => exact h.addMethod
  | header => exact h.applyHeader
  | dependency name =>
      exact ⟨_, doc, rfl, h.differs.map
        (g := fun d => { d with dependencies := d.dependencies ++ [name] })
        (fun _ _ _ _ _ _ => rfl) (fun _ _ => rfl) rfl⟩
  | package name =>
      exact ⟨_, doc, rfl, h.differs.map (g := fun d => { d with packageName := name })
        (fun _ _ _ _ _ _ => rfl) (fun _ _ => rfl) rfl⟩

theorem Apart.close (h : w.Apart e doc) (c : Closing) :
    (w.close c).value.Ended ((w.put e doc).close c).value := by
  obtain ⟨e', doc', hread, hdiffers⟩ := h.readAs c.role
  refine ⟨e', doc', ?_, hdiffers⟩
  rw [Walk.close, hread]
  rfl

/-- A new statement has no doc comment. -/
theorem Ended.nextStatement (h : w.Ended v) :
    w.nextStatement.Twin v.nextStatement := by
  obtain ⟨e, doc, rfl, h⟩ := h
  exact ⟨e, {}, rfl, .inr ⟨rfl, h⟩⟩

/-- **Two such walks stay together.** -/
theorem bisimulation_twin : Bisimulation Twin where
  view := by
    rintro w v ⟨e, doc, rfl, h⟩
    exact congrArg (fun kind => { w.view with kind }) h.kind
  take := by
    rintro w v m ⟨e, doc, rfl, h⟩
    cases m with
    | ends c =>
        have hflush : w.flush.Apart e doc := h
        exact (hflush.close c).nextStatement
    | closeDoc drops clears =>
        -- a later doc comment takes the place of the one that waits
        exact ⟨e, _, rfl, .inr ⟨rfl, h.differs⟩⟩
    | license c =>
        cases c <;> exact ⟨_, doc, rfl, h.map
          (g := fun d => { d with
            license := if w.headerComment ≠ "" then w.headerComment else d.license })
          (fun _ _ _ _ _ _ => rfl) (fun _ _ => rfl) rfl rfl rfl⟩
    | type word =>
        exact ⟨_, doc, rfl, h.map (g := fun d => { d with kind := TypeKind.ofWord? word })
          (fun _ _ _ _ _ _ => rfl) (fun _ _ => rfl) rfl rfl rfl⟩
    | gather c => cases c <;> exact ⟨e, doc, rfl, h⟩
    | aside _ _ r => cases r <;> exact ⟨e, doc, rfl, h⟩
    | line => exact ⟨e, doc, rfl, h⟩

theorem Twin.finish (h : w.Twin v) : w.finish.value.Differs v.finish.value := by
  have hview := bisimulation_twin.view h
  have hawaits : v.awaitsConstants = w.awaitsConstants :=
    congrArg View.awaitsConstants hview
  have hspan : v.span = w.span := congrArg View.span hview
  have hended : w.finishConstants.value.Ended v.finishConstants.value := by
    rw [finishConstants_eq, finishConstants_eq, hawaits, hview, hspan]
    obtain ⟨e, doc, rfl, h⟩ := h
    split
    · split
      · exact Apart.close (w := w.flush) h _
      · exact h.close _
    · exact ⟨e, doc, rfl, h.differs⟩
  obtain ⟨e, doc, hfinish, hdiffers⟩ := hended
  rw [Walk.finish, Walk.finish, Logged.value_bind, Logged.value_bind, hfinish]
  exact hdiffers.finish

/-! ## Walking over a doc comment -/

/-- A walk that is not refused goes on. -/
theorem run_append_ok {ts : List Token} (h : (w.run ts).value = .ok v)
    (us : List Token) : (w.run (ts ++ us)).value = (v.run us).value := by
  induction ts generalizing w with
  | nil =>
      obtain rfl : w = v := Except.ok.inj h
      rfl
  | cons t ts ih =>
      rw [Walk.run] at h
      rw [List.cons_append, Walk.run]
      cases hr : w.refusal? t with
      | some f =>
          rw [hr] at h
          cases h
      | none =>
          rw [hr] at h
          exact ih h

theorem run_append_error {ts : List Token} {f : Failure}
    (h : (w.run ts).value = .error f) (us : List Token) :
    (w.run (ts ++ us)).value = .error f := by
  induction ts generalizing w with
  | nil => exact nomatch h
  | cons t ts ih =>
      rw [Walk.run] at h
      rw [List.cons_append, Walk.run]
      cases hr : w.refusal? t with
      | some f =>
          rw [hr] at h
          exact h
      | none =>
          rw [hr] at h
          exact ih h

end Walk

/-- A word that can stand in a doc comment. -/
def Token.inDoc (t : Token) : Bool :=
  t.kind == .keyword || t.kind == .symbol && t.text != "*/"

/-- The tokens of a doc comment with the words `D`. -/
def docTokens (n : Int) (D : List Token) (m : Int) : List Token :=
  ⟨.symbol, "/**", n⟩ :: (D ++ [⟨.symbol, "*/", m⟩])

theorem Token.kind_of_inDoc {t : Token} (h : t.inDoc = true) :
    t.kind = .keyword ∨ (t.kind = .symbol ∧ t.text ≠ "*/") := by
  simpa [inDoc] using h

namespace Walk

variable {w : Walk}

/-- The walk inside a doc comment, of which it has read the words `ws`. -/
def inDoc (w : Walk) (ws : List DocWord) : Walk :=
  { w with span := .doc, docWords := ws, annotation := .absent }

/-- The walk after a doc comment with the words `ws`. -/
def afterDoc (w : Walk) (ws : List DocWord) : Walk :=
  { (w.inDoc ws).closeDoc.value with span := .code, annotation := .absent }

theorem step_openDoc (hw : w.readsCode = true) (n : Int) :
    (w.step ⟨.symbol, "/**", n⟩).value = w.inDoc [] := by
  rw [step_of_not_inArguments (w.not_inArguments_of_readsCode hw)]
  show (w.symbol "/**").value = _
  rw [symbol, w.span_of_readsCode hw]
  rfl

/-- Inside a doc comment words are only gathered. -/
theorem step_inDoc (ws : List DocWord) {t : Token} (ht : t.inDoc = true) :
    (w.inDoc ws).refusal? t = none
      ∧ ((w.inDoc ws).step t).value = w.inDoc (ws ++ [DocWord.ofWord t.text]) := by
  have hstep : (w.inDoc ws).step t = (w.inDoc ws).plainStep t := rfl
  rw [hstep, plainStep, refusal?]
  rcases Token.kind_of_inDoc ht with hk | ⟨hk, hclose⟩
  · rw [hk]
    exact ⟨rfl, rfl⟩
  · rw [hk]
    refine ⟨rfl, ?_⟩
    show ((w.inDoc ws).symbol t.text).value = _
    have hspan : (w.inDoc ws).span ≠ .lineComment :=
      show Span.doc ≠ .lineComment by decide
    rw [symbol, if_neg hspan, if_neg hclose]
    rfl

theorem run_inDoc {D : List Token} (hD : ∀ t ∈ D, t.inDoc = true)
    (ws : List DocWord) :
    ((w.inDoc ws).run D).value
      = .ok (w.inDoc (ws ++ D.map (DocWord.ofWord ·.text))) := by
  induction D generalizing ws with
  | nil =>
      rw [List.map_nil, List.append_nil]
      rfl
  | cons t D ih =>
      obtain ⟨hr, hstep⟩ := step_inDoc (w := w) ws (hD t (by simp))
      rw [run_cons hr, hstep, ih fun u hu => hD u (by simp [hu]), List.append_assoc]
      rfl

theorem run_docTokens (hw : w.readsCode = true) {D : List Token}
    (hD : ∀ t ∈ D, t.inDoc = true) (n m : Int) :
    (w.run (docTokens n D m)).value
      = .ok (w.afterDoc (D.map (DocWord.ofWord ·.text))) := by
  show ((w.step ⟨.symbol, "/**", n⟩).value.run (D ++ _)).value = _
  rw [step_openDoc hw, run_append_ok (run_inDoc hD [])]
  rfl

/-- After two doc comments the walks are the same but for what they wait with. -/
theorem twin_afterDoc (w : Walk) (ws ws' : List DocWord) :
    (w.afterDoc ws).Twin (w.afterDoc ws') := by
  have hafter : ∀ ws, w.afterDoc ws
      = ((w.inDoc ws).take (w.inDoc ws).view.closeComment).value := by
    intro ws
    rw [← closeComment_eq]
    rfl
  rw [hafter, hafter]
  exact ⟨w.draft, _, rfl, .inl rfl⟩

/-- The line texts have no say in which tokens are refused. -/
theorem run_unsigned (w : Walk) (ts : List Token) :
    (w.unsigned.run ts).value = (w.run ts).value.map unsigned := by
  induction ts generalizing w with
  | nil => rfl
  | cons t ts ih =>
      have hrefusal : w.unsigned.refusal? t = w.refusal? t := rfl
      rw [run, run, hrefusal]
      cases w.refusal? t with
      | some f => rfl
      | none =>
          show ((w.unsigned.step t).value.run ts).value = _
          rw [step_unsigned, ih]
          rfl

/-- Which line texts are known does not matter to where a walk gets. -/
theorem unsigned_of_run {ix : LineIndex} {ts : List Token}
    (h : (Walk.run { cursor := { lines := ix } } ts).value = .ok w) :
    w.unsigned = Walk.steps {} ts := by
  rw [eq_steps_of_run h]
  exact (steps_unsigned { cursor := { lines := ix } } ts).symm

end Walk

theorem LineIndex.gather_congr {us vs : List Token}
    (h : ∀ n ix, gather n ix us = gather n ix vs) (n : Int) (ix : LineIndex)
    (ts : List Token) : gather n ix (ts ++ us) = gather n ix (ts ++ vs) := by
  induction ts generalizing n ix with
  | nil => exact h n ix
  | cons t ts ih =>
      rw [List.cons_append, List.cons_append, gather, gather]
      cases t.kind with
      | lineNumber =>
          cases Text.integer? t.text with
          | none => rfl
          | some m => exact ih m ix
      | _ => exact ih _ _

/-- A doc comment holds no tokens of lines, so its words have no say in the texts
    of lines. -/
theorem LineIndex.gather_docTokens {D D' : List Token}
    (hD : ∀ t ∈ D, t.inDoc = true) (hD' : ∀ t ∈ D', t.inDoc = true) (n m : Int)
    (P R : List Token) :
    ofTokens (P ++ (docTokens n D m ++ R)) = ofTokens (P ++ (docTokens n D' m ++ R)) := by
  have hwords : ∀ D : List Token, (∀ t ∈ D, t.inDoc = true) →
      ∀ t ∈ docTokens n D m, t.kind.isLine = false := by
    intro D hD t ht
    rw [docTokens, List.mem_cons, List.mem_append, List.mem_singleton] at ht
    rcases ht with rfl | ht | rfl
    · rfl
    · rcases Token.kind_of_inDoc (hD t ht) with hk | ⟨hk, -⟩ <;> (rw [hk]; rfl)
    · rfl
  refine gather_congr (fun k ix => ?_) 1 [] P
  rw [gather_tokens k ix (hwords D hD), gather_tokens k ix (hwords D' hD')]

theorem Declaration.ofTokens_of_ok {ts : List Token} {ix : LineIndex}
    (hix : LineIndex.ofTokens ts = .ok ix) :
    (ofTokens ts).value
      = (Walk.run { cursor := { lines := ix } } ts).value.map (·.finish.value) := by
  rw [ofTokens, hix]
  simp only [Logged.value_bind]
  cases (Walk.run { cursor := { lines := ix } } ts).value <;> rfl

theorem Declaration.ofTokens_of_error {ts : List Token} {text : String}
    (hix : LineIndex.ofTokens ts = .error text) :
    (ofTokens ts).value = .error (.lineNumber text) := by
  rw [ofTokens, hix]
  rfl

/-- A declaration is what a walk over all the tokens ends with. -/
theorem Declaration.exists_run_of_ofTokens {ts : List Token} {d : Declaration}
    (h : (ofTokens ts).value = .ok d) :
    ∃ ix w, LineIndex.ofTokens ts = .ok ix
      ∧ (Walk.run { cursor := { lines := ix } } ts).value = .ok w
      ∧ d = w.finish.value := by
  cases hix : LineIndex.ofTokens ts with
  | error text =>
      rw [ofTokens_of_error hix] at h
      cases h
  | ok ix =>
      rw [ofTokens_of_ok hix] at h
      cases hrun : (Walk.run { cursor := { lines := ix } } ts).value with
      | error f =>
          rw [hrun] at h
          cases h
      | ok w =>
          rw [hrun] at h
          exact ⟨ix, w, rfl, hrun, (Except.ok.inj h).symm⟩

/-- **DOC TEXT CHANGES ONE RECORD.**  Put the words of a doc comment where a walk
    reads ordinary code.  Whatever the words are, the same failure comes out, or
    declarations that differ at most in what is said about the type, or at most
    in what is said about a single method. -/
theorem ofTokens_doc_words {P R D D' : List Token} (n m : Int)
    (hcode : ∀ w, (Walk.run {} P).value = .ok w → w.readsCode = true)
    (hD : ∀ t ∈ D, t.inDoc = true) (hD' : ∀ t ∈ D', t.inDoc = true) :
    (∃ f, (Declaration.ofTokens (P ++ (docTokens n D m ++ R))).value = .error f
        ∧ (Declaration.ofTokens (P ++ (docTokens n D' m ++ R))).value = .error f)
      ∨ ∃ d e, (Declaration.ofTokens (P ++ (docTokens n D m ++ R))).value = .ok d
          ∧ (Declaration.ofTokens (P ++ (docTokens n D' m ++ R))).value = .ok e
          ∧ d.Differs e := by
  have hsame := LineIndex.gather_docTokens hD' hD n m P R
  cases hix : LineIndex.ofTokens (P ++ (docTokens n D m ++ R)) with
  | error text =>
      exact .inl ⟨_, Declaration.ofTokens_of_error hix,
        Declaration.ofTokens_of_error (hsame.trans hix)⟩
  | ok ix =>
      rw [Declaration.ofTokens_of_ok hix, Declaration.ofTokens_of_ok (hsame.trans hix)]
      cases hP : (Walk.run { cursor := { lines := ix } } P).value with
      | error f =>
          rw [Walk.run_append_error hP, Walk.run_append_error hP]
          exact .inl ⟨f, rfl, rfl⟩
      | ok w =>
          have hw : w.readsCode = true := by
            have hrun := Walk.run_unsigned { cursor := { lines := ix } } P
            rw [hP] at hrun
            exact hcode w.unsigned hrun
          rw [Walk.run_append_ok hP, Walk.run_append_ok hP,
            Walk.run_append_ok (Walk.run_docTokens hw hD n m),
            Walk.run_append_ok (Walk.run_docTokens hw hD' n m)]
          have htwins := w.twin_afterDoc (D.map (DocWord.ofWord ·.text))
            (D'.map (DocWord.ofWord ·.text))
          rcases Walk.bisimulation_twin.run htwins R
            with ⟨f, hu, hv⟩ | ⟨u, v, hu, hv, htwin⟩
          · rw [hu, hv]
            exact .inl ⟨f, rfl, rfl⟩
          · rw [hu, hv]
            exact .inr ⟨_, _, rfl, rfl, htwin.finish⟩

/-- A class that is open, and a method in it. -/
def openClass : List Token :=
  [Token.lineNumber 1, ⟨.keyword, "class", 1⟩, ⟨.symbol, "A", 1⟩,
    ⟨.statementEnd, "\x7b", 1⟩]

def intMethod : List Token :=
  [⟨.symbol, "int", 1⟩, ⟨.symbol, "f", 1⟩, ⟨.paramStart, "(", 1⟩,
    ⟨.paramEnd, ")", 1⟩, ⟨.statementEnd, ";", 1⟩]

/-- A return value in the doc comment takes the place of the return type, and of
    nothing else. -/
theorem ofTokens_doc_words_return :
    ∃ d e, (Declaration.ofTokens
        (openClass ++ (docTokens 1 [] 1 ++ intMethod))).value = .ok d
      ∧ (Declaration.ofTokens
        (openClass ++ (docTokens 1 [⟨.keyword, "@return", 1⟩, ⟨.symbol, "size", 1⟩] 1
          ++ intMethod))).value = .ok e
      ∧ d.Differs e
      ∧ d.methods.map Method.returnType = ["int"]
      ∧ e.methods.map Method.returnType = ["size"] := by
  have hcode : ∀ w, (Walk.run {} openClass).value = .ok w → w.readsCode = true := by
    have hrun : (Walk.run {} openClass).value.toOption.all (·.readsCode) = true := by
      decide +kernel
    intro w hw
    rwa [hw] at hrun
  have hd : (Declaration.ofTokens
      (openClass ++ (docTokens 1 [] 1 ++ intMethod))).value.toOption.map
        (·.methods.map Method.returnType) = some ["int"] := by decide +kernel
  have he : (Declaration.ofTokens
      (openClass ++ (docTokens 1 [⟨.keyword, "@return", 1⟩, ⟨.symbol, "size", 1⟩] 1
        ++ intMethod))).value.toOption.map
        (·.methods.map Method.returnType) = some ["size"] := by decide +kernel
  have hwords : ∀ t ∈ [⟨.keyword, "@return", 1⟩, ⟨.symbol, "size", 1⟩],
      Token.inDoc t = true := by decide
  rcases ofTokens_doc_words (R := intMethod) (D := []) 1 1 hcode (by decide) hwords
    with ⟨f, hf, -⟩ | ⟨d, e, hd', he', hdiffers⟩
  · rw [hf] at hd
    exact nomatch hd
  · rw [hd'] at hd
    rw [he'] at he
    exact ⟨d, e, hd', he', hdiffers, Option.some.inj hd, Option.some.inj he⟩

end JavaOutline
