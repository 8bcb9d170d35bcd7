import JavaOutline.Proofs.CommentAgreement

/-! # Inside a statement

    Between the start and the end of a statement inside a type, a walk only
    gathers: the tokens change the statement under construction, as
    `Statement.take` says, and where it starts, and possibly the licence, but
    nothing else (`Walk.step_amid`).  A statement that ends there adds at most one
    field or one method (`Walk.gainsMember_endStatement`,
    `Walk.gainsMember_beginBlock`). -/

namespace JavaOutline

open Text

/-- A token that is a word. -/
def Token.isWord (t : Token) : Bool := t.kind == .keyword || t.kind == .symbol

theorem Statement.take_isHeader (s : Statement) (t : Token) :
    (s.take t).isHeader = s.isHeader := by
  rw [take]
  cases t.kind with
  | keyword =>
      dsimp only
      split
      · rfl
      · split
        · cases Part.ofKeyword? t.text <;> rfl
        · repeat' split
          all_goals rfl
  | symbol =>
      dsimp only
      split <;> rfl
  | paramEnd =>
      dsimp only
      split <;> rfl
  | _ => rfl

namespace Walk

variable {w v : Walk} {t : Token}

/-- The walk `w` in the middle of a statement. -/
def amid (w : Walk) (license : String) (s : Statement) (a : Annotation)
    (start : Option Int) : Walk :=
  { w with
    draft := { w.draft with license }
    statement := s
    annotation := a
    cursor := { w.cursor with statementLine := start } }

/-- What a token inside a statement makes of the licence, of the annotation and of
    the start of the statement. -/
structure Gathered (w : Walk) (t : Token) (license : String) (a : Annotation)
    (start : Option Int) : Prop where
  license : license = w.draft.license ∨ (t.kind = .keyword ∧ t.text = "package")
  annotation : a = .absent ∨ (a = w.annotation ∧ t.isWord = false)
    ∨ (a = .named ∧ t.isWord = true ∧ startsWith '@' t.text = true)
  start : start = w.cursor.statementLine ∨ start = w.cursor.mark.statementLine

/-- The statement still starts where it did. -/
theorem Gathered.startLine {license : String} {a : Annotation} {start : Option Int}
    (h : w.Gathered t license a start) :
    start.getD w.cursor.line = w.cursor.startLine := by
  rcases h.start with rfl | rfl <;> rfl

/-- A change of the statement, with whatever licence. -/
theorem gather_amid (w : Walk) (c : Change) (license : String) (a : Annotation) :
    ∃ start, { w.gather c with draft.license := license, annotation := a }
        = w.amid license (w.statement.change c) a start
      ∧ (start = w.cursor.statementLine ∨ start = w.cursor.mark.statementLine) := by
  cases hmarks : c.marks with
  | true =>
      refine ⟨_, ?_, .inr rfl⟩
      rw [gather, hmarks]
      rfl
  | false =>
      refine ⟨_, ?_, .inl rfl⟩
      rw [gather, hmarks]
      rfl

/-- A token that opens or closes no comment leaves the walk in ordinary code. -/
theorem span_step_code (hcode : w.readsCode = true) (hline : t.kind.isLine = false)
    (hmark : t.kind = .symbol → t.text ∉ commentMarks) :
    (w.step t).value.span = w.span := by
  by_cases hk : t.kind = .symbol
  · have hnext := congrArg Context.span
      (context_step_of_not_inArguments (w.not_inArguments_of_readsCode hcode) t)
    have hplain := hmark hk
    simp only [commentMarks, List.mem_cons, List.not_mem_nil, or_false, not_or] at hplain
    obtain ⟨hdash, hblock, hdoc, hclose⟩ := hplain
    have hspan : w.context.span = .code := w.span_of_readsCode hcode
    rw [Context.plain, hk] at hnext
    refine hnext.trans ?_
    show w.context.span.after t.text = w.context.span
    rw [hspan, Span.after, if_neg (show Span.code ≠ .lineComment by decide), if_neg hclose,
      if_neg (not_not_intro rfl), if_neg hdoc, if_neg hblock, if_neg hdash]
  · refine w.span_step hk fun hk' => ?_
    rw [hk'] at hline
    cases hline

/-- The annotation after a token that does not begin its arguments. -/
theorem annotation_step_code (hcode : w.readsCode = true) (hline : t.kind.isLine = false)
    (hnamed : w.annotation = .named → t.kind ≠ .paramStart) :
    Walk.annotation (w.step t).value = .absent
      ∨ (Walk.annotation (w.step t).value = w.annotation ∧ t.isWord = false)
      ∨ (Walk.annotation (w.step t).value = .named ∧ t.isWord = true
          ∧ startsWith '@' t.text = true) := by
  have hspan : w.context.span = .code := w.span_of_readsCode hcode
  have hnext : Walk.annotation (w.step t).value = Context.annotation (w.context.plain t) :=
    congrArg Context.annotation
      (context_step_of_not_inArguments (w.not_inArguments_of_readsCode hcode) t)
  rw [hnext, Context.plain, Token.isWord]
  cases hk : t.kind with
  | keyword =>
      simp only [if_pos hspan]
      cases hat : Keyword.isAnnotation t.text with
      | true => exact .inr (.inr ⟨rfl, rfl, (Bool.and_eq_true_iff.mp hat).1⟩)
      | false => exact .inl rfl
  | symbol =>
      cases hat : startsWith '@' t.text with
      | true => exact .inr (.inr ⟨if_pos ⟨hspan, rfl⟩, rfl, rfl⟩)
      | false => exact .inl (if_neg fun h => Bool.false_ne_true h.2)
  | paramStart =>
      have hother : ¬ (w.context.span = .code ∧ Context.annotation w.context = .named) :=
        fun h => hnamed h.2 hk
      simp only [if_neg hother]
      exact .inr (.inl ⟨rfl, rfl⟩)
  | join | paramEnd | statementEnd => exact .inr (.inl ⟨rfl, rfl⟩)
  | lineNumber | sign =>
      rw [hk] at hline
      cases hline

/-- **A token inside a statement only adds to the statement.** -/
theorem step_amid (hcode : w.readsCode = true) (hin : w.inType = true)
    (hline : t.kind.isLine = false) (hend : t.kind ≠ .statementEnd)
    (hmark : t.kind = .symbol → t.text ∉ commentMarks)
    (hnamed : w.annotation = .named → t.kind ≠ .paramStart) :
    ∃ license a start, (w.step t).value
        = w.amid license (w.statement.take t) a start
      ∧ w.Gathered t license a start := by
  have hspan := span_step_code hcode hline hmark
  have hpassing := annotation_step_code hcode hline hnamed
  obtain ⟨m, hm, hstep⟩ := w.exists_move t
  rw [hstep] at hspan hpassing ⊢
  cases hm with
  | @aside span a _ _ _ hquiet =>
      cases hquiet hcode with
      | mark hk htext => exact absurd htext (hmark hk)
      | arguments hk hn => exact absurd hk (hnamed hn)
      | sign hk =>
          rw [hk] at hline
          cases hline
      | name hk hat hr =>
          -- the name of an annotation
          subst hr
          refine ⟨w.draft.license, a, w.cursor.statementLine, ?_, .inl rfl, hpassing, .inl rfl⟩
          have htake : w.statement.take t = w.statement := by
            rw [Statement.take, hk]
            exact if_pos hat
          have hstays : span = w.span := hspan
          rw [htake, take, hstays]
          rfl
  | line hk =>
      rw [hk] at hline
      cases hline
  | @gather c a _ hg =>
      obtain ⟨start, hw, hstart⟩ := w.gather_amid c w.draft.license a
      rw [hg.takes hin w.statement rfl] at hw
      exact ⟨_, a, start, hw, .inl rfl, hpassing, hstart⟩
  | @license c hg hk hword =>
      obtain ⟨start, hw, hstart⟩ := w.gather_amid c
        (if w.headerComment ≠ "" then w.headerComment else w.draft.license) .absent
      rw [hg.takes hin w.statement rfl] at hw
      exact ⟨_, .absent, start, hw, .inr ⟨hk, hword⟩, .inl rfl, hstart⟩
  | type _ _ _ hfresh => exact absurd (hfresh.symm.trans hin) Bool.false_ne_true
  | closeDoc _ hdoc => cases hdoc.symm.trans (w.span_of_readsCode hcode)
  | ends _ hk => exact absurd hk hend

/-! ## The end of a statement -/

/-- The walk with more members. -/
def withMembers (w : Walk) (fs : List Field) (ms : List Method) : Walk :=
  { w with draft := { w.draft with
      fields := w.draft.fields ++ fs
      methods := w.draft.methods ++ ms } }

/-- At most one field or one method more. -/
def GainsMember (w v : Walk) : Prop :=
  ∃ fs ms, fs.length + ms.length ≤ 1 ∧ v = w.withMembers fs ms

theorem GainsMember.none (w : Walk) : w.GainsMember w := by
  refine ⟨[], [], Nat.zero_le 1, ?_⟩
  rw [withMembers, List.append_nil, List.append_nil]

theorem gainsMember_addField (w : Walk) : w.GainsMember w.addField.value := by
  refine ⟨(Field.ofParts? w.statement.parts w.cursor.startLine
    w.cursor.signature).value.toList, [], ?_, ?_⟩
  · cases (Field.ofParts? w.statement.parts w.cursor.startLine
      w.cursor.signature).value <;> simp
  · rw [withMembers, List.append_nil]
    rfl

theorem gainsMember_addMethod (w : Walk) : w.GainsMember w.addMethod.value := by
  refine ⟨[], (Method.ofParts? w.statement.parts w.statement.doc w.cursor.startLine
    w.cursor.signature w.statement.pendingName).value.toList, ?_, ?_⟩
  · cases (Method.ofParts? w.statement.parts w.statement.doc w.cursor.startLine
      w.cursor.signature w.statement.pendingName).value <;> simp
  · rw [withMembers, List.append_nil]
    rfl

theorem gainsMember_endStatement (hin : w.inType = true)
    (hwait : w.awaitsConstants = false) : w.GainsMember w.endStatement.value := by
  rw [endStatement, Logged.value_bind, hwait, hin]
  dsimp only
  split
  · contradiction
  · split
    · exact .none w
    · split
      · contradiction
      · split
        · exact w.gainsMember_addMethod
        · exact w.gainsMember_addField

theorem gainsMember_beginBlock (hin : w.inType = true)
    (hwait : w.awaitsConstants = false) (hheader : w.statement.isHeader = false) :
    w.GainsMember w.beginBlock.value := by
  rw [beginBlock, Logged.value_bind]
  split
  · exact .none w
  · have hblock : w.GainsMember w.blockStatement.value := by
      rw [blockStatement, hheader, if_neg Bool.false_ne_true, hwait,
        if_neg Bool.false_ne_true]
      split
      · exact w.gainsMember_addField
      · exact w.gainsMember_addMethod
    obtain ⟨fs, ms, hone, hv⟩ := hblock
    refine ⟨fs, ms, hone, ?_⟩
    rw [Logged.value_bind, Logged.value_pure, hv]
    exact if_pos hin

/-- **The end of a statement inside a type adds at most one member.** -/
theorem gainsMember_statementEnd (hspan : w.span = .code) (hin : w.inType = true)
    (hwait : w.awaitsConstants = false) (hheader : w.statement.isHeader = false)
    (text : String) (line : Int) :
    w.nextStatement.GainsMember (w.statementEnd text line).value := by
  have hended : ∀ {v : Walk}, w.flush.GainsMember v →
      w.nextStatement.GainsMember v.nextStatement := by
    rintro _ ⟨fs, ms, hone, rfl⟩
    exact ⟨fs, ms, hone, rfl⟩
  rw [statementEnd, if_neg (not_not_intro hspan)]
  split
  · exact hended (gainsMember_endStatement hin hwait)
  · exact hended (gainsMember_beginBlock hin hwait hheader)

end Walk

end JavaOutline
