import JavaOutline.Proofs.BlockStatements
import JavaOutline.Proofs.HeaderClauses
import JavaOutline.Proofs.Initializers
import JavaOutline.Proofs.Refusals

/-! # Bodies of methods outside any type

    A method may stand in a file without a type around it.  The tokens of its body
    are then those of a file, and its statements are read as statements of the file.

      * A statement that ends with a semicolon adds no member: a body has been opened
        (`Walk.endStatement_members`).
      * A statement that ends with a brace adds what it declares, as if it stood in a
        type (`Walk.beginBlock_members`).
      * So what is read besides the method is what the statements declare after which
        a block is opened (`Walk.InFileBody.steps`). -/

namespace JavaOutline

open Text

/-! ## Inside a statement -/

/-- Only keywords are words of executable statements. -/
theorem Token.isExecutable_of_kind {t : Token} (h : t.kind ≠ .keyword) :
    t.isExecutable = false := by
  rw [isExecutable, beq_eq_false_iff_ne.mpr h, Bool.false_and]

/-- A change of the statement, unless a word has no characters. -/
theorem Statement.Formed.change {s : Statement} (h : s.Formed) {v : Walk.View} {t : Token}
    {c : Change} (hc : v.Gathers t c) (hword : t.Worded) : (s.change c).Formed := by
  cases c with
  | flush => exact h.flush
  | nested | executable | params => exact ⟨h.flush.words, h.flush.parts⟩
  | name => exact ⟨by simp [Statement.change], h.parts⟩
  | word text =>
      obtain ⟨hk, rfl⟩ := hc.word text rfl
      exact h.addWord (hword hk)
  | part p =>
      obtain ⟨ht, hi⟩ := Part.kind_of_ofKeyword? (hc.part p rfl)
      exact h.flush.add ht hi

namespace Walk

variable {w v : Walk} {t : Token}

/-- What a token that ends no statement does to the statement. -/
structure Follows (w : Walk) (t : Token) (v : Walk) : Prop where
  fileBodyOpen : v.fileBodyOpen = w.fileBodyOpen
  executable : v.statement.isExecutable
    = (w.statement.isExecutable || (w.readsCode && t.isExecutable))
  formed : t.Worded → w.statement.Formed → v.statement.Formed

/-- A token that is no word of an executable statement, or is not in code. -/
theorem Follows.quiet (hq : (w.readsCode && t.isExecutable) = false)
    (hb : v.fileBodyOpen = w.fileBodyOpen)
    (he : v.statement.isExecutable = w.statement.isExecutable)
    (hf : t.Worded → w.statement.Formed → v.statement.Formed) : w.Follows t v :=
  ⟨hb, by rw [he, hq, Bool.or_false], hf⟩

theorem Follows.same (hq : (w.readsCode && t.isExecutable) = false)
    (hb : v.fileBodyOpen = w.fileBodyOpen) (hs : v.statement = w.statement) :
    w.Follows t v :=
  .quiet hq hb (by rw [hs]) fun _ h => hs ▸ h

/-- The words of executable statements, and no others, make a statement one. -/
theorem follows_gather {c : Change} (hc : w.view.Gathers t c)
    (hb : v.fileBodyOpen = w.fileBodyOpen) (hs : v.statement = w.statement.change c) :
    w.Follows t v := by
  refine ⟨hb, ?_, fun hword h => hs ▸ h.change hc hword⟩
  have hexecutable : t.isExecutable = decide (c = .executable) := hc.executable
  have hcode : w.readsCode = true := hc.code
  rw [hs, hexecutable, hcode, Bool.true_and]
  cases c <;> simp [Statement.change, Statement.flush, Statement.add, Statement.addWord]

/-- **A token that ends no statement only goes on with it.** -/
theorem follows_step (h : ¬ w.EndsStatement t) : w.Follows t (w.step t).value := by
  have hquiet : (w.readsCode = true → t.kind ≠ .keyword) →
      (w.readsCode && t.isExecutable) = false := by
    intro hkeyword
    refine Bool.eq_false_iff.mpr fun hboth => ?_
    obtain ⟨hcode, hexecutable⟩ := Bool.and_eq_true_iff.mp hboth
    rw [Token.isExecutable_of_kind (hkeyword hcode)] at hexecutable
    cases hexecutable
  obtain ⟨m, hm, hstep⟩ := w.exists_move t
  rw [hstep]
  cases hm with
  | @aside _ _ r _ _ hplain =>
      have hquiet := hquiet fun hcode => (hplain hcode).plain.1
      cases r <;> exact .same hquiet rfl rfl
  | line hk => exact .same (hquiet fun _ => by rw [hk]; decide) rfl rfl
  | gather hg => exact follows_gather hg rfl rfl
  | license hg => exact follows_gather hg rfl rfl
  | type _ _ hword =>
      have hsilent : t.isExecutable = false := by
        rw [Token.isExecutable, Keyword.isStatementWord_eq_false (.inl hword),
          Bool.and_false]
      refine .quiet (by rw [hsilent, Bool.and_false]) rfl rfl fun _ hs => ?_
      have hadded := hs.flush.add (p := ⟨.typeWord, t.text⟩)
        (show PartKind.typeWord ≠ .typeName by decide)
        (show PartKind.typeWord ≠ .identifier by decide)
      exact ⟨hadded.words, hadded.parts⟩
  | closeDoc hk =>
      refine .quiet (hquiet fun _ => by rw [hk]; decide) rfl rfl fun _ hs =>
        ⟨hs.words, ?_⟩
      show Paired (if _ then _ else _)
      split
      · exact .nil
      · exact hs.parts
  | ends hcode hk => exact absurd ⟨hcode, hk⟩ h

end Walk

/-! ## The ends of statements outside any type -/

namespace Walk

variable {w : Walk} {t : Token}

theorem skips_value (w : Walk) : w.skips.value = decide (¬ w.statement.Kept) := by
  rw [skips]
  by_cases hp : w.statement.parts = []
  · have hskipped : ¬ w.statement.Kept := fun h => h.parts hp
    rw [if_pos hp, decide_eq_true hskipped]
    rfl
  · rw [if_neg hp]
    cases hn : w.statement.isNested with
    | true =>
        have hskipped : ¬ w.statement.Kept := fun h => by
          cases hn.symm.trans h.nested
        rw [decide_eq_true hskipped]
        rfl
    | false =>
        cases hx : w.statement.isExecutable with
        | true =>
            have hskipped : ¬ w.statement.Kept := fun h => by
              cases hx.symm.trans h.executable
            rw [decide_eq_true hskipped]
            rfl
        | false =>
            rw [decide_eq_false (not_not_intro ⟨hp, hn, hx⟩)]
            rfl

theorem not_awaitsConstants (h : w.draft.kind = none) : w.awaitsConstants = false := by
  rw [awaitsConstants, h]
  rfl

/-- Before a brace the statement adds what it declares, and if it is not passed over,
    a body has been opened. -/
theorem beginBlock_members (hout : w.draft.kind = none)
    (hheader : w.statement.isHeader = false) :
    ∃ fs ms, w.beginBlock.value
        = withMembers { w with fileBodyOpen := w.fileBodyOpen || decide w.statement.Kept }
            fs ms
      ∧ fs.map Field.unplaced = w.statement.blockField?.toList
      ∧ ms.map Method.unplaced = w.statement.blockMethod?.toList := by
  rw [beginBlock, Logged.value_bind, skips_value, Statement.blockField?,
    Statement.blockMethod?]
  by_cases hkept : w.statement.Kept
  · have hin : ∀ {d : Draft}, d.kind = none → inType { w with draft := d } = false := by
      intro d hd
      rw [inType, hd]
      rfl
    rw [decide_eq_false (not_not_intro hkept), decide_eq_true hkept, Bool.or_true,
      if_neg Bool.false_ne_true, Logged.value_bind, Logged.value_pure, blockStatement,
      hheader, not_awaitsConstants hout]
    cases hi : w.statement.hasInitializer with
    | true =>
        refine ⟨(Field.ofParts? w.statement.parts w.cursor.startLine
          w.cursor.signature).value.toList, [], ?_, ?_, by simp⟩
        · rw [withMembers, List.append_nil]
          exact if_neg (Bool.eq_false_iff.mp (hin hout))
        · rw [if_pos ⟨hkept, rfl⟩, ← w.statement.field?_eq w.cursor.startLine
            w.cursor.signature, Option.toList_map]
    | false =>
        refine ⟨[], (Method.ofParts? w.statement.parts w.statement.doc w.cursor.startLine
          w.cursor.signature w.statement.pendingName).value.toList, ?_, by simp, ?_⟩
        · rw [withMembers, List.append_nil]
          exact if_neg (Bool.eq_false_iff.mp (hin hout))
        · rw [if_pos ⟨hkept, rfl⟩, ← w.statement.method?_eq w.cursor.startLine
            w.cursor.signature, Option.toList_map]
  · rw [decide_eq_true hkept, decide_eq_false hkept, Bool.or_false, if_pos rfl,
      if_neg fun h => hkept h.1, if_neg fun h => hkept h.1]
    refine ⟨[], [], ?_, rfl, rfl⟩
    rw [withMembers, List.append_nil, List.append_nil]
    rfl

/-- Once a body has been opened, a semicolon adds no member. -/
theorem endStatement_members (hout : w.draft.kind = none)
    (hopen : w.fileBodyOpen = true) :
    w.endStatement.value.draft.fields = w.draft.fields
      ∧ w.endStatement.value.draft.methods = w.draft.methods := by
  have hname : ∀ b, (w.nameStatement b).value.draft.fields = w.draft.fields
      ∧ (w.nameStatement b).value.draft.methods = w.draft.methods := by
    intro b
    rw [nameStatement]
    split
    · exact ⟨rfl, rfl⟩
    · cases b <;> exact ⟨rfl, rfl⟩
  have hin : w.inType = false := by
    rw [inType, hout]
    rfl
  rw [endStatement, Logged.value_bind, not_awaitsConstants hout, if_neg Bool.false_ne_true]
  split
  · exact ⟨rfl, rfl⟩
  · rw [hin, if_pos (by decide), fileStatement]
    split
    · exact hname true
    · exact hname false
    · rw [if_pos hopen]
      exact ⟨rfl, rfl⟩

end Walk

/-! ## Blocks that are opened -/

theorem filterMap_singleton {α β : Type} (f : α → Option β) (x : α) :
    [x].filterMap f = (f x).toList := by
  cases hx : f x <;> simp [hx]

/-- The token is an opening brace in ordinary code. -/
def Context.opensBlock (c : Context) (t : Token) : Bool :=
  c.readsCode && t.kind == .statementEnd && t.text == "\x7b"

namespace Walk

variable {w : Walk} {t : Token}

/-- The statement that ends with the token, if it ends with an opening brace. -/
def openedAt (w : Walk) (t : Token) : List Statement :=
  if w.context.opensBlock t then [w.statement.flush] else []

/-- The statements that end with an opening brace. -/
def opened (w : Walk) : List Token → List Statement
  | [] => []
  | t :: ts => w.openedAt t ++ (w.step t).value.opened ts

theorem opensBlock_iff :
    w.context.opensBlock t = true ↔ w.EndsStatement t ∧ t.text = "\x7b" := by
  rw [Context.opensBlock, Bool.and_eq_true, Bool.and_eq_true, beq_iff_eq, beq_iff_eq]
  exact and_congr_left fun _ => ⟨fun h => ⟨h.1, h.2⟩, fun h => ⟨h.code, h.ending⟩⟩

/-- Where a statement is opened. -/
theorem exists_of_mem_opened {ts : List Token} {s : Statement} (h : s ∈ w.opened ts) :
    ∃ a t b, ts = a ++ t :: b ∧ (w.steps a).context.opensBlock t = true
      ∧ s = (w.steps a).statement.flush := by
  induction ts generalizing w with
  | nil => cases h
  | cons u ts ih =>
      rcases List.mem_append.mp h with h | h
      · rw [openedAt] at h
        split at h
        · next hopens => exact ⟨[], u, ts, rfl, hopens, List.mem_singleton.mp h⟩
        · cases h
      · obtain ⟨a, t, b, rfl, hopens, hs⟩ := ih h
        exact ⟨u :: a, t, b, rfl, hopens, hs⟩

/-- A brace in ordinary code outside any type. -/
theorem step_brace (hout : w.draft.kind = none) (hheader : w.statement.isHeader = false)
    (h : w.context.opensBlock t = true) :
    ∃ fs ms, (w.step t).value
        = (withMembers { w with
            fileBodyOpen := w.fileBodyOpen || decide w.statement.flush.Kept }
            fs ms).nextStatement
      ∧ fs.map Field.unplaced = w.statement.flush.blockField?.toList
      ∧ ms.map Method.unplaced = w.statement.flush.blockMethod?.toList := by
  obtain ⟨⟨hcode, hend⟩, htext⟩ := opensBlock_iff.mp h
  obtain ⟨fs, ms, hblock, hfs, hms⟩ := beginBlock_members (w := w.flush) hout hheader
  refine ⟨fs, ms, ?_, hfs, hms⟩
  rw [step_of_not_inArguments (w.not_inArguments_of_readsCode hcode), plainStep, hend]
  show (w.statementEnd t.text t.line).value = _
  rw [statementEnd, if_neg (not_not_intro (w.span_of_readsCode hcode)), htext,
    if_neg (by decide), Logged.value_bind, hblock]
  rfl

/-- A semicolon in the body of a method outside any type. -/
theorem step_fileSemicolon (hout : w.draft.kind = none) (hopen : w.fileBodyOpen = true)
    (h : w.EndsStatement t) (htext : t.text = ";") :
    (w.step t).value.draft.fields = w.draft.fields
      ∧ (w.step t).value.draft.methods = w.draft.methods
      ∧ (w.step t).value.fileBodyOpen = true := by
  obtain ⟨hfields, hmethods⟩ := endStatement_members (w := w.flush) hout hopen
  obtain ⟨d, hframe⟩ := w.flush.close_frame w.flush.view.semicolon
  rw [step_of_not_inArguments (w.not_inArguments_of_readsCode h.code), plainStep, h.ending]
  show (w.statementEnd t.text t.line).value.draft.fields = _
    ∧ (w.statementEnd t.text t.line).value.draft.methods = _
    ∧ (w.statementEnd t.text t.line).value.fileBodyOpen = _
  rw [statementEnd, if_neg (not_not_intro (w.span_of_readsCode h.code)), htext, if_pos rfl,
    Logged.value_bind]
  refine ⟨hfields, hmethods, ?_⟩
  show w.flush.endStatement.value.fileBodyOpen = true
  rw [endStatement_eq, hframe]
  show (_ || w.fileBodyOpen) = true
  rw [hopen, Bool.or_true]

/-! ## Whole bodies -/

/-- The walk is in the body of a method outside any type. -/
structure InFileBody (w : Walk) : Prop where
  outside : w.draft.kind = none
  bodyOpen : w.fileBodyOpen = true
  header : w.statement.isHeader = false
  formed : w.statement.Formed

/-- No token begins a type. -/
def Typeless (w : Walk) (ts : List Token) : Prop :=
  ∀ a t b, ts = a ++ t :: b → ¬ (w.steps a).BeginsType t

/-- No type begins where there is no keyword for it. -/
theorem typeless_of_forall {ts : List Token} (h : ∀ t ∈ ts, t.beginsType = false)
    (w : Walk) : w.Typeless ts := by
  rintro a t b rfl hbegins
  have hnot := h t (List.mem_append_right a List.mem_cons_self)
  rw [Token.beginsType, hbegins.keyword, hbegins.word] at hnot
  cases hnot

/-- **One token of the body.** -/
theorem InFileBody.step (h : w.InFileBody) (htype : ¬ w.BeginsType t)
    (hworded : t.Worded) (haccepted : t.Accepted) :
    (w.step t).value.InFileBody
      ∧ (w.step t).value.draft.fields.map Field.unplaced
        = w.draft.fields.map Field.unplaced
          ++ (w.openedAt t).filterMap Statement.blockField?
      ∧ (w.step t).value.draft.methods.map Method.unplaced
        = w.draft.methods.map Method.unplaced
          ++ (w.openedAt t).filterMap Statement.blockMethod? := by
  have heffect := w.effect t
  have hin : w.inType = false := by
    rw [inType, h.outside]
    rfl
  -- no type begins, so the walk stays outside and no header is read
  have hkept : (w.step t).value.draft.kind = none
      ∧ (w.step t).value.statement.isHeader = false := by
    cases w.headerEffect t with
    | begins hbegins => exact absurd hbegins htype
    | ends _ hkind _ hreading => exact ⟨hkind.trans h.outside, hreading⟩
    | other _ _ hkeeps =>
        refine ⟨hkeeps.kind.trans h.outside, Bool.eq_false_iff.mpr fun hread => ?_⟩
        cases h.header.symm.trans (hkeeps.reading hread)
  by_cases hopens : w.context.opensBlock t = true
  · obtain ⟨fs, ms, hstep, hfs, hms⟩ := step_brace h.outside h.header hopens
    rw [openedAt, if_pos hopens]
    refine ⟨⟨hkept.1, ?_, hkept.2, ?_⟩, ?_, ?_⟩
    · rw [hstep]
      show (w.fileBodyOpen || _) = true
      rw [h.bodyOpen, Bool.true_or]
    · rw [hstep]
      exact Statement.formed_start
    · rw [hstep]
      show (w.draft.fields ++ fs).map Field.unplaced = _
      rw [List.map_append, hfs, filterMap_singleton]
    · rw [hstep]
      show (w.draft.methods ++ ms).map Method.unplaced = _
      rw [List.map_append, hms, filterMap_singleton]
  · rw [openedAt, if_neg hopens, List.filterMap_nil, List.filterMap_nil, List.append_nil,
      List.append_nil]
    by_cases hends : w.EndsStatement t
    · have htext : t.text = ";" := (haccepted.ending hends.ending).resolve_right
        fun htext => hopens (opensBlock_iff.mpr ⟨hends, htext⟩)
      obtain ⟨hfields, hmethods, hopen⟩ := step_fileSemicolon h.outside h.bodyOpen hends htext
      refine ⟨⟨hkept.1, hopen, hkept.2, ?_⟩, by rw [hfields], by rw [hmethods]⟩
      cases heffect with
      | ends _ _ _ hstatement _ =>
          rw [hstatement]
          exact Statement.formed_start
      | line hk _ _ _ => cases hk.symm.trans hends.ending
      | other _ hcode _ => cases (hcode hends.ending).symm.trans hends.code
    · have hfollows := follows_step hends
      refine ⟨⟨hkept.1, hfollows.fileBodyOpen.trans h.bodyOpen, hkept.2,
        hfollows.formed hworded h.formed⟩, ?_⟩
      cases heffect with
      | ends hk hcode _ _ _ => exact absurd ⟨hcode, hk⟩ hends
      | line _ hdraft _ _ => exact ⟨by rw [hdraft], by rw [hdraft]⟩
      | other _ _ hpasses => exact ⟨by rw [hpasses.fields], by rw [hpasses.methods]⟩

/-- **All tokens of the body.**  What is read in it is what its statements declare
    that end with an opening brace. -/
theorem InFileBody.steps {ts : List Token} (h : w.InFileBody) (htypes : w.Typeless ts)
    (hworded : ∀ t ∈ ts, t.Worded) (haccepted : ∀ t ∈ ts, t.Accepted) :
    (w.steps ts).InFileBody
      ∧ (w.steps ts).draft.fields.map Field.unplaced
        = w.draft.fields.map Field.unplaced
          ++ (w.opened ts).filterMap Statement.blockField?
      ∧ (w.steps ts).draft.methods.map Method.unplaced
        = w.draft.methods.map Method.unplaced
          ++ (w.opened ts).filterMap Statement.blockMethod?
      ∧ ∀ s ∈ w.opened ts, s.Formed := by
  induction ts generalizing w with
  | nil =>
      refine ⟨h, (List.append_nil _).symm, (List.append_nil _).symm, ?_⟩
      intro s hs
      cases hs
  | cons t ts ih =>
      obtain ⟨hstep, hfields, hmethods⟩ := h.step (htypes [] t ts rfl)
        (hworded t List.mem_cons_self) (haccepted t List.mem_cons_self)
      obtain ⟨hend, hfields', hmethods', hformed⟩ := ih hstep
        (fun a u b hsplit => htypes (t :: a) u b (by rw [hsplit]; rfl))
        (fun u hu => hworded u (List.mem_cons_of_mem t hu))
        (fun u hu => haccepted u (List.mem_cons_of_mem t hu))
      refine ⟨hend, ?_, ?_, ?_⟩
      · rw [opened, List.filterMap_append, ← List.append_assoc, ← hfields]
        exact hfields'
      · rw [opened, List.filterMap_append, ← List.append_assoc, ← hmethods]
        exact hmethods'
      · intro s hs
        rcases List.mem_append.mp hs with hs | hs
        · rw [openedAt] at hs
          split at hs
          · rw [List.mem_singleton.mp hs]
            exact h.formed.flush
          · cases hs
        · exact hformed s hs

end Walk

/-! ## Executable statements -/

/-- What a token does to the context, and to whether the statement under way has a
    word of executable statements. -/
def executableNext (x : Context × Bool) (t : Token) : Context × Bool :=
  (x.1.next t,
    if x.1.readsCode then t.kind != .statementEnd && (x.2 || t.isExecutable) else x.2)

/-- The statement that some tokens leave under way has a word of executable
    statements. -/
def executableAfter (ts : List Token) : Bool := (ts.foldl executableNext ({}, false)).2

theorem Walk.executable_step (w : Walk) (t : Token) :
    ((w.step t).value.context, (w.step t).value.statement.isExecutable)
      = executableNext (w.context, w.statement.isExecutable) t := by
  have hcontext : w.context.readsCode = w.readsCode := rfl
  rw [executableNext, context_step, hcontext]
  refine congrArg (w.context.next t, ·) ?_
  by_cases hends : w.EndsStatement t
  · have hstatement : (w.step t).value.statement = {} := by
      cases w.effect t with
      | ends _ _ _ hstatement _ => exact hstatement
      | line hk _ _ _ => cases hk.symm.trans hends.ending
      | other _ hcode _ => cases (hcode hends.ending).symm.trans hends.code
    rw [hstatement, if_pos hends.code, hends.ending]
    rfl
  · rw [(follows_step hends).executable]
    cases hcode : w.readsCode with
    | false => rw [Bool.false_and, Bool.or_false, if_neg Bool.false_ne_true]
    | true =>
        have hk : (t.kind != .statementEnd) = true :=
          bne_iff_ne.mpr fun hk => hends ⟨hcode, hk⟩
        rw [hk, Bool.true_and, Bool.true_and, if_pos rfl]

/-- Whether a statement is executable shows in the tokens. -/
theorem isExecutable_steps (ts : List Token) :
    (Walk.steps {} ts).statement.isExecutable = executableAfter ts := by
  have hsteps : ∀ (ts : List Token) (w : Walk),
      ((w.steps ts).context, (w.steps ts).statement.isExecutable)
        = ts.foldl executableNext (w.context, w.statement.isExecutable) := by
    intro ts
    induction ts with
    | nil => exact fun w => rfl
    | cons t ts ih =>
        intro w
        rw [List.foldl_cons, ← w.executable_step]
        exact ih (w.step t).value
  exact congrArg Prod.snd (hsteps ts {})

/-- Every block that is opened in the tokens `ts`, which come after the tokens `pre`,
    is opened by an executable statement. -/
def BlocksExecutable (pre ts : List Token) : Prop :=
  ∀ a t b, ts = a ++ t :: b → (Context.after (pre ++ a)).opensBlock t = true →
    executableAfter (pre ++ a) = true

/-- A block of an executable statement is not taken for a declaration. -/
theorem BlocksExecutable.not_declares {pre ts : List Token} (h : BlocksExecutable pre ts) :
    ∀ s ∈ (Walk.steps {} pre).opened ts, ¬ s.Declares := by
  intro s hs hdeclares
  obtain ⟨a, t, b, hsplit, hopens, rfl⟩ := Walk.exists_of_mem_opened hs
  rw [← Walk.steps_append] at hopens hdeclares
  have hcontext : (Walk.steps {} (pre ++ a)).context = Context.after (pre ++ a) :=
    Walk.context_steps {} (pre ++ a)
  rw [hcontext] at hopens
  have hexecutable : (Walk.steps {} (pre ++ a)).statement.isExecutable = true :=
    (isExecutable_steps (pre ++ a)).trans (h a t b hsplit hopens)
  cases hexecutable.symm.trans hdeclares.1.executable

/-! ## Whole sources -/

/-- The tokens up to the first end of a statement, with it. -/
def signatureTokens (ts : List Token) : List Token :=
  ts.takeWhile (fun t => t.kind != .statementEnd)
    ++ (ts.dropWhile fun t => t.kind != .statementEnd).take 1

/-- The tokens after the first end of a statement. -/
def bodyTokens (ts : List Token) : List Token :=
  (ts.dropWhile fun t => t.kind != .statementEnd).drop 1

/-- The statements after the first one that end with an opening brace. -/
def bodyBlocks (ts : List Token) : List Statement :=
  (Walk.steps {} (signatureTokens ts)).opened (bodyTokens ts)

theorem signatureTokens_append_bodyTokens (ts : List Token) :
    signatureTokens ts ++ bodyTokens ts = ts := by
  rw [signatureTokens, bodyTokens, List.append_assoc, List.take_append_drop,
    List.takeWhile_append_dropWhile]

/-- Where the first statement ends. -/
theorem signatureTokens_of_append {a b : List Token} {t : Token}
    (ha : ∀ u ∈ a, u.kind ≠ .statementEnd) (ht : t.kind = .statementEnd) :
    signatureTokens (a ++ t :: b) = a ++ [t] := by
  have hkind : ∀ u ∈ a, (u.kind != .statementEnd) = true := fun u hu =>
    bne_iff_ne.mpr (ha u hu)
  have hend : ¬ (t.kind != .statementEnd) = true := by
    rw [ht]
    decide
  have htake : (t :: b).takeWhile (fun u => u.kind != .statementEnd) = [] :=
    List.takeWhile_cons_of_neg hend
  have hdrop : (t :: b).dropWhile (fun u => u.kind != .statementEnd) = t :: b :=
    List.dropWhile_cons_of_neg hend
  rw [signatureTokens, List.takeWhile_append_of_pos hkind,
    List.dropWhile_append_of_pos hkind, htake, hdrop, List.append_nil]
  rfl

/-- The tokens of a source with an opening brace after its head. -/
theorem tokenize_opened {extra : List String} {p : List Char} (hp : IsHead extra p)
    (rest : List Char) :
    ∃ (n : Int) (body : List Token), tokenize (String.ofList (p ++ '{' :: rest)) extra
      = headTokens extra p ++ ⟨.statementEnd, "\x7b", n⟩ :: body := by
  have hread := Reader.read_append extra {} p ('{' :: rest)
    (Source.inert_cons (by decide) (by decide) (by decide))
    (.inr (.inr (by rw [hp.mode]; rfl)))
  have hopened : (Reader.read extra {} p).1.tokens extra ('{' :: rest) = _ :=
    Reader.tokens_of_read (Spells.read_opened hp.mode (by rw [hp.depth]; decide) rest)
  refine ⟨(Reader.read extra {} p).1.line,
    (Reader.read extra {} p).1.opened.tokens extra rest, ?_⟩
  rw [tokenize_eq_read, String.toList_ofList, Reader.tokens_of_read hread, hopened,
    headTokens]
  simp only [List.cons_append, List.append_assoc, List.nil_append]

/-- No lexeme of a signature ends a statement. -/
theorem MethodSource.kind_of_mem_lexemes {extra : List String} (g : MethodSource extra) :
    ∀ l ∈ g.lexemes, (l.token extra).kind ≠ .statementEnd := by
  have hword : ∀ w, ((Lexeme.word w).token extra).kind ≠ .statementEnd := by
    intro w
    show (if Keyword.isKeyword extra w then TokenKind.keyword else .symbol) ≠ _
    split <;> decide
  have hcomma : ((Lexeme.mark .comma).token extra).kind ≠ .statementEnd :=
    show TokenKind.join ≠ .statementEnd by decide
  have hopen : ((Lexeme.mark .openParen).token extra).kind ≠ .statementEnd :=
    show TokenKind.paramStart ≠ .statementEnd by decide
  have hclose : ((Lexeme.mark .closeParen).token extra).kind ≠ .statementEnd :=
    show TokenKind.paramEnd ≠ .statementEnd by decide
  have hwords : ∀ ws : List (Word extra), ∀ l ∈ ws.map Word.lexeme,
      (l.token extra).kind ≠ .statementEnd := fun ws =>
    List.forall_mem_map.mpr fun w _ => hword w.text
  have htexts : ∀ ws : List String, ∀ l ∈ ws.map Lexeme.word,
      (l.token extra).kind ≠ .statementEnd := fun ws =>
    List.forall_mem_map.mpr fun w _ => hword w
  simp only [lexemes, List.forall_mem_append, List.forall_mem_singleton]
  refine ⟨⟨htexts _, hwords _, hopen⟩, fun l hl => ?_, hclose⟩
  rcases mem_separated hl with rfl | ⟨ls, hls, hl⟩
  · exact hcomma
  · obtain ⟨q, -, rfl⟩ := List.mem_map.mp hls
    rcases List.mem_append.mp hl with hl | hl
    · exact htexts _ l hl
    · exact hwords _ l hl

/-- The walk after a signature and its brace is in the body, and has read the
    method. -/
theorem MethodSource.inFileBody {extra : List String} (g : MethodSource extra)
    {ts : List Token} (hts : bareTokens ts = g.lexemes.map (Lexeme.token extra)) (n : Int) :
    (Walk.steps {} (ts ++ [⟨.statementEnd, "\x7b", n⟩])).InFileBody
      ∧ (Walk.steps {} (ts ++ [⟨.statementEnd, "\x7b", n⟩])).draft.fields = []
      ∧ (Walk.steps {} (ts ++ [⟨.statementEnd, "\x7b", n⟩])).draft.methods.map
          Method.unplaced = [g.method] := by
  have hstands := g.takes (x := {}) rfl {} ts ⟨rfl, rfl, rfl, rfl, rfl, rfl⟩ hts
  rw [Walk.steps_append]
  generalize Walk.steps {} ts = w at hstands
  have hflush : w.statement.flush = { parts := g.parts, hasParams := true } := by
    rw [hstands.statement]
    exact Statement.flush_of_nil rfl
  have hkept : w.statement.flush.Kept := by
    rw [hflush]
    exact ⟨by simp [parts, Part.ofWords], rfl, rfl⟩
  have hfields : w.draft.fields = [] :=
    List.map_eq_nil_iff.mp (congrArg Draft.fields hstands.draft)
  have hmethods : w.draft.methods = [] :=
    List.map_eq_nil_iff.mp (congrArg Draft.methods hstands.draft)
  have hopens : w.context.opensBlock ⟨.statementEnd, "\x7b", n⟩ = true := by
    refine Walk.opensBlock_iff.mpr ⟨⟨w.readsCode_iff.mpr ⟨hstands.span, ?_⟩, rfl⟩, rfl⟩
    rw [Walk.inArguments, hstands.annotation]
  obtain ⟨fs, ms, hstep, hfs, hms⟩ := Walk.step_brace hstands.kind
    (by rw [hstands.statement]) hopens
  have hwalk : w.steps [⟨.statementEnd, "\x7b", n⟩] = _ := hstep
  have hfield : w.statement.flush.blockField? = none := by
    rw [Statement.blockField?, hflush]
    exact if_neg fun h => Bool.false_ne_true h.2
  have hmethod : w.statement.flush.blockMethod? = some g.method := by
    rw [Statement.blockMethod?, if_pos ⟨hkept, by rw [hflush]⟩, hflush]
    exact g.ofParts?_parts
  rw [hfield] at hfs
  rw [hmethod] at hms
  rw [hwalk]
  refine ⟨⟨hstands.kind, ?_, rfl, Statement.formed_start⟩, ?_, ?_⟩
  · show (w.fileBodyOpen || decide w.statement.flush.Kept) = true
    rw [decide_eq_true hkept, Bool.or_true]
  · show w.draft.fields ++ fs = []
    rw [hfields, List.map_eq_nil_iff.mp hfs]
    rfl
  · show (w.draft.methods ++ ms).map Method.unplaced = [g.method]
    rw [hmethods, List.nil_append, hms]
    rfl

/-- The first statement of a source that begins with a signature and a brace. -/
theorem MethodSource.inFileBody_tokenize {extra : List String} (g : MethodSource extra)
    {p rest : List Char} (hp : Laid false g.lexemes p) {ts : List Token}
    (hts : tokenize (String.ofList (p ++ '{' :: rest)) extra = ts) :
    (Walk.steps {} (signatureTokens ts)).InFileBody
      ∧ (Walk.steps {} (signatureTokens ts)).draft.fields = []
      ∧ (Walk.steps {} (signatureTokens ts)).draft.methods.map Method.unplaced
        = [g.method] := by
  obtain ⟨hhead, hbare⟩ := hp.isHead extra fun hblock => g.kind_of_mem_lexemes _ hblock rfl
  have hnoEnd : ∀ u ∈ headTokens extra p, u.kind ≠ .statementEnd := by
    intro u hu hk
    have hmem : u.bare ∈ bareTokens (headTokens extra p) :=
      List.mem_map_of_mem (List.mem_filter.mpr ⟨hu, by rw [hk]; rfl⟩)
    rw [hbare] at hmem
    obtain ⟨l, hl, htoken⟩ := List.mem_map.mp hmem
    exact g.kind_of_mem_lexemes l hl ((congrArg Token.kind htoken).trans hk)
  obtain ⟨n, body, htokens⟩ := tokenize_opened hhead rest
  rw [← hts, htokens, signatureTokens_of_append hnoEnd rfl]
  exact g.inFileBody hbare n

/-- A file without a type is a class that nothing is known of but its members. -/
theorem finish_of_outside {ts : List Token} (h : (Walk.steps {} ts).draft.kind = none) :
    (Walk.steps {} ts).finish.value.shape = .classShape "" []
      ∧ (Walk.steps {} ts).finish.value.fields = (Walk.steps {} ts).draft.fields
      ∧ (Walk.steps {} ts).finish.value.methods = (Walk.steps {} ts).draft.methods := by
  have hheader : (walkAt [] ts).draft.header = {} := header_walkAt_of_outside h
  have hparents : (Walk.steps {} ts).draft.parents = [] := congrArg TypeHeader.parents hheader
  have hinterfaces : (Walk.steps {} ts).draft.interfaces = [] :=
    congrArg TypeHeader.interfaces hheader
  rw [Walk.finish_value, Walk.finalDraft_of_nil (Walk.pendingConstants_of_not_awaits
    (Walk.not_awaitsConstants h))]
  refine ⟨?_, rfl, rfl⟩
  show Draft.shape _ = _
  rw [Draft.shape, h, hparents, hinterfaces]
  rfl

/-- **WHAT IS READ OF A METHOD OUTSIDE ANY TYPE.**  Let a source begin with the
    signature of a method and an opening brace, and let no type begin in it.  Its
    outline is a class.  The methods are this one and those that the statements of the
    body declare that end with an opening brace; the fields are those that such
    statements declare.  So the method is all there is if and only if no such statement
    declares anything.  This is so if every block in the body is opened by an
    executable statement. -/
theorem outline_file_method (settings : Settings) (g : MethodSource settings.ignoredKeywords)
    {p rest : List Char} {ts : List Token} (hp : Laid false g.lexemes p)
    (hts : tokenize (String.ofList (p ++ '{' :: rest)) settings.ignoredKeywords = ts)
    (hlines : LinesFit (String.ofList (p ++ '{' :: rest)))
    (htypes : Walk.Typeless {} ts) :
    ∃ d, (outline (String.ofList (p ++ '{' :: rest)) settings).value = .ok d
      ∧ d.shape = .classShape "" []
      ∧ d.methods.map Method.unplaced
        = g.method :: (bodyBlocks ts).filterMap Statement.blockMethod?
      ∧ d.fields.map Field.unplaced = (bodyBlocks ts).filterMap Statement.blockField?
      ∧ ((d.methods.map Method.unplaced = [g.method] ∧ d.fields = [])
          ↔ ∀ s ∈ bodyBlocks ts, ¬ s.Declares)
      ∧ (BlocksExecutable (signatureTokens ts) (bodyTokens ts) →
          d.methods.map Method.unplaced = [g.method] ∧ d.fields = []) := by
  obtain ⟨hin, hnoFields, hmethod⟩ := g.inFileBody_tokenize hp hts
  have hsplit := signatureTokens_append_bodyTokens ts
  have hmem : ∀ {t : Token}, t ∈ bodyTokens ts →
      t ∈ tokenize (String.ofList (p ++ '{' :: rest)) settings.ignoredKeywords := by
    intro t ht
    rw [hts, ← hsplit]
    exact List.mem_append_right _ ht
  have htypes' : (Walk.steps {} (signatureTokens ts)).Typeless (bodyTokens ts) := by
    intro a t b hbody
    rw [← Walk.steps_append]
    exact htypes (signatureTokens ts ++ a) t b (by rw [List.append_assoc, ← hbody, hsplit])
  obtain ⟨hend, hfields, hmethods, hformed⟩ := hin.steps htypes'
    (fun t ht => worded_tokenize _ _ t (hmem ht))
    (fun t ht => tokenize_accepted hlines _ t (hmem ht))
  rw [← Walk.steps_append, hsplit] at hend hfields hmethods
  rw [hnoFields, List.map_nil, List.nil_append] at hfields
  rw [hmethod, List.singleton_append] at hmethods
  -- the outline is that of the walk, but for the places of the members
  obtain ⟨d, hd, hwalk⟩ := outline_unsigned settings hlines
  rw [hts] at hwalk
  obtain ⟨hshape, hfinal, hfinal'⟩ := finish_of_outside hend.outside
  rw [← hwalk] at hshape hfinal hfinal'
  have hdmethods : d.methods.map Method.unplaced
      = g.method :: (bodyBlocks ts).filterMap Statement.blockMethod? := by
    rw [← hfinal'] at hmethods
    exact (List.map_map (l := d.methods) ..).symm.trans hmethods
  have hdfields : d.fields.map Field.unplaced
      = (bodyBlocks ts).filterMap Statement.blockField? := by
    rw [← hfinal] at hfields
    exact (List.map_map (l := d.fields) ..).symm.trans hfields
  have hnone : ∀ s ∈ bodyBlocks ts,
      (¬ s.Declares ↔ s.blockField? = none ∧ s.blockMethod? = none) := fun s hs =>
    Statement.not_declares_iff (hformed s hs).parts
  have hiff : (d.methods.map Method.unplaced = [g.method] ∧ d.fields = [])
      ↔ ∀ s ∈ bodyBlocks ts, ¬ s.Declares := by
    rw [← List.map_eq_nil_iff (f := Field.unplaced), hdmethods, hdfields, List.cons.injEq,
      List.filterMap_eq_nil_iff, List.filterMap_eq_nil_iff]
    constructor
    · rintro ⟨⟨-, hmethods⟩, hfields⟩ s hs
      exact (hnone s hs).mpr ⟨hfields s hs, hmethods s hs⟩
    · intro h
      exact ⟨⟨rfl, fun s hs => ((hnone s hs).mp (h s hs)).2⟩,
        fun s hs => ((hnone s hs).mp (h s hs)).1⟩
  exact ⟨d, hd, hshape, hdmethods, hdfields, hiff, fun h => hiff.mpr h.not_declares⟩

/-- A method with one parameter. -/
def sumMethod : MethodSource [] where
  keywords := []
  returnType := ⟨"int", .refl true, .refl false⟩
  name := ⟨"sum", .refl true, .refl false⟩
  params := [⟨false, ⟨"int", .refl true, .refl false⟩, ⟨"n", .refl true, .refl false⟩⟩]

/-- A method without parameters. -/
def runMethod : MethodSource [] where
  keywords := []
  returnType := ⟨"void", .refl true, .refl false⟩
  name := ⟨"run", .refl true, .refl false⟩
  params := []

/-- Loops and locals are no members, but a local array with its elements is a
    field. -/
theorem outline_file_method_locals :
    (∃ d, (outline (String.ofList ("int sum(int n) ".toList ++ '{' ::
          " int s = 0; while (n > 0) \x7b s += n--; \x7d return s; \x7d".toList)) {}).value = .ok d
      ∧ d.methods.map Method.unplaced = [sumMethod.method] ∧ d.fields = [])
    ∧ ∃ d, (outline (String.ofList ("void run() ".toList ++ '{' ::
          " int[] a = \x7b1, 2\x7d; \x7d".toList)) {}).value = .ok d
      ∧ d.methods.map Method.unplaced = [runMethod.method]
      ∧ d.fields.map Field.unplaced = [{ type := "int[]", name := "a" }] := by
  constructor
  · have hp : Laid false sumMethod.lexemes "int sum(int n) ".toList :=
      .word (w := ['i', 'n', 't']) (.word (by decide)) (.gap rfl
        (.word (w := ['s', 'u', 'm']) (.word (by decide)) (.mark (m := .openParen)
          (.word (w := ['i', 'n', 't']) (.word (by decide)) (.gap rfl
            (.word (w := ['n']) (.word (by decide)) (.mark (m := .closeParen)
              (.gap rfl .nil))))))))
    have hlines : LinesFit (String.ofList ("int sum(int n) ".toList ++ '{' ::
        " int s = 0; while (n > 0) \x7b s += n--; \x7d return s; \x7d".toList)) :=
      linesFit_ofList (by decide +kernel)
    obtain ⟨d, hd, -, -, -, hiff, -⟩ := outline_file_method {} sumMethod hp rfl hlines
      (Walk.typeless_of_forall (by decide +kernel) {})
    exact ⟨d, hd, hiff.mpr (by decide +kernel)⟩
  · have hp : Laid false runMethod.lexemes "void run() ".toList :=
      .word (w := ['v', 'o', 'i', 'd']) (.word (by decide)) (.gap rfl
        (.word (w := ['r', 'u', 'n']) (.word (by decide)) (.mark (m := .openParen)
          (.mark (m := .closeParen) (.gap rfl .nil)))))
    have hlines : LinesFit (String.ofList ("void run() ".toList ++ '{' ::
        " int[] a = \x7b1, 2\x7d; \x7d".toList)) := linesFit_ofList (by decide +kernel)
    obtain ⟨d, hd, -, hmethods, hfields, -, -⟩ := outline_file_method {} runMethod hp rfl
      hlines (Walk.typeless_of_forall (by decide +kernel) {})
    exact ⟨d, hd, hmethods.trans (by decide +kernel), hfields.trans (by decide +kernel)⟩

end JavaOutline
