import JavaOutline.Proofs.Growth
import JavaOutline.Proofs.Recovery

/-! # Types after the first one

    A file may declare more types after its first one.  The header of such a
    type is passed over, but nothing marks the end of the first type, so the
    members of a later type are added to the first (`takes_types`).  A list of
    constants that no semicolon has closed is passed over with the header it
    runs into.

    `outline_later_types` says what the outline of the longer file has in common
    with that of the shorter, and what is added to it. -/

namespace JavaOutline

open Text Source

variable {extra : List String} {x : Standing}

/-! ## Later types as they are written -/

/-- A type declaration without package and imports. -/
structure LaterType (extra : List String) extends TypeSource extra where
  noPackage : packageName = none
  noImports : imports = []

/-- The text lays out the types one after another, and nothing else. -/
inductive LaidTypes : List (LaterType extra) → List Char → Prop where
  | nil {t : List Char} : Laid false [] t → LaidTypes [] t
  | cons {s : LaterType extra} {ss : List (LaterType extra)}
      {p x t : List Char} : Laid false s.head p → Laid false s.body x →
      LaidTypes ss t → LaidTypes (s :: ss) (p ++ '{' :: (x ++ '}' :: t))

/-- What the constants of a later enumeration are taken for: the first two of
    them for the type and the name of a field. -/
def Outlook.strayField? : Outlook extra → Option Field
  | .ofEnum _ (c :: c' :: _) => some { type := c.text, name := c'.text }
  | _ => none

namespace LaterType

/-- The fields that are read from a later type. -/
def fields (s : LaterType extra) : List Field :=
  s.outlook.strayField?.toList ++ s.members.filterMap Member.field?

/-- The methods that are read from a later type. -/
def methods (s : LaterType extra) : List Method :=
  s.members.filterMap Member.method?

/-- The bare tokens of a later type. -/
def tokens (s : LaterType extra) : List Token :=
  s.head.map (Lexeme.token extra)
    ++ Token.brace :: s.body.map (Lexeme.token extra)

theorem head_eq (s : LaterType extra) :
    s.head = (s.leading.accessTexts ++ s.leading.modifierTexts).map Lexeme.word
      ++ .word s.outlook.kind.word :: s.name.lexeme
        :: (clause "extends" s.outlook.parents
          ++ clause "implements" s.outlook.interfaces) := by
  simp [TypeSource.head, s.noPackage, s.noImports, Leading.lexemes]

end LaterType

/-- The reader gets the types back. -/
theorem LaidTypes.bareTokens {ss : List (LaterType extra)} {b : List Char}
    (h : LaidTypes ss b) :
    ∀ {r : Reader}, r.Level 0 → r.gather.word = [] →
      bareTokens (r.tokens extra b) = ss.flatMap LaterType.tokens := by
  induction h with
  | nil ht =>
      intro r hr hword
      exact Reader.bareTokens_blanks hr hword ht
  | @cons s ss p x t hp hx _ ih =>
      intro r hr hword
      obtain ⟨r1, hhead⟩ := hp.spells extra (d := 0) (by decide)
        (fun hm => absurd hm s.block_not_mem_head)
        (t := '{' :: (x ++ '}' :: t)) (by simp) hr fun _ => hword
      obtain ⟨ts1, hread1, hbare1⟩ := hhead.tokens
      obtain ⟨r2, ts2, hlevel2, hword2, hread2, hbare2⟩ :=
        Reader.read_braces extra hhead.level.mode hhead.level.depth
          (hx.spellsBody extra) t
      rw [hread2, prepend_prepend] at hread1
      rw [Reader.pending_of_nil hword, List.nil_append] at hbare1
      have hpending : JavaOutline.bareTokens
          (r1.gather.wordToken extra r1.line) = r1.pending extra := rfl
      rw [Reader.tokens_of_read hread1, bareTokens_append, bareTokens_append,
        bareTokens_append, hpending, ih hlevel2 hword2, hbare2, ← List.append_assoc,
        hbare1, List.flatMap_cons, LaterType.tokens]

/-- The types stand on the lines after a text that ends outside all braces. -/
theorem LaidTypes.bareTokens_nextLine {ss : List (LaterType extra)}
    {a b : List Char} (h : LaidTypes ss b) (ha : IsHead extra a) :
    JavaOutline.bareTokens
        ((Reader.read extra {} a).1.nextLine.tokens extra b)
      = ss.flatMap LaterType.tokens := by
  refine h.bareTokens ⟨?_, ha.depth, rfl⟩ rfl
  show Source.Mode.nextLine (Reader.read extra {} a).1.mode = .code
  rw [ha.mode]
  rfl

/-! ## Headers that are passed over -/

/-- Keywords before a declaration, after whatever words. -/
theorem takes_standing (extra : List String) {ws : List String}
    (h : ∀ w ∈ ws, ∃ p, StandsFor w p) : ∀ {x : Standing}, ∃ s, Takes x
      ((ws.map Lexeme.word).map (Lexeme.token extra)) { x with statement := s } := by
  induction ws with
  | nil =>
      intro x
      exact ⟨x.statement, .nil⟩
  | cons w ws ih =>
      intro x
      obtain ⟨p, hp⟩ := h w (by simp)
      obtain ⟨s, hs⟩ := ih (fun v hv => h v (by simp [hv]))
        (x := { x with statement := x.statement.flush.extend [p] })
      exact ⟨s, (hp.takes extra x).cons hs⟩

/-- The header of a later type leaves the draft alone, and with it goes all that
    was read before it in the same statement. -/
theorem LaterType.takes_head (s : LaterType extra)
    (hk : x.draft.kind.isSome = true) :
    Takes x (s.head.map (Lexeme.token extra) ++ [Token.brace])
      { x with statement := {} } := by
  have hleading : ∀ w ∈ s.leading.accessTexts ++ s.leading.modifierTexts,
      ∃ p, StandsFor w p := by
    intro w hw
    rcases List.mem_append.mp hw with hw | hw
    · exact ⟨_, standsFor_access (s.leading.mem_accessTexts hw)⟩
    · exact ⟨_, standsFor_modifier (s.leading.mem_modifierTexts hw)⟩
  obtain ⟨s0, h0⟩ := takes_standing extra hleading (x := x)
  let nested : Statement := { s0.flush with isNested := true }
  have hword : Takes { x with statement := s0 }
      [(Lexeme.word s.outlook.kind.word).token extra]
      { x with statement := nested } := by
    rw [token_keyword (by cases s.outlook.kind <;> decide)]
    exact .nestedWord s.outlook.kind hk
  let named := nested.addWords [s.name.text]
  have hname : Takes { x with statement := nested }
      ([s.name.lexeme].map (Lexeme.token extra)) { x with statement := named } :=
    takes_words [s.name.word]
  obtain ⟨s1, h1, hs1⟩ := takes_clause (x := { x with statement := named })
    standsFor_extends s.outlook.parents
  obtain ⟨s2, h2, hs2⟩ := takes_clause (x := { x with statement := s1 })
    standsFor_implements s.outlook.interfaces
  -- the clauses only add to the parts, and the name is one of them
  have hflush : s2.flush = named.flush.extend
      (clauseParts .extending (s.outlook.parents.map Word.text)
        ++ clauseParts .implementing (s.outlook.interfaces.map Word.text)) := by
    rw [hs2, hs1, Statement.extend_extend]
  have hnested : s2.isNested = true := by
    have hnamed : named.isNested = true := by
      simp [named, nested, Statement.addWords_eq]
    exact (congrArg Statement.isNested hflush :).trans hnamed
  have hparts : s2.flush.parts ≠ [] := by
    rw [hflush]
    simp [Statement.extend, named, nested, Statement.addWords_eq,
      Statement.flush, Part.ofWords]
  have hend := Takes.brace_nested (x := { x with statement := s2 }) hparts hnested
  have hlist : s.head.map (Lexeme.token extra) ++ [Token.brace]
      = ((s.leading.accessTexts ++ s.leading.modifierTexts).map Lexeme.word).map
          (Lexeme.token extra)
        ++ [(Lexeme.word s.outlook.kind.word).token extra]
        ++ [s.name.lexeme].map (Lexeme.token extra)
        ++ (clause "extends" s.outlook.parents).map (Lexeme.token extra)
        ++ (clause "implements" s.outlook.interfaces).map (Lexeme.token extra)
        ++ [Token.brace] := by
    simp [s.head_eq]
  rw [hlist]
  exact ((((h0.append hword).append hname).append h1).append h2).append hend

/-! ## Members that are added -/

/-- Names without equals signs are the words of a declarator. -/
theorem declaratorWords_of_plain {ws : List String}
    (h : ∀ w ∈ ws, holds '=' w = false) : declaratorWords ws = ws := by
  induction ws with
  | nil => rfl
  | cons w ws ih =>
      rw [declaratorWords, h w (by simp), ih fun v hv => h v (by simp [hv])]
      rfl

/-- The field that a list of constants is taken for. -/
theorem Field.ofParts?_constants (interfaces : List (Word extra))
    (cs : List (Name extra)) :
    (Field.ofParts? (cs.map fun c => ⟨.identifier, c.text⟩) 0 "").value
      = (Outlook.ofEnum interfaces cs).strayField? := by
  have hfold : (Logged.fold FieldReading.step {}
      (cs.map fun c => ⟨.identifier, c.text⟩)).value
        = { words := cs.map Name.text } := by
    refine Logged.fold_map (fun c : Name extra => (⟨.identifier, c.text⟩ : Part))
      (fun done => ({ words := done.map Name.text } : FieldReading)) ?_ cs
    intro done c
    have hsplit : splitWords c.text = [c.text] := c.word.unsplit.splitWords
    show ({ words := done.map Name.text ++ splitWords c.text } : FieldReading) = _
    rw [hsplit, List.map_append]
    rfl
  have hplain : ∀ w ∈ cs.map Name.text, holds '=' w = false :=
    List.forall_mem_map.mpr fun c _ => c.word.holds_equals
  rw [Field.ofParts?, Logged.value_bind, hfold]
  simp only [declaratorWords_of_plain hplain]
  cases cs with
  | nil => rfl
  | cons c cs => cases cs <;> rfl

/-- A semicolon after parts that may be none; no part, no field. -/
theorem Takes.semicolon_parts (hn : x.statement.isNested = false)
    (hx : x.statement.isExecutable = false) (ht : x.draft.kind.isSome = true)
    (ha : x.awaitsConstants = false) (hp : x.statement.hasParams = false) :
    Takes x [⟨.statementEnd, ";", 0⟩] (x.next x.flush.withField) := by
  by_cases hparts : x.flush.statement.parts = []
  · have hnone : x.flush.withField = x.draft := by
      have hfield : x.flush.statement.field? = none := by
        rw [Statement.field?, hparts]
        rfl
      rw [Standing.withField, hfield]
      exact congrArg (fun fs => { x.draft with fields := fs })
        (List.append_nil x.draft.fields)
    rw [hnone]
    refine .statementEnd x.constantsDone fun w h => ?_
    have hskip : w.skips.value = true := by
      rw [Walk.skips, h.statement, if_pos hparts]
      rfl
    have hwait : w.awaitsConstants = false := h.awaitsConstants.trans ha
    rw [if_pos rfl, Walk.endStatement, Logged.value_bind, hskip, hwait]
    exact h
  · exact .semicolon_field ⟨hparts, hn, hx⟩ ht ha hp

/-- What comes before the members of a later type: nothing, or constants. -/
theorem takes_outlook (o : Outlook extra) (hx : x.InBody) :
    Takes x (o.lexemes.map (Lexeme.token extra))
      { x with
        draft := { x.draft with
          fields := x.draft.fields ++ o.strayField?.toList } } := by
  cases o with
  | ofClass | ofInterface =>
      show Takes x [] { x with draft := { x.draft with fields := _ ++ [] } }
      rw [List.append_nil]
      exact .nil
  | ofEnum interfaces cs =>
      obtain ⟨s, hnames, hs⟩ := takes_names (x := x) (cs.map Name.word)
        (by rw [hx.statement])
      have hlexemes : (cs.map Name.word).map (fun n => [n.lexeme])
          = cs.map fun c => [c.lexeme] := by
        rw [List.map_map]
        rfl
      have hflush : s.flush = { parts := cs.map fun c => ⟨.identifier, c.text⟩ } := by
        rw [hs, hx.statement, List.map_map, List.map_map]
        rfl
      rw [hlexemes] at hnames
      rw [Outlook.lexemes, List.map_append]
      refine hnames.append ?_
      have hend := Takes.semicolon_parts (x := { x with statement := s })
        (congrArg Statement.isNested hflush :)
        (congrArg Statement.isExecutable hflush :) hx.kind hx.constants
        (congrArg Statement.hasParams hflush :)
      rw [hx.next, Standing.withField, Standing.flush, Statement.field?, hflush,
        Field.ofParts?_constants interfaces cs] at hend
      exact hend

theorem LaterType.takes_body (s : LaterType extra) (hx : x.InBody) :
    Takes x (s.body.map (Lexeme.token extra))
      { x with
        draft := { x.draft with
          fields := x.draft.fields ++ s.fields
          methods := x.draft.methods ++ s.methods } } := by
  have hmembers := takes_members s.members (x := { x with
    draft := { x.draft with
      fields := x.draft.fields ++ s.outlook.strayField?.toList } })
    ⟨hx.statement, hx.kind, hx.constants⟩
  rw [List.append_assoc] at hmembers
  rw [TypeSource.body, List.map_append]
  exact (takes_outlook s.outlook hx).append hmembers

/-- **What later types do**: their headers are passed over, their members are
    added. -/
theorem takes_types (ss : List (LaterType extra)) :
    ∀ {x : Standing}, x.draft.kind.isSome = true → x.awaitsConstants = false →
      ∃ t, Takes x (ss.flatMap LaterType.tokens)
        { x with
          draft := { x.draft with
            fields := x.draft.fields ++ ss.flatMap LaterType.fields
            methods := x.draft.methods ++ ss.flatMap LaterType.methods }
          statement := t } := by
  induction ss with
  | nil =>
      intro x _ _
      refine ⟨x.statement, ?_⟩
      simp only [List.flatMap_nil, List.append_nil]
      exact .nil
  | cons s ss ih =>
      intro x hk ha
      have htype := (s.takes_head hk).append (s.takes_body ⟨rfl, hk, ha⟩)
      rw [List.append_assoc] at htype
      obtain ⟨t, hrest⟩ := ih (x := { x with
        draft := { x.draft with
          fields := x.draft.fields ++ s.fields
          methods := x.draft.methods ++ s.methods }
        statement := {} }) hk ha
      refine ⟨t, ?_⟩
      simp only [List.flatMap_cons, ← List.append_assoc]
      exact htype.append hrest

/-- Types with nothing between their braces only end the statement before
    them. -/
theorem takes_emptyTypes {ss : List (LaterType extra)}
    (hb : ∀ s ∈ ss, s.body = []) (hne : ss ≠ []) :
    ∀ {x : Standing}, x.draft.kind.isSome = true →
      Takes x (ss.flatMap LaterType.tokens) { x with statement := {} } := by
  induction ss with
  | nil => exact absurd rfl hne
  | cons s ss ih =>
      intro x hk
      have htype : Takes x s.tokens { x with statement := {} } := by
        rw [LaterType.tokens, hb s (by simp)]
        exact s.takes_head hk
      rw [List.flatMap_cons]
      by_cases hss : ss = []
      · rw [hss, List.flatMap_nil, List.append_nil]
        exact htype
      · exact htype.append (ih (fun s' hs' => hb s' (by simp [hs'])) hss
          (x := { x with statement := {} }) hk)

/-! ## Finished drafts -/

/-- A shape but for its constants. -/
def Shape.withoutConstants : Shape → Shape
  | .enumShape interfaces _ => .enumShape interfaces []
  | shape => shape

theorem Draft.Grows.withoutConstants_shape {d e : Draft} (h : d.Grows e) :
    e.shape.withoutConstants = d.shape.withoutConstants := by
  obtain ⟨fs, ms, cs, license, rfl⟩ := h
  rw [Draft.shape, Draft.shape]
  cases d.kind with
  | none => rfl
  | some k => cases k <;> rfl

theorem Draft.shape_of_enum {d : Draft} (h : d.kind = some .enumKind) :
    d.shape = .enumShape d.interfaces d.constants := by
  rw [Draft.shape, h]

/-- Nothing is added only if there is nothing to add. -/
theorem Declaration.withMembers_eq_iff (d : Declaration) (fs : List Field)
    (ms : List Method) :
    { d with fields := d.fields ++ fs, methods := d.methods ++ ms } = d
      ↔ fs = [] ∧ ms = [] := by
  constructor
  · intro h
    have hfields : d.fields ++ fs = d.fields := congrArg Declaration.fields h
    have hmethods : d.methods ++ ms = d.methods := congrArg Declaration.methods h
    exact ⟨List.append_right_eq_self.mp hfields,
      List.append_right_eq_self.mp hmethods⟩
  · rintro ⟨rfl, rfl⟩
    rw [List.append_nil, List.append_nil]

/-- A draft that has grown by nothing but members, as can be told without line
    numbers and line texts. -/
theorem Draft.Grows.of_unplaced {d e : Draft} (h : d.Grows e) {fs : List Field}
    {ms : List Method}
    (hu : e.unplaced
      = { d.unplaced with
          fields := d.unplaced.fields ++ fs
          methods := d.unplaced.methods ++ ms }) :
    ∃ fs' ms',
      e = { d with fields := d.fields ++ fs', methods := d.methods ++ ms' }
      ∧ fs'.map Field.unplaced = fs ∧ ms'.map Method.unplaced = ms := by
  obtain ⟨fs', ms', cs, license, rfl⟩ := h
  have hfields : (d.fields ++ fs').map Field.unplaced
      = d.fields.map Field.unplaced ++ fs := congrArg Draft.fields hu
  have hmethods : (d.methods ++ ms').map Method.unplaced
      = d.methods.map Method.unplaced ++ ms := congrArg Draft.methods hu
  have hconstants : d.constants ++ cs = d.constants := congrArg Draft.constants hu
  have hlicense : license = d.license := congrArg Draft.license hu
  rw [List.map_append] at hfields hmethods
  refine ⟨fs', ms', ?_, List.append_cancel_left hfields,
    List.append_cancel_left hmethods⟩
  rw [hconstants, hlicense]

namespace Walk

variable {w v : Walk}

/-- The draft at the end of a file. -/
def finalDraft (w : Walk) : Draft :=
  { w.draft with constants := w.draft.constants ++ w.pendingConstants }

theorem finish_value (w : Walk) :
    w.finish.value = w.finalDraft.withShape w.finalDraft.shape := by
  rw [finish, Logged.value_bind, finishConstants_draft]
  exact w.finalDraft.finish_value

theorem finalDraft_of_nil (h : w.pendingConstants = []) :
    w.finalDraft = w.draft := by
  rw [finalDraft, h, List.append_nil]

/-- What is finished keeps its name, its shape but for the constants, and its
    members, when the draft grows. -/
theorem finish_grows (h : w.draft.Grows v.draft) :
    v.finish.value.name = w.finish.value.name
      ∧ v.finish.value.shape.withoutConstants
        = w.finish.value.shape.withoutConstants
      ∧ w.finish.value.fields <+: v.finish.value.fields
      ∧ w.finish.value.methods <+: v.finish.value.methods := by
  have hw : w.draft.Grows w.finalDraft := .withConstants w.draft _
  have hv : w.draft.Grows v.finalDraft := h.trans (.withConstants v.draft _)
  rw [finish_value, finish_value]
  refine ⟨?_, hv.withoutConstants_shape.trans hw.withoutConstants_shape.symm, ?_⟩
  · obtain ⟨fs, ms, cs, license, hdraft⟩ := h
    show v.draft.name = w.draft.name
    rw [hdraft]
  · obtain ⟨fs, ms, cs, license, hdraft⟩ := h
    show w.draft.fields <+: v.draft.fields ∧ w.draft.methods <+: v.draft.methods
    rw [hdraft]
    exact ⟨List.prefix_append _ _, List.prefix_append _ _⟩

theorem kind_of_awaitsConstants (h : w.awaitsConstants = true) :
    w.draft.kind = some .enumKind := by
  rw [awaitsConstants, Bool.and_eq_true] at h
  exact beq_iff_eq.mp h.1

/-- No constants are pending where none are to come. -/
theorem pendingConstants_of_not_awaits (h : w.awaitsConstants = false) :
    w.pendingConstants = [] := by
  rw [pendingConstants, h]
  rfl

/-- Nor are they at the start of a statement. -/
theorem pendingConstants_of_empty (h : w.statement = {}) :
    w.pendingConstants = [] := by
  have hempty : (if w.span = .code then w.flush else w).statement = {} := by
    split
    · show w.statement.flush = {}
      rw [h]
      rfl
    · exact h
  rw [pendingConstants]
  split
  · dsimp only
    rw [skips, hempty]
    rfl
  · rfl

theorem pendingConstants_unsigned (w : Walk) :
    w.unsigned.pendingConstants = w.pendingConstants := by
  have hwait : w.unsigned.awaitsConstants = w.awaitsConstants := rfl
  have hflush : (if w.unsigned.span = .code then w.unsigned.flush
      else w.unsigned) = unsigned (if w.span = .code then w.flush else w) :=
    ite_eq_apply unsigned (fun _ => rfl) fun _ => rfl
  rw [pendingConstants, pendingConstants, hwait, hflush]
  rfl

/-- Members that are added to a draft are added to what is finished. -/
theorem finish_withMembers (h : w.draft.Grows v.draft)
    (hw : w.awaitsConstants = false) {fs : List Field} {ms : List Method}
    {t : Statement}
    (hv : v.StandsAt { w.standing with
      draft := { w.standing.draft with
        fields := w.standing.draft.fields ++ fs
        methods := w.standing.draft.methods ++ ms }
      statement := t }) :
    ∃ fs' ms',
      v.finish.value = { w.finish.value with
        fields := w.finish.value.fields ++ fs'
        methods := w.finish.value.methods ++ ms' }
      ∧ fs'.map Field.unplaced = fs ∧ ms'.map Method.unplaced = ms := by
  have hwait : v.awaitsConstants = false := hv.awaitsConstants.trans hw
  obtain ⟨fs', ms', hdraft, hfs, hms⟩ := h.of_unplaced hv.draft
  refine ⟨fs', ms', ?_, hfs, hms⟩
  rw [finish_value, finish_value,
    finalDraft_of_nil (pendingConstants_of_not_awaits hw),
    finalDraft_of_nil (pendingConstants_of_not_awaits hwait), hdraft]
  rfl

/-- Constants of a statement that is passed over are not in what is finished. -/
theorem finish_dropped (h : w.draft.Grows v.draft) (hw : w.awaitsConstants = true)
    (hv : v.StandsAt { w.standing with statement := {} }) :
    ∃ interfaces,
      w.finish.value.shape
        = .enumShape interfaces (w.draft.constants ++ w.pendingConstants)
      ∧ v.finish.value = { w.finish.value with
          shape := .enumShape interfaces w.draft.constants } := by
  have hkind := kind_of_awaitsConstants hw
  have hdraft : v.draft = w.draft := by
    have hu : v.draft.unplaced = { w.draft.unplaced with
        fields := w.draft.unplaced.fields ++ []
        methods := w.draft.unplaced.methods ++ [] } := by
      rw [List.append_nil, List.append_nil]
      exact hv.draft
    obtain ⟨fs, ms, hdraft, hfs, hms⟩ := h.of_unplaced hu
    rw [List.map_eq_nil_iff] at hfs hms
    rw [hdraft, hfs, hms, List.append_nil, List.append_nil]
  refine ⟨w.draft.interfaces, ?_, ?_⟩
  · rw [finish_value]
    exact Draft.shape_of_enum (d := w.finalDraft) hkind
  · rw [finish_value, finish_value,
      finalDraft_of_nil (pendingConstants_of_empty hv.statement), hdraft,
      Draft.shape_of_enum hkind]
    rfl

end Walk

/-! ## Longer sources -/

/-- The walk over a source, which knows no line texts. -/
def walkOver (extra : List String) (a : List Char) : Walk :=
  Walk.steps {} (tokenize (String.ofList a) extra)

/-- A source that ends after its type: the reader is in ordinary text outside
    all braces, and the walk is in ordinary code past the header. -/
structure EndsType (extra : List String) (a : List Char) : Prop where
  outside : IsHead extra a
  pastHeader : (walkOver extra a).PastHeader
  span : (walkOver extra a).span = .code
  annotation : Walk.annotation (walkOver extra a) = .absent

/-- A source that renders a type ends after it, and has no constants pending. -/
theorem TypeSource.Renders.endsType {s : TypeSource extra} {a : List Char}
    (h : s.Renders (String.ofList a)) :
    EndsType extra a ∧ (walkOver extra a).awaitsConstants = false := by
  have hstands : (walkOver extra a).StandsAt
      { draft := s.draft, constantsDone := s.outlook.kind == .enumKind } :=
    s.takes {} _ ⟨rfl, rfl, rfl, rfl, rfl, rfl⟩ h.bareTokens_tokenize
  have houtside : IsHead extra a := by
    obtain ⟨p, x, t, ha, hp, hx, ht⟩ := h
    obtain ⟨hhead, -⟩ := hp.isHead extra s.block_not_mem_head
    have hread := Reader.read_append extra {} p ('{' :: (x ++ '}' :: t))
      (inert_cons (by decide) (by decide) (by decide))
      (.inr (.inr (by rw [hhead.mode]; rfl)))
    obtain ⟨r1, ts1, hlevel1, hword1, hread1, -⟩ :=
      Reader.read_braces extra hhead.mode hhead.depth (hx.spellsBody extra) t
    obtain ⟨r2, hblank⟩ := ht.spells extra (by decide) (fun h => nomatch h)
      (t := []) (by simp) hlevel1 fun _ => hword1
    obtain ⟨ts2, hread2, -⟩ := hblank.tokens
    rw [List.append_nil] at hread2
    have hend : (Reader.read extra {} a).1 = r2 := by
      rw [String.ofList_inj.mp ha, hread, prepend_fst, hread1, prepend_fst, hread2,
        prepend_fst, Reader.read_nil]
    rw [← hend] at hblank
    exact ⟨hblank.level.mode, hblank.level.depth⟩
  refine ⟨⟨houtside, ⟨hstands.inType, ?_⟩, hstands.span, hstands.annotation⟩, ?_⟩
  · rw [hstands.statement]
  · rw [hstands.awaitsConstants]
    simp [Standing.awaitsConstants, TypeSource.draft, TypeSource.headerDraft]

/-- **Types after the first one.**  Let the source `a` end after its type, and
    let any lines `b` follow it.  Then the name, the kind, the parents and the
    interfaces stay, and the members of `a` stay the first ones.  If `b`
    declares further types, what is read from them comes after these members,
    with all else as it was, so that the outline stays the same if and only if no
    field and no method is read from them.  But if `a` is an enumeration whose
    constants no semicolon has closed, types without members take away the
    constants that are listed last. -/
theorem outline_later_types (settings : Settings) {a b : List Char}
    (ha : EndsType settings.ignoredKeywords a)
    (hfit : LinesFit (String.ofList (a ++ '\n' :: b))) :
    ∃ d e, (outline (String.ofList a) settings).value = .ok d
      ∧ (outline (String.ofList (a ++ '\n' :: b)) settings).value = .ok e
      ∧ e.name = d.name
      ∧ e.shape.withoutConstants = d.shape.withoutConstants
      ∧ d.fields <+: e.fields ∧ d.methods <+: e.methods
      ∧ ∀ ss : List (LaterType settings.ignoredKeywords), LaidTypes ss b →
        ((walkOver settings.ignoredKeywords a).awaitsConstants = false →
          (∃ fs ms,
            e = { d with fields := d.fields ++ fs, methods := d.methods ++ ms }
            ∧ fs.map Field.unplaced = ss.flatMap LaterType.fields
            ∧ ms.map Method.unplaced = ss.flatMap LaterType.methods)
          ∧ (e = d ↔ ∀ s ∈ ss, s.fields = [] ∧ s.methods = []))
        ∧ ((walkOver settings.ignoredKeywords a).awaitsConstants = true →
          ss ≠ [] → (∀ s ∈ ss, s.body = []) →
          ∃ interfaces,
            d.shape = .enumShape interfaces
              ((walkOver settings.ignoredKeywords a).draft.constants
                ++ (walkOver settings.ignoredKeywords a).pendingConstants)
            ∧ e = { d with
                shape := (.enumShape interfaces
                  (walkOver settings.ignoredKeywords a).draft.constants) }) := by
  obtain ⟨ix, jx, w, hw, hd, he⟩ := outline_continued settings hfit
  have hwalk : walkOver settings.ignoredKeywords a = w.unsigned := by
    rw [hw, walkOver, ← Walk.steps_unsigned]
    rfl
  have hpast : w.PastHeader := by
    have h := ha.pastHeader
    rw [hwalk] at h
    exact ⟨h.inType, h.header⟩
  have hstands : (w.withLines jx).StandsAt w.standing := by
    have hspan := ha.span
    have hannotation := ha.annotation
    rw [hwalk] at hspan hannotation
    exact ⟨rfl, rfl, rfl, rfl, hspan, hannotation⟩
  obtain ⟨us, hus⟩ : ∃ us, us = Token.lineNumber
        ((Reader.read settings.ignoredKeywords {} a).1.line + 1)
      :: (Reader.read settings.ignoredKeywords {} a).1.nextLine.tokens
        settings.ignoredKeywords b := ⟨_, rfl⟩
  rw [← hus] at he
  have hgrows : w.draft.Grows ((w.withLines jx).steps us).draft :=
    (Walk.PastHeader.steps (w := w.withLines jx) ⟨hpast.inType, hpast.header⟩ us).draft
  obtain ⟨hname, hshape, hfields, hmethods⟩ := Walk.finish_grows hgrows
  refine ⟨_, _, hd, he, hname, hshape, hfields, hmethods, ?_⟩
  intro ss hss
  have hbare : bareTokens us = ss.flatMap LaterType.tokens := by
    rw [hus, bareTokens_cons_line rfl]
    exact hss.bareTokens_nextLine ha.outside
  have hkind : w.standing.draft.kind.isSome = true := hpast.inType
  rw [hwalk]
  constructor
  · intro hwait
    obtain ⟨t, htakes⟩ := takes_types ss hkind hwait
    have hend := htakes _ us hstands hbare
    obtain ⟨fs, ms, hsame, hfs, hms⟩ := Walk.finish_withMembers hgrows hwait hend
    refine ⟨⟨fs, ms, hsame, hfs, hms⟩, ?_⟩
    rw [hsame, Declaration.withMembers_eq_iff, ← List.map_eq_nil_iff, hfs,
      ← List.map_eq_nil_iff (l := ms), hms, List.flatMap_eq_nil_iff,
      List.flatMap_eq_nil_iff]
    constructor
    · rintro ⟨hfields, hmethods⟩ s hs
      exact ⟨hfields s hs, hmethods s hs⟩
    · intro hnone
      exact ⟨fun s hs => (hnone s hs).1, fun s hs => (hnone s hs).2⟩
  · intro hwait hne hbody
    rw [w.pendingConstants_unsigned]
    exact Walk.finish_dropped hgrows hwait
      (takes_emptyTypes hbody hne hkind _ us hstands hbare)

/-- A class that extends nothing. -/
def plainClass (name : Name []) (members : List (Member [])) : LaterType [] where
  packageName := none
  imports := []
  leading := { access := none, modifiers := [] }
  name
  outlook := .ofClass none []
  members
  noPackage := rfl
  noImports := rfl

/-- The field of a second class becomes one of the first, and a second class
    takes the constants of an enumeration away. -/
theorem outline_later_types_secondClass :
    (∃ d e fs, (outline "class A \x7b int w; \x7d" {}).value = .ok d
      ∧ (outline "class A \x7b int w; \x7d\nclass B \x7b int x; \x7d" {}).value = .ok e
      ∧ e.fields = d.fields ++ fs
      ∧ fs.map Field.unplaced = [{ type := "int", name := "x" }] ∧ e ≠ d)
    ∧ ∃ d e interfaces, (outline "enum E \x7b A, B \x7d" {}).value = .ok d
      ∧ (outline "enum E \x7b A, B \x7d\nclass C \x7b \x7d" {}).value = .ok e
      ∧ d.shape = .enumShape interfaces [⟨"A", "0"⟩, ⟨"B", "1"⟩]
      ∧ e.shape = .enumShape interfaces [] := by
  have hhead : ∀ c, isWord [c] = true →
      Laid false [.word "class", .word (String.ofList [c])]
        ['c', 'l', 'a', 's', 's', ' ', c, ' '] := fun c hc =>
    .word (w := ['c', 'l', 'a', 's', 's']) (.word (by decide))
      (.gap rfl (.word (w := [c]) (.word hc) (.gap rfl .nil)))
  have hbody : ∀ c, isWord [c] = true →
      Laid false [.word "int", .word (String.ofList [c]), .mark .semicolon]
        [' ', 'i', 'n', 't', ' ', c, ';', ' '] := fun c hc =>
    .gap rfl (.word (w := ['i', 'n', 't']) (.word (by decide))
      (.gap rfl (.word (w := [c]) (.word hc) (.mark (m := .semicolon) (.gap rfl .nil)))))
  constructor
  · let field : Name [] → Member [] := fun name =>
      .field { access := none, modifiers := [] } ⟨"int", by decide, by decide⟩ name none
    have ha : TypeSource.Renders (plainClass ⟨"A", by decide, by decide⟩
          [field ⟨"w", by decide, by decide⟩]).toTypeSource
        (String.ofList ['c', 'l', 'a', 's', 's', ' ', 'A', ' ', '{', ' ', 'i', 'n', 't',
          ' ', 'w', ';', ' ', '}']) :=
      ⟨_, _, [], rfl, hhead 'A' (by decide), hbody 'w' (by decide), .nil⟩
    have hb : LaidTypes
        [plainClass ⟨"B", by decide, by decide⟩ [field ⟨"x", by decide, by decide⟩]]
        ['c', 'l', 'a', 's', 's', ' ', 'B', ' ', '{', ' ', 'i', 'n', 't', ' ', 'x', ';',
          ' ', '}'] :=
      .cons (p := ['c', 'l', 'a', 's', 's', ' ', 'B', ' '])
        (x := [' ', 'i', 'n', 't', ' ', 'x', ';', ' ']) (hhead 'B' (by decide))
        (hbody 'x' (by decide)) (.nil .nil)
    obtain ⟨hends, hclosed⟩ := ha.endsType
    obtain ⟨d, e, hd, he, -, -, -, -, hlater⟩ := outline_later_types {}
      (b := ['c', 'l', 'a', 's', 's', ' ', 'B', ' ', '{', ' ', 'i', 'n', 't', ' ', 'x',
        ';', ' ', '}']) hends (linesFit_ofList (by decide))
    obtain ⟨⟨fs, ms, hsame, hfs, -⟩, hiff⟩ := (hlater _ hb).1 hclosed
    refine ⟨d, e, fs, hd, he, congrArg Declaration.fields hsame, hfs, ?_⟩
    intro heq
    exact absurd (hiff.mp heq _ List.mem_cons_self).1 (List.cons_ne_nil _ _)
  · have ha : EndsType [] ['e', 'n', 'u', 'm', ' ', 'E', ' ', '{', ' ', 'A', ',', ' ',
        'B', ' ', '}'] :=
      ⟨⟨by decide +kernel, by decide +kernel⟩,
        ⟨by decide +kernel, by decide +kernel⟩, by decide +kernel, by decide +kernel⟩
    have hb : LaidTypes [plainClass ⟨"C", by decide, by decide⟩ []] ['c', 'l', 'a', 's',
        's', ' ', 'C', ' ', '{', ' ', '}'] :=
      .cons (p := ['c', 'l', 'a', 's', 's', ' ', 'C', ' ']) (x := [' '])
        (hhead 'C' (by decide)) (.gap rfl .nil) (.nil .nil)
    obtain ⟨d, e, hd, he, -, -, -, -, hlater⟩ := outline_later_types {}
      (b := ['c', 'l', 'a', 's', 's', ' ', 'C', ' ', '{', ' ', '}']) ha
      (linesFit_ofList (by decide))
    obtain ⟨interfaces, hshape, hsame⟩ :=
      (hlater _ hb).2 (by decide +kernel) (by simp) (by simp; rfl)
    -- the two constants are still pending at the end of the first type
    have hdone : (walkOver [] ['e', 'n', 'u', 'm', ' ', 'E', ' ', '{', ' ', 'A', ',',
        ' ', 'B', ' ', '}']).draft.constants = [] := by decide +kernel
    have hpending : (walkOver [] ['e', 'n', 'u', 'm', ' ', 'E', ' ', '{', ' ', 'A', ',',
        ' ', 'B', ' ', '}']).pendingConstants = [⟨"A", "0"⟩, ⟨"B", "1"⟩] := by
      decide +kernel
    rw [hdone, hpending] at hshape
    rw [hdone] at hsame
    exact ⟨d, e, interfaces, hd, he, hshape, congrArg Declaration.shape hsame⟩

end JavaOutline
