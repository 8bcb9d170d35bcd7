import JavaOutline.Proofs.Recovery

/-! # The constants of an enumeration

    The constants of an enumeration may have arguments and bodies of their own.
    A word of an argument list is told apart from a constant only by what
    follows it: the last argument stands before a parenthesis and is dropped,
    but every other one stands before a comma, like a constant, and is recorded
    as one.  So the outline lists, with each constant, all its arguments but the
    last, and it lists exactly the constants if and only if none has two
    arguments. -/

namespace JavaOutline

variable {extra : List String}

/-! ## Constants as they are written -/

/-- An argument of a constant: what is read as one word, like a name, a number
    or a string. -/
structure Argument (extra : List String) where
  text : String
  form : WordForm text.toList
  plain : Keyword.isKeyword extra text = false

/-- A constant, with its arguments if it has parentheses. -/
structure EnumEntry (extra : List String) where
  name : Word extra
  arguments : Option (List (Argument extra))
  /-- There is a class body after it. -/
  body : Bool

def Argument.lexeme (a : Argument extra) : Lexeme := .word a.text

namespace EnumEntry

/-- The arguments between parentheses. -/
def argumentLexemes (as : List (Argument extra)) : List Lexeme :=
  .mark .openParen :: separated (as.map fun a => [a.lexeme])
    ++ [.mark .closeParen]

def lexemes (e : EnumEntry extra) : List Lexeme :=
  e.name.lexeme :: e.arguments.elim [] argumentLexemes
    ++ if e.body then [.block] else []

/-- How many arguments there are. -/
def arity (e : EnumEntry extra) : Nat := (e.arguments.getD []).length

/-- The names that are recorded for a constant: its own and, mistaken for
    constants, all its arguments but the last. -/
def recorded (e : EnumEntry extra) : List String :=
  e.name.text :: (e.arguments.getD []).dropLast.map Argument.text

end EnumEntry

/-- The inside of an enumeration without members. -/
def enumBody (es : List (EnumEntry extra)) (closed : Bool) : List Lexeme :=
  separated (es.map EnumEntry.lexemes)
    ++ if closed then [.mark .semicolon] else []

/-! ## Among the constants -/

/-- The walk is among the constants of an enumeration: those of `done` are in
    the draft, those of `rest` are parts of the statement, and `words` are
    pending. -/
structure Standing.Lists (x : Standing) (done rest words : List String) :
    Prop where
  awaits : x.awaitsConstants = true
  constants : x.draft.constants = numbered done
  parts : x.statement.parts = rest.map fun n => ⟨.identifier, n⟩
  words : x.statement.words = words
  nested : x.statement.isNested = false
  executable : x.statement.isExecutable = false
  header : x.statement.isHeader = false

namespace Standing.Lists

variable {x : Standing} {done rest words : List String}

/-- At most one pending word becomes an identifier. -/
theorem flush_parts (h : x.Lists done rest words) (hw : words.length ≤ 1) :
    x.statement.flush.parts
      = (rest ++ words).map fun n => ⟨.identifier, n⟩ := by
  have hwords : Part.ofWords words
      = words.map fun n => ⟨.identifier, n⟩ := by
    match words, hw with
    | [], _ => rfl
    | [_], _ => rfl
  show x.statement.parts ++ Part.ofWords x.statement.words = _
  rw [h.parts, h.words, hwords, List.map_append]

/-- The constants that the draft gets at the end of the statement. -/
theorem withConstants (h : x.Lists done rest words) (hw : words.length ≤ 1) :
    x.flush.withConstants
      = { x.draft with constants := numbered (done ++ (rest ++ words)) } := by
  rw [Standing.withConstants, flush, h.flush_parts hw, h.constants]
  exact congrArg (fun cs => { x.draft with constants := cs })
    (EnumConstant.ofParts_identifiers done (rest ++ words))

/-- A word is pending. -/
theorem takes_word {w : String} (h : x.Lists done rest [])
    (hw : WordForm w.toList) (hk : Keyword.isKeyword extra w = false) :
    ∃ y, Takes x [(Lexeme.word w).token extra] y ∧ y.Lists done rest [w] := by
  refine ⟨{ x with statement := x.statement.addWord w }, ?_, ?_⟩
  · rw [token_word hk]
    exact .symbol hw.plainText
  · refine ⟨h.awaits, h.constants, h.parts, ?_, h.nested, h.executable, h.header⟩
    show x.statement.words ++ [w] = [w]
    rw [h.words]
    rfl

/-- Before a comma a pending word is a constant. -/
theorem takes_comma (extra : List String) (h : x.Lists done rest words)
    (hw : words.length ≤ 1) :
    ∃ y, Takes x [(Lexeme.mark .comma).token extra] y
      ∧ y.Lists done (rest ++ words) [] :=
  ⟨_, .comma, h.awaits, h.constants, h.flush_parts hw, rfl, h.nested,
    h.executable, h.header⟩

/-- Before an opening parenthesis a pending word is a constant. -/
theorem takes_openParen (extra : List String) (h : x.Lists done rest words)
    (hw : words.length ≤ 1) :
    ∃ y, Takes x [(Lexeme.mark .openParen).token extra] y
      ∧ y.Lists done (rest ++ words) [] :=
  ⟨_, .openParen, h.awaits, h.constants, h.flush_parts hw, rfl, h.nested,
    h.executable, h.header⟩

/-- Before a closing parenthesis a pending word is dropped. -/
theorem takes_closeParen (extra : List String) (h : x.Lists done rest words)
    (hw : words.length ≤ 1) :
    ∃ y, Takes x [(Lexeme.mark .closeParen).token extra] y
      ∧ y.Lists done rest [] := by
  match words, hw with
  | [], _ =>
      have hnone : ∀ w, x.statement.words ≠ [w] := by
        intro w hword
        rw [h.words] at hword
        exact nomatch hword
      have hparts := h.flush_parts (by simp)
      rw [List.append_nil] at hparts
      exact ⟨_, .closeParen hnone, h.awaits, h.constants, hparts, rfl, h.nested,
        h.executable, h.header⟩
  | [w], _ =>
      exact ⟨_, .closeParen_word h.words, h.awaits, h.constants, h.parts, rfl,
        h.nested, h.executable, h.header⟩

/-- Before the body of the last constant all go to the draft. -/
theorem takes_block (extra : List String) (h : x.Lists done rest words)
    (hw : words.length ≤ 1) (hne : rest ++ words ≠ []) :
    ∃ y, Takes x [Lexeme.block.token extra] y
      ∧ y.Lists (done ++ (rest ++ words)) [] [] := by
  have hkept : x.statement.flush.Kept := by
    refine ⟨?_, h.nested, h.executable⟩
    rw [h.flush_parts hw]
    simpa using hne
  refine ⟨_, .brace_constants hkept h.header h.awaits, h.awaits, ?_, rfl, rfl,
    rfl, rfl, rfl⟩
  rw [h.withConstants hw]
  rfl

/-- All arguments but the last are recorded, and the last one is pending. -/
theorem takes_arguments (as : List (Argument extra)) :
    ∀ {x : Standing} {rest : List String}, x.Lists done rest [] →
      ∃ y, Takes x ((separated (as.map fun a => [a.lexeme])).map
          (Lexeme.token extra)) y
        ∧ y.Lists done (rest ++ as.dropLast.map Argument.text)
            (as.getLast?.toList.map Argument.text) := by
  induction as with
  | nil =>
      intro x rest h
      refine ⟨x, .nil, ?_⟩
      rwa [List.dropLast_nil, List.map_nil, List.append_nil]
  | cons a as ih =>
      intro x rest h
      obtain ⟨y, hword, hy⟩ := h.takes_word a.form a.plain
      cases as with
      | nil =>
          refine ⟨y, hword, ?_⟩
          rwa [List.dropLast_singleton, List.map_nil, List.append_nil]
      | cons b as =>
          -- a comma follows, so the argument is recorded
          obtain ⟨z, hcomma, hz⟩ := hy.takes_comma extra (by simp)
          obtain ⟨u, hrest, hu⟩ := ih hz
          refine ⟨u, hword.cons (hcomma.cons hrest), ?_⟩
          rwa [List.append_assoc] at hu

/-- A constant, up to its body. -/
theorem takes_signature (e : EnumEntry extra) (h : x.Lists done rest []) :
    ∃ y ns words, Takes x ((e.name.lexeme
        :: e.arguments.elim [] EnumEntry.argumentLexemes).map
          (Lexeme.token extra)) y
      ∧ y.Lists done (rest ++ ns) words ∧ words.length ≤ 1
      ∧ ns ++ words = e.recorded := by
  obtain ⟨y, hname, hy⟩ := h.takes_word (.word e.name.form) e.name.plain
  rw [EnumEntry.recorded]
  cases e.arguments with
  | none =>
      refine ⟨y, [], [e.name.text], hname, ?_, Nat.le_refl 1, rfl⟩
      rwa [List.append_nil]
  | some as =>
      -- the parenthesis records the name, and the closing one drops the last
      -- argument
      obtain ⟨z, hopen, hz⟩ := hy.takes_openParen extra (by simp)
      obtain ⟨u, hargs, hu⟩ := hz.takes_arguments as
      obtain ⟨v, hclose, hv⟩ := hu.takes_closeParen extra (by
        cases as.getLast? <;> simp)
      refine ⟨v, e.name.text :: as.dropLast.map Argument.text, [], ?_, ?_,
        Nat.zero_le 1, by simp⟩
      · have htakes := hname.cons (hopen.cons (hargs.append hclose))
        rw [← List.map_singleton, ← List.map_append] at htakes
        exact htakes
      · rwa [List.append_assoc] at hv

/-- A constant records its name and all its arguments but the last. -/
theorem takes_entry (e : EnumEntry extra) (h : x.Lists done rest []) :
    ∃ y done' rest' words, Takes x (e.lexemes.map (Lexeme.token extra)) y
      ∧ y.Lists done' rest' words ∧ words.length ≤ 1
      ∧ done' ++ (rest' ++ words) = done ++ (rest ++ e.recorded) := by
  obtain ⟨y, ns, words, hsign, hy, hw, hns⟩ := h.takes_signature e
  have hall : rest ++ ns ++ words = rest ++ e.recorded := by
    rw [List.append_assoc, hns]
  rw [EnumEntry.lexemes, List.map_append]
  cases e.body with
  | false =>
      refine ⟨y, done, rest ++ ns, words, ?_, hy, hw, by rw [hall]⟩
      exact hsign.append .nil
  | true =>
      obtain ⟨z, hblock, hz⟩ := hy.takes_block extra hw (by
        rw [hall]
        simp [EnumEntry.recorded])
      rw [hall] at hz
      exact ⟨z, _, [], [], hsign.append hblock, hz, Nat.zero_le 1, by simp⟩

theorem takes_entries (es : List (EnumEntry extra)) :
    ∀ {x : Standing} {done rest : List String}, x.Lists done rest [] →
      ∃ y done' rest' words,
        Takes x ((separated (es.map EnumEntry.lexemes)).map
          (Lexeme.token extra)) y
        ∧ y.Lists done' rest' words ∧ words.length ≤ 1
        ∧ done' ++ (rest' ++ words)
          = done ++ (rest ++ es.flatMap EnumEntry.recorded) := by
  induction es with
  | nil =>
      intro x done rest h
      exact ⟨x, done, rest, [], .nil, h, Nat.zero_le 1, rfl⟩
  | cons e es ih =>
      intro x done rest h
      obtain ⟨y, done', rest', words, hentry, hy, hw, hnames⟩ := h.takes_entry e
      cases es with
      | nil =>
          refine ⟨y, done', rest', words, hentry, hy, hw, ?_⟩
          simpa using hnames
      | cons k es =>
          obtain ⟨z, hcomma, hz⟩ := hy.takes_comma extra hw
          obtain ⟨u, done'', rest'', words', hes, hu, hw', hnames'⟩ := ih hz
          refine ⟨u, done'', rest'', words', ?_, hu, hw', ?_⟩
          · have htakes := hentry.append (hcomma.cons hes)
            simpa [separated] using htakes
          · rw [hnames', ← List.append_assoc, hnames]
            simp

/-- The inside of an enumeration, up to what the draft has at the end of the
    file. -/
theorem takes_enumBody (es : List (EnumEntry extra)) (closed : Bool)
    (h : x.Lists [] [] []) :
    ∃ y, Takes x ((enumBody es closed).map (Lexeme.token extra)) y
      ∧ y.statement.isNested = false ∧ y.statement.isExecutable = false
      ∧ y.final.kind = some .enumKind
      ∧ y.final.constants = numbered (es.flatMap EnumEntry.recorded) := by
  obtain ⟨y, done, rest, words, hes, hy, hw, hnames⟩ := h.takes_entries es
  have hkind : y.draft.kind = some .enumKind := by
    have hawaits := hy.awaits
    rw [Standing.awaitsConstants, Bool.and_eq_true] at hawaits
    exact eq_of_beq hawaits.1
  rw [List.nil_append, List.nil_append] at hnames
  rw [enumBody, List.map_append]
  cases closed with
  | false =>
      -- what is left in the statement counts at the end of the file
      refine ⟨y, hes.append .nil, hy.nested, hy.executable, ?_⟩
      rw [final, hy.awaits, if_pos rfl, hy.withConstants hw, hnames]
      exact ⟨hkind, rfl⟩
  | true =>
      have hend := Takes.semicolon_constants hy.nested hy.executable hy.awaits
      refine ⟨_, hes.append hend, rfl, rfl, ?_⟩
      have hdone : Standing.awaitsConstants
          { y.next y.flush.withConstants with constantsDone := true } = false := by
        rw [Standing.awaitsConstants, Bool.not_true, Bool.and_false]
      rw [final, hdone, if_neg Bool.false_ne_true]
      show y.flush.withConstants.kind = _ ∧ y.flush.withConstants.constants = _
      rw [hy.withConstants hw, hnames]
      exact ⟨hkind, rfl⟩

end Standing.Lists

/-! ## Before the constants -/

/-- In the header of an enumeration. -/
structure Standing.AtEnumHeader (x : Standing) : Prop where
  kind : x.draft.kind = some .enumKind
  constants : x.draft.constants = []
  constantsDone : x.constantsDone = false
  header : x.statement.isHeader = true
  kept : x.statement.flush.Kept

/-- The brace after the header opens the list of constants. -/
theorem Standing.AtEnumHeader.takes_brace {x : Standing} (h : x.AtEnumHeader) :
    ∃ y, Takes x [Token.brace] y ∧ y.Lists [] [] [] := by
  obtain ⟨_, _, _, _, _, hframe⟩ := Draft.applyHeader_frame x.draft
    x.flush.statement.parts x.flush.statement.doc ""
  refine ⟨_, .brace_header h.kept h.header, ?_, ?_, rfl, rfl, rfl, rfl, rfl⟩
  · show ((Draft.applyHeader x.draft _ _ "").value.kind == some .enumKind
      && !x.constantsDone) = true
    rw [hframe]
    show (x.draft.kind == some .enumKind && !x.constantsDone) = true
    rw [h.kind, h.constantsDone]
    rfl
  · exact (congrArg Draft.constants hframe).trans h.constants

/-- A text that ends in the header of an enumeration: after its tokens every
    walk over a file stands there, whatever the lines of the file.  Comments
    and annotations before the header are no matter. -/
structure IsEnumHead (extra : List String) (p : List Char) : Prop
    extends IsHead extra p where
  header : ∃ x : Standing, x.AtEnumHeader ∧ ∀ ix,
    (Walk.steps { cursor := { lines := ix } } (headTokens extra p)).StandsAt x

/-- The lexemes before an enumeration are such a text. -/
theorem TypeSource.isEnumHead {s : TypeSource extra} {p : List Char}
    (h : Laid false s.head p) (hk : s.outlook.kind = .enumKind) :
    IsEnumHead extra p := by
  obtain ⟨hhead, t, hheader, hkept, hstands⟩ := stands_at_header h
  exact ⟨hhead, _, ⟨congrArg some hk, rfl, rfl, hheader, hkept⟩, hstands⟩

/-! ## What is listed -/

theorem numbered_injective {ms ns : List String}
    (h : numbered ms = numbered ns) : ms = ns := by
  have hnames : ∀ ns, (numbered ns).map EnumConstant.name = ns := by
    intro ns
    exact List.ext_getElem (by simp [numbered]) (by simp [numbered])
  rw [← hnames ms, h, hnames ns]

/-- Nothing but the constants is recorded just if none has two arguments. -/
theorem flatMap_recorded_eq_iff (es : List (EnumEntry extra)) :
    es.flatMap EnumEntry.recorded = es.map (fun e => e.name.text)
      ↔ ∀ e ∈ es, e.arity ≤ 1 := by
  -- every constant is recorded, so the lists have one length only if no
  -- argument is
  have hlength : ∀ es : List (EnumEntry extra),
      es.length ≤ (es.flatMap EnumEntry.recorded).length := by
    intro es
    induction es with
    | nil => exact Nat.zero_le _
    | cons e es ih =>
        simp only [List.flatMap_cons, List.length_append, List.length_cons,
          EnumEntry.recorded]
        omega
  induction es with
  | nil => simp
  | cons e es ih =>
      have hdrop : (e.arguments.getD []).dropLast.map Argument.text = []
          ↔ e.arity ≤ 1 := by
        rw [List.map_eq_nil_iff, ← List.length_eq_zero_iff,
          List.length_dropLast, EnumEntry.arity]
        omega
      simp only [List.flatMap_cons, EnumEntry.recorded, List.cons_append,
        List.map_cons, List.cons.injEq, true_and, List.forall_mem_cons]
      refine Iff.trans ?_ (and_congr hdrop ih)
      constructor
      · intro h
        have hes := hlength es
        have hcount := congrArg List.length h
        simp only [List.length_append, List.length_map] at hcount
        have hnil : (e.arguments.getD []).dropLast.map Argument.text = [] :=
          List.eq_nil_of_length_eq_zero (by rw [List.length_map]; omega)
        rw [hnil] at h
        exact ⟨hnil, h⟩
      · rintro ⟨hnil, h⟩
        rw [hnil]
        exact h

/-- The outline of an enumeration lists its constants, numbered from zero, with
    all their arguments but the last between them; so it lists exactly the
    constants if and only if none of them has two arguments. -/
theorem outline_enum_constants (settings : Settings) {p x t : List Char}
    (hp : IsEnumHead settings.ignoredKeywords p)
    (es : List (EnumEntry settings.ignoredKeywords)) (closed : Bool)
    (hx : Laid false (enumBody es closed) x) (ht : Laid false [] t)
    (hlines : LinesFit (String.ofList (p ++ '{' :: (x ++ '}' :: t)))) :
    ∃ d interfaces,
      (outline (String.ofList (p ++ '{' :: (x ++ '}' :: t))) settings).value
        = .ok d
      ∧ d.shape = .enumShape interfaces
          (numbered (es.flatMap EnumEntry.recorded))
      ∧ (d.shape = .enumShape interfaces
            (numbered (es.map fun e => e.name.text))
          ↔ ∀ e ∈ es, e.arity ≤ 1) := by
  obtain ⟨y, hheader, hstands⟩ := hp.header
  obtain ⟨z, hbrace, hz⟩ := hheader.takes_brace
  obtain ⟨u, hbody, hn, hexec, hkind, hconstants⟩ := hz.takes_enumBody es closed
  obtain ⟨ts, htokens, hts⟩ := tokenize_type hp.toIsHead (hx.spellsBody _) ht
  obtain ⟨ix, hix⟩ := outline_value settings hlines
  rw [htokens, Walk.steps_append] at hix
  have hend := (hbrace.cons hbody) _ ts (hstands ix) hts
  have hshape : (Walk.steps (Walk.steps { cursor := { lines := ix } }
      (headTokens settings.ignoredKeywords p)) ts).finish.value.shape
        = .enumShape u.final.interfaces
            (numbered (es.flatMap EnumEntry.recorded)) := by
    have hfinish := congrArg Declaration.shape (hend.finish hn hexec)
    rw [Draft.finish, hkind] at hfinish
    rw [← hconstants]
    exact hfinish
  refine ⟨_, u.final.interfaces, hix, hshape, ?_⟩
  rw [hshape, ← flatMap_recorded_eq_iff]
  constructor
  · intro h
    exact numbered_injective (Shape.enumShape.inj h).2
  · intro h
    rw [h]

/-- An enumeration without constants, for its header. -/
def bareEnum : TypeSource [] where
  packageName := none
  imports := []
  leading := { access := none, modifiers := [] }
  name := ⟨"E", by decide, by decide⟩
  outlook := .ofEnum [] []
  members := []

/-- A constant with two arguments and one without. -/
def twoArguments : List (EnumEntry []) :=
  [{ name := ⟨"A", by decide, by decide⟩
     arguments := some [⟨"1", .word (by decide), by decide⟩,
       ⟨"2", .word (by decide), by decide⟩]
     body := false },
   { name := ⟨"B", by decide, by decide⟩, arguments := none, body := false }]

/-- The first argument is listed as a constant. -/
theorem outline_enum_twoArguments :
    ∃ d interfaces, (outline "enum E \x7b A(1, 2), B \x7d" {}).value = .ok d
      ∧ d.shape = .enumShape interfaces [⟨"A", "0"⟩, ⟨"1", "1"⟩, ⟨"B", "2"⟩]
      ∧ d.shape ≠ .enumShape interfaces [⟨"A", "0"⟩, ⟨"B", "1"⟩] := by
  have hhead : Laid false bareEnum.head ['e', 'n', 'u', 'm', ' ', 'E', ' '] :=
    .word (w := ['e', 'n', 'u', 'm']) (.word (by decide))
      (.gap rfl (.word (w := ['E']) (.word (by decide)) (.gap rfl .nil)))
  have hbody : Laid false (enumBody twoArguments false)
      [' ', 'A', '(', '1', ',', ' ', '2', ')', ',', ' ', 'B', ' '] :=
    .gap rfl (.word (w := ['A']) (.word (by decide))
      (.mark (m := .openParen) (.word (w := ['1']) (.word (by decide))
        (.mark (m := .comma) (.gap rfl (.word (w := ['2']) (.word (by decide))
          (.mark (m := .closeParen) (.mark (m := .comma)
            (.gap rfl (.word (w := ['B']) (.word (by decide))
              (.gap rfl .nil)))))))))))
  obtain ⟨d, interfaces, hd, hshape, hexact⟩ := outline_enum_constants {}
    (TypeSource.isEnumHead hhead rfl) twoArguments false hbody .nil
    (linesFit_ofList (by decide))
  refine ⟨d, interfaces, hd, hshape, ?_⟩
  intro h
  exact absurd (hexact.mp h) (by decide)

end JavaOutline
