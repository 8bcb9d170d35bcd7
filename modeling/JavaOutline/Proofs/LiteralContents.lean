import JavaOutline.Proofs.CommentSpans
import JavaOutline.Proofs.Literals
import JavaOutline.Proofs.WrittenParts

/-! # What stands in a literal

    A field is declared by the words before its equals sign, so what a literal
    after it says does not matter: the outline of a source stays the same, but
    for the texts of lines, when the literal is replaced by another one of its
    kind with as many lines (`outline_literal_contents`).

    Text blocks are an exception to this.  The reader makes a word of each of
    their lines, and a line that is a keyword or opens a comment is then taken as
    one; `isLoaded` lists the lines for which this shows. -/

namespace JavaOutline

open Source Text

/-! ## The parts of a field -/

/-- What the parts of a statement say about a field. -/
def fieldReading (ps : List Part) : FieldReading :=
  (Logged.fold FieldReading.step {} ps).value

/-- The words that a group of words gives for a field. -/
def groupWords (ws : List String) : List String :=
  (Part.ofWords ws).flatMap fun p => splitWords p.text

theorem fieldReading_append (ps qs : List Part) :
    fieldReading (ps ++ qs)
      = (Logged.fold FieldReading.step (fieldReading ps) qs).value := by
  rw [fieldReading, Logged.fold_append, Logged.value_bind]
  rfl

theorem fieldReading_group (ps : List Part) (ws : List String) :
    fieldReading (ps ++ Part.ofWords ws)
      = { fieldReading ps with
          words := (fieldReading ps).words ++ groupWords ws } := by
  rw [fieldReading_append]
  match ws with
  | [] => simp [Part.ofWords, groupWords, Logged.fold]
  | [w] => simp [Part.ofWords, groupWords, Logged.fold, FieldReading.step]
  | v :: w :: ws => simp [Part.ofWords, groupWords, Logged.fold, FieldReading.step]

/-- A type, a name and an equals sign are read back from their group, whatever
    follows in it. -/
theorem groupWords_declaration {type name : String} (ht : Unsplit type)
    (hn : Unsplit name) (us : List String) :
    ∃ vs, groupWords (type :: name :: "=" :: us) = type :: name :: "=" :: vs := by
  cases us with
  | nil =>
      refine ⟨[], ?_⟩
      show splitWords (joinWords [type, name]) ++ (splitWords "=" ++ []) = _
      rw [ht.splitWords_cons, unsplit_equals.splitWords]
      show type :: splitWords name ++ _ = _
      rw [hn.splitWords]
      rfl
  | cons u us =>
      show ∃ vs, splitWords (joinWords (type :: name :: "=" :: (u :: us).dropLast))
        ++ _ = _
      rw [ht.splitWords_cons, hn.splitWords_cons]
      cases (u :: us).dropLast with
      | nil => exact ⟨_, rfl⟩
      | cons v vs =>
          rw [unsplit_equals.splitWords_cons]
          exact ⟨_, rfl⟩

/-- Nothing after an equals sign counts. -/
theorem declaratorWords_equals (ws us vs : List String) :
    declaratorWords (ws ++ "=" :: us) = declaratorWords (ws ++ "=" :: vs) := by
  induction ws with
  | nil => rfl
  | cons w ws ih => rw [List.cons_append, List.cons_append, declaratorWords,
      declaratorWords, ih]

theorem Field.ofParts?_equals {ps qs : List Part} {r : FieldReading}
    {ws us vs : List String}
    (hp : fieldReading ps = { r with words := ws ++ "=" :: us })
    (hq : fieldReading qs = { r with words := ws ++ "=" :: vs }) (line : Int)
    (signature : String) :
    (Field.ofParts? ps line signature).value
      = (Field.ofParts? qs line signature).value := by
  rw [fieldReading] at hp hq
  rw [Field.ofParts?, Field.ofParts?, Logged.value_bind, Logged.value_bind, hp, hq,
    declaratorWords_equals ws us vs]

/-- A marker says nothing about a field. -/
theorem FieldReading.step_marker {word : String} {kind : PartKind}
    (h : Part.marker? word = some kind) (r : FieldReading) :
    (r.step ⟨kind, ""⟩).value = r := by
  have hkind : kind = .throwing ∨ kind = .implementing ∨ kind = .extending
      ∨ kind = .importing ∨ kind = .packaging := by grind [Part.marker?]
  rcases hkind with rfl | rfl | rfl | rfl | rfl <;> rfl

/-! ## Statements with an initializer -/

/-- The statement `s` is `s₀` with a type, a name, an equals sign and some more
    words, all of which may have become parts. -/
structure Statement.Initialises (s₀ : Statement) (type name : String)
    (s : Statement) : Prop where
  rest : s = { s₀ with parts := s.parts, words := s.words, hasInitializer := true }
  gathered : (s.parts = s₀.parts ∧ ∃ us, s.words = type :: name :: "=" :: us)
    ∨ ∃ us, fieldReading s.parts
        = { fieldReading s₀.parts with
            words := (fieldReading s₀.parts).words ++ type :: name :: "=" :: us }

namespace Statement.Initialises

variable {s₀ s : Statement} {type name : String}

/-- The start of a field. -/
theorem start (hw : s₀.words = []) :
    s₀.Initialises type name (s₀.addWords [type, name, "="]) := by
  rw [addWords_eq, hw]
  refine ⟨?_, .inl ⟨rfl, [], rfl⟩⟩
  simp [show holds '=' "=" = true from rfl]

theorem addWord (h : s₀.Initialises type name s) (w : String) :
    s₀.Initialises type name (s.addWord w) := by
  refine ⟨?_, ?_⟩
  · conv => lhs; rw [Statement.addWord, h.rest]
    rfl
  · rcases h.gathered with ⟨hparts, us, hwords⟩ | hread
    · refine .inl ⟨hparts, us ++ [w], ?_⟩
      show s.words ++ [w] = _
      rw [hwords]
      rfl
    · exact .inr hread

/-- The field that the words declare, once they have become parts. -/
theorem reading (h : s₀.Initialises type name s) (ht : Unsplit type)
    (hn : Unsplit name) :
    ∃ us, fieldReading s.flush.parts
      = { fieldReading s₀.parts with
          words := (fieldReading s₀.parts).words ++ type :: name :: "=" :: us } := by
  have hflush : fieldReading s.flush.parts = _ := fieldReading_group s.parts s.words
  rcases h.gathered with ⟨hparts, us, hwords⟩ | ⟨us, hread⟩
  · obtain ⟨vs, hvs⟩ := groupWords_declaration ht hn us
    exact ⟨vs, by rw [hflush, hparts, hwords, hvs]⟩
  · refine ⟨us ++ groupWords s.words, ?_⟩
    rw [hflush, hread]
    simp

theorem flush (h : s₀.Initialises type name s) (ht : Unsplit type)
    (hn : Unsplit name) : s₀.Initialises type name s.flush := by
  refine ⟨?_, .inr (h.reading ht hn)⟩
  conv => lhs; rw [Statement.flush, h.rest]
  rfl

/-- A part that says nothing about a field. -/
theorem add (h : s₀.Initialises type name s) (ht : Unsplit type)
    (hn : Unsplit name) {p : Part}
    (hp : ∀ r : FieldReading, (r.step p).value = r) :
    s₀.Initialises type name (s.flush.add p) := by
  have hflush := h.flush ht hn
  refine ⟨?_, .inr ?_⟩
  · conv => lhs; rw [Statement.add, hflush.rest]
    rfl
  · obtain ⟨us, hread⟩ := h.reading ht hn
    refine ⟨us, ?_⟩
    show fieldReading (s.flush.parts ++ [p]) = _
    rw [fieldReading_append, hread]
    exact hp _

theorem parts_ne_nil (h : s₀.Initialises type name s) (ht : Unsplit type)
    (hn : Unsplit name) : s.flush.parts ≠ [] := by
  intro hparts
  obtain ⟨us, hread⟩ := h.reading ht hn
  rw [hparts] at hread
  have hwords : [] = (fieldReading s₀.parts).words ++ type :: name :: "=" :: us :=
    congrArg FieldReading.words hread
  exact absurd hwords (by simp)

end Statement.Initialises

/-! ## Walks through an initializer -/

/-- A line of a text block that a walk takes for more than a word: it opens a
    comment or a type, marks who may use the field, modifies it, belongs to a
    statement, or makes a licence of the last comment. -/
def isLoaded (w : String) : Bool :=
  w == "/*" || w == "/**" || w == "package" || Keyword.isTypeWord w
    || Keyword.accessWords.contains w || Keyword.modifierWords.contains w
    || Keyword.isStatementWord w

namespace Walk

/-- The walk `v` later on in the same statement, on line `n`. -/
def later (v : Walk) (n : Int) (span : Span) (a : Annotation) (s : Statement) :
    Walk :=
  { v with
    cursor := { v.cursor.mark with line := n }
    span := span
    annotation := a
    statement := s }

variable {v : Walk} {s₀ s : Statement} {type name : String} {n : Int}

/-- A line that is no keyword. -/
theorem later_symbol (hs : s₀.Initialises type name s) {a : Annotation}
    (ha : (v.later n .code a s).inArguments = false) {word : String}
    (hl : isLoaded word = false) (k : Int) :
    ∃ span b s', ((v.later n .code a s).step ⟨.symbol, word, k⟩).value
        = v.later n span b s'
      ∧ (span = .code ∨ span = .lineComment)
      ∧ (v.later n span b s').inArguments = false
      ∧ s₀.Initialises type name s' := by
  have hopen : word ≠ "/**" ∧ word ≠ "/*" := by
    constructor <;>
    · rintro rfl
      exact nomatch hl
  rw [step_of_not_inArguments ha]
  show ∃ span b s', ((v.later n .code a s).symbol word).value = _ ∧ _
  by_cases hc : word = "*/"
  · subst hc
    exact ⟨.code, .absent, s, rfl, .inl rfl, rfl, hs⟩
  have hspan : (v.later n .code a s).span = .code := rfl
  rw [symbol, hspan, if_neg (by decide), if_neg hc]
  show ∃ span b s', (v.later n .code a s).codeSymbol word = _ ∧ _
  rw [codeSymbol, if_neg hopen.1, if_neg hopen.2]
  split
  · exact ⟨.lineComment, .absent, s, rfl, .inr rfl, rfl, hs⟩
  · split
    · exact ⟨.code, .named, s, rfl, .inl rfl, rfl, hs⟩
    · exact ⟨.code, .absent, s.addWord word, rfl, .inl rfl, rfl, hs.addWord word⟩

/-- A line that is a keyword. -/
theorem later_keyword (hs : s₀.Initialises type name s) (ht : Unsplit type)
    (hn : Unsplit name) {a : Annotation}
    (ha : (v.later n .code a s).inArguments = false) {word : String}
    (hl : isLoaded word = false) (k : Int) :
    ∃ span b s', ((v.later n .code a s).step ⟨.keyword, word, k⟩).value
        = v.later n span b s'
      ∧ (span = .code ∨ span = .lineComment)
      ∧ (v.later n span b s').inArguments = false
      ∧ s₀.Initialises type name s' := by
  simp only [isLoaded, Bool.or_eq_false_iff] at hl
  obtain ⟨⟨⟨⟨⟨⟨-, -⟩, hpackage⟩, htype⟩, haccess⟩, hmodifier⟩, hstatement⟩ := hl
  rw [step_of_not_inArguments ha]
  show ∃ span b s', (codeKeyword (v.later n .code .absent s.flush) word k).value
    = _ ∧ _
  rw [codeKeyword, htype, hstatement]
  have hflush := hs.flush ht hn
  split
  · contradiction
  · split
    · -- what is left are markers
      have hpart : Part.ofKeyword? word
          = (Part.marker? word).map fun kind => ⟨kind, ""⟩ := by
        rw [Keyword.isTypeWord] at htype
        rw [Part.ofKeyword?, htype, haccess, hmodifier]
        rfl
      have hlicense : ¬ (word = "package"
          ∧ (v.later n .code .absent s.flush).headerComment ≠ "") := by
        rintro ⟨rfl, -⟩
        exact absurd hpackage (by decide)
      show ∃ span b s', (v.later n .code .absent s.flush).structuralKeyword word
        = _ ∧ _
      rw [structuralKeyword]
      simp only [if_neg hlicense, hpart]
      cases hm : Part.marker? word with
      | none => exact ⟨.code, .absent, s.flush, rfl, .inl rfl, rfl, hflush⟩
      | some kind =>
          exact ⟨.code, .absent, s.flush.add ⟨kind, ""⟩, rfl, .inl rfl, rfl,
            hs.add ht hn (FieldReading.step_marker hm)⟩
    · split
      · split
        · exact ⟨.code, .absent, s.flush, rfl, .inl rfl, rfl, hflush⟩
        · exact ⟨.code, .named, s.flush, rfl, .inl rfl, rfl, hflush⟩
      · exact ⟨.code, .absent, s.flush, rfl, .inl rfl, rfl, hflush⟩

/-- The next line. -/
theorem later_lineNumber {span : Span} (hspan : span = .code ∨ span = .lineComment)
    {a : Annotation} {m : Nat} (hm : m < 10 ^ maxDigits) :
    ((v.later n span a s).step (Token.lineNumber m)).value = v.later m .code a s := by
  have hnumber : integer? (toString m) = some (m : Int) := by
    rw [integer?_toString, if_pos hm]
  rw [step_lineNumber, Logged.value_pure, lineNumber, hnumber]
  rcases hspan with rfl | rfl <;> rfl

end Walk

/-! ## Lines of a literal -/

/-- A word with a character that no keyword has is none. -/
theorem not_keyword_of_mem {c : Char}
    (hc : (Keyword.typeWords ++ Keyword.accessWords ++ Keyword.modifierWords
      ++ Keyword.markerWords ++ Keyword.docTags ++ Keyword.statementWords
      ++ Keyword.passiveWords).all (fun k => !k.toList.contains c) = true)
    {w : String} (h : c ∈ w.toList) : Keyword.isKeyword [] w = false := by
  cases hk : Keyword.isKeyword [] w with
  | false => rfl
  | true =>
      have hmem : w ∈ Keyword.typeWords ++ Keyword.accessWords
          ++ Keyword.modifierWords ++ Keyword.markerWords ++ Keyword.docTags
          ++ Keyword.statementWords ++ Keyword.passiveWords := by
        simpa [Keyword.isKeyword, Keyword.isStructural, Keyword.isDocTag,
          Keyword.isIgnored, or_assoc] using hk
      have hnone := List.all_eq_true.mp hc w hmem
      rw [List.contains_iff_mem.mpr h] at hnone
      cases hnone

/-- No keyword has a quote in it. -/
theorem not_keyword_of_quote {w : String}
    (h : '"' ∈ w.toList ∨ '\'' ∈ w.toList) : Keyword.isKeyword [] w = false := by
  rcases h with h | h
  · exact not_keyword_of_mem (by decide +kernel) h
  · exact not_keyword_of_mem (by decide +kernel) h

/-- A line that is a word whatever else stands in it: it has a quote, and it is
    no annotation. -/
structure QuotedLine (l : List Char) : Prop where
  quote : '"' ∈ l ∨ '\'' ∈ l
  notAt : l.head? ≠ some '@'

namespace QuotedLine

variable {l : List Char}

theorem tokens (h : QuotedLine l) (n : Nat) :
    (Gather.mk 0 0 l.reverse).wordToken [] n
      = [⟨.symbol, String.ofList l, n⟩] := by
  have hne : l.reverse.isEmpty = false := by
    cases l with
    | nil => exact absurd h.quote (by simp)
    | cons c l => simp
  have hkey : Keyword.isKeyword [] (String.ofList l) = false := by
    apply not_keyword_of_quote
    rw [String.toList_ofList]
    exact h.quote
  rw [Gather.wordToken, hne, List.reverse_reverse, Token.ofWord, hkey]
  rfl

theorem step (h : QuotedLine l) {w : Walk} (hs : w.span = .code)
    (ha : w.inArguments = false) (n : Int) :
    (w.step ⟨.symbol, String.ofList l, n⟩).value
      = { w.addWord (String.ofList l) with annotation := .absent } := by
  have hne : ∀ k : String, '"' ∉ k.toList → '\'' ∉ k.toList →
      String.ofList l ≠ k := by
    rintro k h1 h2 rfl
    rw [String.toList_ofList] at h1 h2
    rcases h.quote with hq | hq
    · exact h1 hq
    · exact h2 hq
  rw [Walk.step_of_not_inArguments ha]
  refine Walk.symbol_word hs ⟨?_, ?_, ?_, ?_⟩ ?_
  · exact hne _ (by decide) (by decide)
  · exact hne _ (by decide) (by decide)
  · exact hne _ (by decide) (by decide)
  · exact hne _ (by decide) (by decide)
  · rw [startsWith, String.toList_ofList, beq_eq_false_iff_ne]
    exact h.notAt

end QuotedLine

namespace Walk

variable {v : Walk} {s₀ s : Statement} {type name : String}

/-- The lines of a literal after the first. -/
theorem later_lineWords (ht : Unsplit type) (hn : Unsplit name)
    {l : List Char} {ls : List (List Char)} :
    ∀ {k : Nat} {a : Annotation} {s : Statement},
      s₀.Initialises type name s → (v.later k .code a s).inArguments = false →
      (∀ x ∈ (l :: ls).dropLast, isLoaded (String.ofList x) = false) →
      (∀ x ∈ (l :: ls).getLast?, QuotedLine x) →
      k + ls.length < 10 ^ maxDigits →
      ∃ s', (v.later k .code a s).steps (lineWords [] k l ls)
          = v.later ((k + ls.length : Nat) : Int) .code .absent s'
        ∧ s₀.Initialises type name s' := by
  induction ls generalizing l with
  | nil =>
      intro k a s hs ha _ hlast _
      have hquoted := hlast l rfl
      refine ⟨s.addWord (String.ofList l), ?_, hs.addWord _⟩
      rw [lineWords, hquoted.tokens]
      exact hquoted.step rfl ha k
  | cons x ls ih =>
      intro k a s hs ha hmid hlast hfit
      rw [List.length_cons] at hfit
      have hl := hmid l (by simp)
      -- the line itself, if there is anything on it
      have hline : ∃ span b s',
          (v.later k .code a s).steps ((Gather.mk 0 0 l.reverse).wordToken [] k)
            = v.later k span b s'
          ∧ (span = .code ∨ span = .lineComment)
          ∧ (v.later k span b s').inArguments = false
          ∧ s₀.Initialises type name s' := by
        rw [Gather.wordToken, List.reverse_reverse]
        split
        · exact ⟨.code, a, s, rfl, .inl rfl, ha, hs⟩
        · rw [Token.ofWord]
          split
          · exact later_keyword hs ht hn ha hl k
          · exact later_symbol hs ha hl k
      obtain ⟨span, b, s', hstep, hspan, hb, hs'⟩ := hline
      obtain ⟨s'', hrest, hs''⟩ := ih (l := x) (k := k + 1) hs' hb
        (fun y hy => hmid y (List.mem_cons_of_mem l hy))
        (fun y hy => hlast y (by rwa [List.getLast?_cons_cons])) (by omega)
      refine ⟨s'', ?_, hs''⟩
      rw [lineWords, steps_append, hstep]
      show (((v.later k span b s').step (Token.lineNumber (k + 1))).value).steps _ = _
      rw [later_lineNumber hspan (by omega), hrest, List.length_cons,
        show k + 1 + ls.length = k + (ls.length + 1) by omega]

/-- All lines of a literal, from the equals sign on. -/
theorem steps_lineWords (hspan : v.span = .code) (ha : v.annotation = .absent)
    (hs : s₀.Initialises type name v.statement) (ht : Unsplit type)
    (hn : Unsplit name) {l : List Char} {ls : List (List Char)} {k : Nat}
    (hfirst : QuotedLine l)
    (hmid : ∀ x ∈ ls.dropLast, isLoaded (String.ofList x) = false)
    (hlast : ∀ x ∈ ls.getLast?, QuotedLine x)
    (hfit : k + ls.length < 10 ^ maxDigits) :
    ∃ s', v.steps (lineWords [] k l ls)
        = v.later (if ls.length = 0 then v.cursor.line else (k + ls.length : Nat))
            .code .absent s'
      ∧ s₀.Initialises type name s' := by
  have hargs : v.inArguments = false := by rw [inArguments, ha]
  have hword : (v.step ⟨.symbol, String.ofList l, k⟩).value
      = v.later v.cursor.line .code .absent (v.statement.addWord (String.ofList l)) := by
    rw [hfirst.step hspan hargs, ← hspan]
    rfl
  cases ls with
  | nil =>
      refine ⟨_, ?_, hs.addWord (String.ofList l)⟩
      rw [lineWords, hfirst.tokens]
      exact hword
  | cons x ls =>
      rw [List.length_cons] at hfit
      obtain ⟨s', hrest, hs'⟩ := later_lineWords (v := v) (a := .absent) ht hn
        (k := k + 1) (hs.addWord (String.ofList l)) rfl hmid hlast (by omega)
      refine ⟨s', ?_, hs'⟩
      rw [lineWords, hfirst.tokens]
      show ((v.step ⟨.symbol, String.ofList l, k⟩).value.step
        (Token.lineNumber (k + 1))).value.steps _ = _
      rw [hword, later_lineNumber (.inl rfl) (by omega), hrest, List.length_cons,
        if_neg (by omega), show k + 1 + ls.length = k + (ls.length + 1) by omega]

/-! ## The end of the field -/

/-- A statement with parts is passed over if it declares a type or is executable. -/
theorem skips_of_parts {w : Walk} (hparts : w.statement.parts ≠ []) :
    w.skips.value = (w.statement.isNested || w.statement.isExecutable) := by
  rw [skips, if_neg hparts]
  cases w.statement.isNested <;> cases w.statement.isExecutable <;> rfl

/-- A statement without parameters, ended by a semicolon inside a type, is a
    field unless it is passed over. -/
theorem endStatement_field {w : Walk} (hin : w.inType = true)
    (hwait : w.awaitsConstants = false) (hp : w.statement.hasParams = false)
    (hparts : w.statement.parts ≠ []) :
    w.endStatement.value
      = if w.statement.isNested || w.statement.isExecutable then w
        else w.addField.value := by
  rw [endStatement, Logged.value_bind, skips_of_parts hparts, hwait, hin, hp]
  cases w.statement.isNested || w.statement.isExecutable <;> rfl

/-- The draft after the field that the parts `ps` declare on line `n`, which
    `s₀` may have decided to pass over. -/
def fieldDraft (v : Walk) (s₀ : Statement) (n : Int) (ps : List Part) : Draft :=
  let c := { v.cursor.mark with line := n }
  if s₀.isNested || s₀.isExecutable then v.draft
  else { v.draft with
    fields := v.draft.fields
      ++ (Field.ofParts? ps c.startLine c.signature).value.toList }

theorem later_semicolon {n k : Int} (ht : Unsplit type) (hn : Unsplit name)
    (hs : s₀.Initialises type name s) (hin : v.inType = true)
    (hwait : v.awaitsConstants = false) (hp : s₀.hasParams = false) :
    ((v.later n .code .absent s).step ⟨.statementEnd, ";", k⟩).value
      = { v.later n .code .absent {} with
          draft := v.fieldDraft s₀ n s.flush.parts
          cursor := { v.cursor.mark with line := n }.clear } := by
  have hparams : s.hasParams = false := by rw [hs.rest]; exact hp
  have hnested : s.isNested = s₀.isNested := by rw [hs.rest]
  have hexecutable : s.isExecutable = s₀.isExecutable := by rw [hs.rest]
  have hfield := endStatement_field (w := (v.later n .code .absent s).flush) hin hwait
    hparams (hs.parts_ne_nil ht hn)
  have hend : ((v.later n .code .absent s).step ⟨.statementEnd, ";", k⟩).value
      = (v.later n .code .absent s).flush.endStatement.value.nextStatement := by
    rw [step_of_not_inArguments rfl]
    show (statementEnd _ ";" k).value = _
    rw [statementEnd, if_neg (fun h => h rfl)]
    rfl
  rw [hend, hfield, fieldDraft]
  show nextStatement (if s.isNested || s.isExecutable then _ else _) = _
  rw [hnested, hexecutable]
  split <;> rfl

/-- What comes after the equals sign has no say in the draft. -/
theorem fieldDraft_congr {t : Statement} (ht : Unsplit type) (hn : Unsplit name)
    (hs : s₀.Initialises type name s) (ht' : s₀.Initialises type name t) (n : Int) :
    v.fieldDraft s₀ n s.flush.parts = v.fieldDraft s₀ n t.flush.parts := by
  obtain ⟨us, hus⟩ := hs.reading ht hn
  obtain ⟨vs, hvs⟩ := ht'.reading ht hn
  have hsplit : ∀ ws : List String,
      (fieldReading s₀.parts).words ++ type :: name :: "=" :: ws
        = ((fieldReading s₀.parts).words ++ [type, name]) ++ "=" :: ws := by
    intro ws
    rw [List.append_assoc]
    rfl
  rw [hsplit] at hus hvs
  rw [fieldDraft, fieldDraft, Field.ofParts?_equals hus hvs]

end Walk

/-- A word ends an annotation, so it does not matter that one has been named
    before it. -/
theorem Walk.steps_absent {w : Walk} {word : String} (hword : PlainText word)
    {ts us : List Token} (hcode : w.readsCode = true)
    (hts : bareTokens ts = ⟨.symbol, word, 0⟩ :: us) :
    w.steps ts = Walk.steps { w with annotation := .absent } ts := by
  induction ts generalizing w with
  | nil => exact absurd hts (List.cons_ne_nil _ _).symm
  | cons t ts ih =>
      have hspan : w.span = .code := w.span_of_readsCode hcode
      have hargs : w.inArguments = false := w.not_inArguments_of_readsCode hcode
      cases hline : t.kind.isLine with
      | true =>
          rw [bareTokens_cons_line hline] at hts
          have hstep : (Walk.step { w with annotation := .absent } t).value
                = { (w.step t).value with annotation := .absent }
              ∧ (w.step t).value.readsCode = true := by
            rw [step_of_not_inArguments hargs, step_of_not_inArguments rfl, plainStep,
              plainStep]
            cases hk : t.kind with
            | sign => exact ⟨rfl, hcode⟩
            | lineNumber =>
                refine ⟨rfl, ?_⟩
                show readsCode (w.lineNumber t.text) = true
                rw [lineNumber, if_neg (by rw [hspan]; decide)]
                exact hcode
            | _ =>
                rw [hk] at hline
                exact absurd hline Bool.false_ne_true
          show (w.step t).value.steps ts
            = (Walk.step { w with annotation := .absent } t).value.steps ts
          rw [hstep.1]
          exact ih hstep.2 hts
      | false =>
          rw [bareTokens_cons hline] at hts
          obtain ⟨hbare, -⟩ := List.cons.inj hts
          have hkind : t.kind = .symbol := congrArg Token.kind hbare
          have htext : t.text = word := congrArg Token.text hbare
          have hsymbol : ∀ v : Walk, v.span = .code → v.inArguments = false →
              (v.step t).value = { v.addWord word with annotation := .absent } := by
            intro v hv ha
            rw [step_of_not_inArguments ha, plainStep, hkind, htext]
            exact hword.symbol hv
          show (w.step t).value.steps ts
            = (Walk.step { w with annotation := .absent } t).value.steps ts
          rw [hsymbol w hspan hargs, hsymbol { w with annotation := .absent } hspan rfl]
          rfl

/-! ## Sources with a field -/

/-- The walk over a text, but for the last word of its last line.  It knows no line
    texts. -/
def walkUpTo (extra : List String) (p : List Char) : Walk :=
  Walk.steps {} (Token.lineNumber 1 :: (Reader.read extra {} p).2)

/-- A text that ends in the body of its type where a field may start: it has
    no open statement but for keywords. -/
structure AtField (p : List Char) : Prop where
  level : (Reader.read [] {} p).1.Level 1
  word : (Reader.read [] {} p).1.gather.word = []
  readsCode : (walkUpTo [] p).readsCode = true
  inType : (walkUpTo [] p).inType = true
  constants : (walkUpTo [] p).awaitsConstants = false
  words : (walkUpTo [] p).statement.words = []
  params : (walkUpTo [] p).statement.hasParams = false

/-- The walk `v` has come to the initializer of a field `name`, whose statement
    was `s₀` before its type. -/
structure Walk.AtInitializer (v : Walk) (s₀ : Statement) (type name : String) :
    Prop where
  span : v.span = .code
  annotation : v.annotation = .absent
  inType : v.inType = true
  constants : v.awaitsConstants = false
  params : s₀.hasParams = false
  statement : s₀.Initialises type name v.statement

/-- The reader and the walk after a type, a name and an equals sign. -/
theorem AtField.read_declarator {p x : List Char} {g g' : Char} (hp : AtField p)
    (hg : isGap g = true) (hg' : isGap g' = true) {type : Word []}
    {name : Name []}
    (hx : Laid false [type.lexeme, name.lexeme, .word "="] (g :: x)) :
    ∃ (r : Reader) (ts : List Token), r.Level 1 ∧ r.gather.word = []
      ∧ (∀ cs, Reader.read [] {} (p ++ g :: (x ++ g' :: cs))
          = prepend ts (r.read [] cs))
      ∧ (Walk.steps {} (Token.lineNumber 1 :: ts)).AtInitializer
          (walkUpTo [] p).statement type.text name.text := by
  obtain ⟨r1, hspells⟩ := hx.spells [] (d := 1) (by decide)
    (by simp [Word.lexeme, Name.lexeme]) (t := []) (by simp) hp.level fun _ => hp.word
  obtain ⟨ts1, hread1, hbare1⟩ := hspells.tokens
  rw [Reader.pending_of_nil hp.word, List.nil_append] at hbare1
  obtain ⟨r2, ts2, hlevel2, hword2, hbare2, hread2⟩ :=
    hspells.level.read_gap [] hg'
  have hhead : Reader.read [] {} (p ++ g :: x)
      = (r1, (Reader.read [] {} p).2 ++ ts1) := by
    rw [Reader.read_append [] {} p (g :: x) (inert_gap hg x)
      (.inr (.inr (by rw [hp.level.mode]; rfl)))]
    rw [List.append_nil, Reader.read_nil] at hread1
    rw [hread1, prepend, prepend, List.append_nil]
  refine ⟨r2, (Reader.read [] {} p).2 ++ ts1 ++ ts2, hlevel2, hword2, ?_, ?_⟩
  · intro cs
    have happend := Reader.read_append [] {} (p ++ g :: x) (g' :: cs)
      (inert_gap hg' cs) (.inr (.inr (by rw [hhead, hspells.level.mode]; rfl)))
    rw [hhead, hread2, prepend_prepend] at happend
    simpa using happend
  · have hbare : bareTokens (ts1 ++ ts2)
        = ([type.text, name.text, "="].map Lexeme.word).map (Lexeme.token []) := by
      rw [bareTokens_append, hbare2, hbare1]
      rfl
    let w : Walk := { walkUpTo [] p with annotation := .absent }
    let x₀ := w.standing
    have hstart : w.StandsAt x₀ :=
      ⟨rfl, rfl, rfl, rfl, (walkUpTo [] p).span_of_readsCode hp.readsCode, rfl⟩
    have htakes : Takes x₀
        (([type.text, name.text, "="].map Lexeme.word).map (Lexeme.token []))
        { x₀ with
          statement := x₀.statement.addWords [type.text, name.text, "="] } := by
      apply takes_texts
      · simp only [List.forall_mem_cons]
        exact ⟨.word type.form, .word name.word.form, .equals, by simp⟩
      · simp only [List.forall_mem_cons]
        exact ⟨type.plain, name.plain, rfl, by simp⟩
    have hsteps : Walk.steps {} (Token.lineNumber 1
        :: ((Reader.read [] {} p).2 ++ ts1 ++ ts2)) = w.steps (ts1 ++ ts2) := by
      have hplain : PlainText type.text := (WordForm.word type.form).plainText
      have hword : bareTokens (ts1 ++ ts2) = ⟨.symbol, type.text, 0⟩
          :: ([name.text, "="].map Lexeme.word).map (Lexeme.token []) := by
        rw [hbare, List.map_cons, List.map_cons, token_word type.plain]
      rw [List.append_assoc, ← List.cons_append, Walk.steps_append]
      exact Walk.steps_absent hplain hp.readsCode hword
    have hend := htakes w (ts1 ++ ts2) hstart hbare
    rw [hsteps]
    refine ⟨hend.span, hend.annotation, ?_, ?_, hp.params, ?_⟩
    · rw [hend.inType]
      exact hp.inType
    · rw [hend.awaitsConstants]
      exact hp.constants
    · rw [hend.statement]
      exact .start hp.words

/-- The lines of a literal do not show, apart from being words. -/
structure Harmless (lit : List Char) : Prop where
  middle : ∀ l ∈ (lines lit).tail.dropLast, isLoaded (String.ofList l) = false
  last : ∀ l ∈ (lines lit).tail.getLast?, l.head? ≠ some '@'

theorem Source.length_lines (s : List Char) :
    (lines s).length = s.count '\n' + 1 := by
  induction s with
  | nil => rfl
  | cons c s ih =>
      by_cases hc : c = '\n'
      · rw [hc, lines_newline, List.length_cons, ih, List.count_cons_self]
      · obtain ⟨l, ls, hl⟩ := exists_lines s
        rw [lines_cons hc hl, List.count_cons_of_ne hc, ← ih, hl]
        rfl

/-- A character before a text leaves a quote on its last line. -/
theorem quote_mem_last_cons {s : List Char}
    (h : ∀ l ∈ (lines s).getLast?, '"' ∈ l) (c : Char) :
    ∀ l ∈ (lines (c :: s)).getLast?, '"' ∈ l := by
  obtain ⟨k, ks, hk⟩ := exists_lines s
  rw [hk] at h
  intro l hl
  by_cases hc : c = '\n'
  · rw [hc, lines_newline, hk, List.getLast?_cons_cons] at hl
    exact h l hl
  · rw [lines_cons hc hk] at hl
    cases ks with
    | nil =>
        cases hl
        exact List.mem_cons_of_mem c (h k rfl)
    | cons x ks =>
        rw [List.getLast?_cons_cons] at hl
        exact h l (by rwa [List.getLast?_cons_cons])

/-- A text block ends on a line with a quote. -/
theorem ClosesBlock.quote_mem_last {s : List Char} (h : ClosesBlock s) :
    ∀ l ∈ (lines s).getLast?, '"' ∈ l := by
  induction h with
  | mark =>
      intro l hl
      cases hl
      exact List.mem_cons_self
  | char _ _ _ ih => exact quote_mem_last_cons ih _
  | escape _ ih => exact quote_mem_last_cons (quote_mem_last_cons ih _) _

namespace Literal

variable {kind : LiteralKind} {lit l : List Char} {ls : List (List Char)}

theorem lines_of_ne (h : Literal kind lit) (hk : kind ≠ .textBlock) :
    lines lit = [lit] := by
  apply lines_of_not_mem
  cases h with
  | string hs => simp [hs.not_mem_newline]
  | character hs => simp [hs.not_mem_newline]
  | textBlock => exact absurd rfl hk

/-- Only text blocks have more than one line. -/
theorem harmless (h : Literal kind lit) (hk : kind ≠ .textBlock) :
    Harmless lit := by
  constructor <;>
  · rw [h.lines_of_ne hk]
    simp

theorem quotedLine_first (h : Literal kind lit) (hl : lines lit = l :: ls) :
    QuotedLine l := by
  have hquote : ∃ q s, lit = q :: s ∧ (q = '"' ∨ q = '\'') := by
    cases h with
    | string hs => exact ⟨_, _, rfl, .inl rfl⟩
    | character hs => exact ⟨_, _, rfl, .inr rfl⟩
    | textBlock hs => exact ⟨_, _, rfl, .inl rfl⟩
  obtain ⟨q, s, rfl, hq⟩ := hquote
  obtain ⟨k, ks, hk⟩ := exists_lines s
  have hne : q ≠ '\n' := by rcases hq with rfl | rfl <;> decide
  rw [lines_cons hne hk] at hl
  obtain ⟨rfl, -⟩ := List.cons.inj hl
  rcases hq with rfl | rfl
  · exact ⟨.inl List.mem_cons_self, by simp⟩
  · exact ⟨.inr List.mem_cons_self, by simp⟩

theorem quotedLine_last (h : Literal kind lit) (hh : Harmless lit)
    (hl : lines lit = l :: ls) : ∀ x ∈ ls.getLast?, QuotedLine x := by
  intro x hx
  refine ⟨.inl ?_, hh.last x (by rw [hl]; exact hx)⟩
  have hlast : x ∈ (lines lit).getLast? := by
    rw [hl]
    cases ls with
    | nil => exact nomatch hx
    | cons y ys => rwa [List.getLast?_cons_cons]
  by_cases hk : kind = .textBlock
  · subst hk
    cases h with
    | textBlock hs =>
        exact quote_mem_last_cons (quote_mem_last_cons
          (quote_mem_last_cons hs.quote_mem_last _) _) _ x hlast
  · rw [h.lines_of_ne hk] at hl
    obtain ⟨-, rfl⟩ := List.cons.inj hl
    exact nomatch hx

end Literal

/-- **Two literals with as many lines lead to the same walk**, once the field is
    complete. -/
theorem Walk.AtInitializer.steps_literal {v : Walk} {s₀ : Statement}
    {type name : String} (h : v.AtInitializer s₀ type name) (ht : Unsplit type)
    (hn : Unsplit name) {kind : LiteralKind} {lit lit' l l' : List Char}
    {ls ls' : List (List Char)} (hlit : Literal kind lit)
    (hlit' : Literal kind lit') (hh : Harmless lit) (hh' : Harmless lit')
    (hl : lines lit = l :: ls) (hl' : lines lit' = l' :: ls')
    (hlen : ls.length = ls'.length) {k : Nat}
    (hfit : k + ls.length < 10 ^ maxDigits) (j : Int) :
    v.steps (lineWords [] k l ls ++ [⟨.statementEnd, ";", j⟩])
      = v.steps (lineWords [] k l' ls' ++ [⟨.statementEnd, ";", j⟩]) := by
  have hmid : ∀ {lit l : List Char} {ls : List (List Char)}, Harmless lit →
      lines lit = l :: ls → ∀ x ∈ ls.dropLast, isLoaded (String.ofList x) = false := by
    intro lit l ls hh hl x hx
    exact hh.middle x (by rw [hl]; exact hx)
  obtain ⟨s, hsteps, hs⟩ := steps_lineWords h.span h.annotation h.statement ht hn
    (hlit.quotedLine_first hl) (hmid hh hl) (hlit.quotedLine_last hh hl) hfit
  obtain ⟨s', hsteps', hs'⟩ := steps_lineWords h.span h.annotation h.statement ht hn
    (hlit'.quotedLine_first hl') (hmid hh' hl') (hlit'.quotedLine_last hh' hl')
    (by rwa [← hlen])
  have hend : ∀ {s : Statement} {n : Int}, s₀.Initialises type name s →
      (v.later n .code .absent s).steps [⟨.statementEnd, ";", j⟩] = _ :=
    fun hs => later_semicolon ht hn hs h.inType h.constants h.params
  rw [steps_append, steps_append, hsteps, hsteps', hlen, hend hs, hend hs',
    fieldDraft_congr ht hn hs hs']

/-- **The contents of a literal do not matter.**  Let `p` end in the body of its
    type where a field may start, let a type, a name and an equals sign follow it
    in any layout, and then a closed literal, a semicolon and any text `q`.  If the
    literal is replaced by another one of its kind with as many line ends, the
    outline stays the same but for the texts of lines.  The lines of a text block
    must be harmless for this: none of those between its first and its last line
    is a keyword that counts or the opener of a block comment, and its last line
    does not start like an annotation. -/
theorem outline_literal_contents {p x q lit lit' : List Char} {g g' : Char}
    {type : Word []} {name : Name []} {kind : LiteralKind} (hp : AtField p)
    (hg : isGap g = true) (hg' : isGap g' = true)
    (hx : Laid false [type.lexeme, name.lexeme, .word "="] (g :: x))
    (hlit : Literal kind lit) (hlit' : Literal kind lit')
    (hlines : lit.count '\n' = lit'.count '\n')
    (hh : kind = .textBlock → Harmless lit ∧ Harmless lit')
    (hfit : LinesFit (String.ofList (p ++ g :: (x ++ g' :: (lit ++ ';' :: q))))) :
    ∃ d e,
      (outline (String.ofList (p ++ g :: (x ++ g' :: (lit ++ ';' :: q)))) {}).value
        = .ok d
      ∧ (outline (String.ofList (p ++ g :: (x ++ g' :: (lit' ++ ';' :: q)))) {}).value
        = .ok e
      ∧ d.unsigned = e.unsigned := by
  obtain ⟨r, ts, hlevel, hword, hread, hwalk⟩ := hp.read_declarator hg hg' hx
  obtain ⟨l, ls, hl⟩ := exists_lines lit
  obtain ⟨l', ls', hl'⟩ := exists_lines lit'
  have hharmless : Harmless lit ∧ Harmless lit' := by
    by_cases hk : kind = .textBlock
    · exact hh hk
    · exact ⟨hlit.harmless hk, hlit'.harmless hk⟩
  have hlen : ls.length = lit.count '\n' ∧ ls'.length = lit.count '\n' := by
    have h := length_lines lit
    have h' := length_lines lit'
    rw [hl, List.length_cons] at h
    rw [hl', List.length_cons] at h'
    omega
  have hfit' : LinesFit (String.ofList (p ++ g :: (x ++ g' :: (lit' ++ ';' :: q)))) := by
    rw [LinesFit, lineCount, String.toList_ofList] at hfit ⊢
    simp only [List.count_append, List.count_cons] at hfit ⊢
    omega
  have hnumber : r.line + ls.length < 10 ^ maxDigits := by
    have hline := Reader.read_line [] {} (p ++ g :: (x ++ g' :: (lit ++ ';' :: q)))
    rw [hread, prepend_fst, Reader.read_line, List.count_append] at hline
    rw [LinesFit, lineCount, String.toList_ofList] at hfit
    have hstart : ({} : Reader).line = 1 := rfl
    omega
  -- the walk over either source, from the literal on
  have hsteps : ∀ {lit l : List Char} {ls : List (List Char)}, Literal kind lit →
      lines lit = l :: ls →
      Walk.steps {} (tokenize
          (String.ofList (p ++ g :: (x ++ g' :: (lit ++ ';' :: q)))) [])
        = ((Walk.steps {} (Token.lineNumber 1 :: ts)).steps
            (lineWords [] r.line l ls
              ++ [⟨.statementEnd, ";", r.line + ls.length⟩])).steps
          (spoken (Reader.tokens []
            { line := r.line + ls.length, gather := { depth := 1 } } q)) := by
    intro lit l ls hlit hl
    rw [tokenize_eq_read, String.toList_ofList, Reader.tokens_of_read (hread _),
      ← List.cons_append, Walk.steps_append,
      Walk.steps_spoken _ (Reader.tokens [] r _),
      Reader.spoken_tokens_literal hlit hlevel (by decide) hword hl, List.append_cons,
      Walk.steps_append]
  obtain ⟨d, hd, hdwalk⟩ := outline_unsigned {} hfit
  obtain ⟨e, he, hewalk⟩ := outline_unsigned {} hfit'
  refine ⟨d, e, hd, he, ?_⟩
  have hsame := hwalk.steps_literal type.unsplit name.word.unsplit hlit hlit'
    hharmless.1 hharmless.2 hl hl' (hlen.1.trans hlen.2.symm) hnumber
    (r.line + ls.length)
  rw [hdwalk, hewalk, hsteps hlit hl, hsteps hlit' hl', hsame, hlen.1, hlen.2]

/-- A semicolon, a brace and an open string in a text block are the same as a
    plain word; a line that opens a comment is not, it takes the field away. -/
theorem outline_literal_contents_textBlock :
    (∃ d e,
      (outline "class A \x7b String s = \"\"\"\n;\x7d \"\n\"\"\"; int y; \x7d" {}).value
        = .ok d
      ∧ (outline "class A \x7b String s = \"\"\"\nab\n\"\"\"; int y; \x7d" {}).value
        = .ok e
      ∧ d.unsigned = e.unsigned)
    ∧ ((outline "class A \x7b String s = \"\"\"\nab\n\"\"\"; int y; \x7d" {}).value.toOption.map
        fun d => d.fields.map Field.name) = some ["s", "y"]
    ∧ ((outline "class A \x7b String s = \"\"\"\n/*\n\"\"\"; int y; \x7d" {}).value.toOption.map
        fun d => d.fields.map Field.name) = some [] := by
  refine ⟨?_, by decide +kernel, by decide +kernel⟩
  have hp : AtField ['c', 'l', 'a', 's', 's', ' ', 'A', ' ', '\x7b'] :=
    ⟨⟨by decide +kernel, by decide +kernel, by decide +kernel⟩, by decide +kernel,
      by decide +kernel, by decide +kernel, by decide +kernel, by decide +kernel,
      by decide +kernel⟩
  have hx : Laid false [Word.lexeme (⟨"String", by decide, by decide⟩ : Word []),
      Name.lexeme (⟨"s", by decide, by decide⟩ : Name []), .word "="]
      [' ', 'S', 't', 'r', 'i', 'n', 'g', ' ', 's', ' ', '='] :=
    .gap rfl (.word (w := ['S', 't', 'r', 'i', 'n', 'g']) (.word (by decide))
      (.gap rfl (.word (w := ['s']) (.word (by decide))
        (.gap rfl (.word (w := ['=']) .equals .nil)))))
  have hlit : ClosesBlock ['\n', ';', '}', ' ', '"', '\n', '"', '"', '"'] :=
    .char (by decide) (by decide) (.char (by decide) (by decide)
      (.char (by decide) (by decide) (.char (by decide) (by decide)
        (.char (by decide) (by decide) (.char (by decide) (by decide) .mark)))))
  have hlit' : ClosesBlock ['\n', 'a', 'b', '\n', '"', '"', '"'] :=
    .char (by decide) (by decide) (.char (by decide) (by decide)
      (.char (by decide) (by decide) (.char (by decide) (by decide) .mark)))
  have hgap : isGap ' ' = true := rfl
  obtain ⟨d, e, hd, he, hsame⟩ := outline_literal_contents
    (q := [' ', 'i', 'n', 't', ' ', 'y', ';', ' ', '\x7d']) hp hgap hgap hx
    (.textBlock hlit) (.textBlock hlit') rfl
    (fun _ => ⟨⟨by decide, by decide⟩, by decide, by decide⟩)
    (linesFit_ofList (by decide))
  exact ⟨d, e, hd, he, hsame⟩

end JavaOutline
