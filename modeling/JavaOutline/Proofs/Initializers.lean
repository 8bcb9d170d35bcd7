import JavaOutline.Proofs.DocEffect
import JavaOutline.Proofs.InStatement
import JavaOutline.Proofs.LiteralContents

/-! # Initializers of fields

    Whatever comes between the equals sign of a field and its semicolon, the type
    and the name are those before the equals sign.

    1. `Statement.Initialising` is the invariant of the statement from the equals
       sign on.  It says what `Statement.Initialises` says, but leaves the flags
       open, which tokens of the initializer can set.
    2. Every token keeps it, with more leading keywords where the token is one
       (`Initialising.take`).
    3. At the semicolon the statement is passed over if it is executable or declares
       a type, and is a field otherwise (`Walk.run_field`). -/

namespace JavaOutline

open Text

/-! ## Tokens of a field -/

/-- A keyword that belongs to executable statements. -/
def Token.isExecutable (t : Token) : Bool :=
  t.kind == .keyword && Keyword.isStatementWord t.text

/-- A keyword that begins a type. -/
def Token.beginsType (t : Token) : Bool :=
  t.kind == .keyword && Keyword.isTypeWord t.text

/-- A keyword that says who may use a declaration, or modifies it. -/
def Token.leads (t : Token) : Bool :=
  t.kind == .keyword
    && (Keyword.accessWords.contains t.text || Keyword.modifierWords.contains t.text)

/-- A token that can stand in an initializer. -/
structure Token.InInitializer (t : Token) : Prop where
  kind : t.isWord = true ∨ t.kind = .join ∨ t.kind = .paramStart ∨ t.kind = .paramEnd
  mark : t.kind = .symbol → t.text ∉ commentMarks
  notAt : t.isWord = true → startsWith '@' t.text = false

/-- A word that can be the type or the name of a field. -/
structure FieldWord (t : Token) : Prop where
  symbol : t.kind = .symbol
  unsplit : Unsplit t.text
  plain : holds '=' t.text = false
  mark : t.text ∉ commentMarks
  notAt : startsWith '@' t.text = false

/-- The tokens of a field up to the equals sign. -/
structure FieldHead where
  keywords : List Token
  type : Token
  name : Token
  equals : Token
  leading : ∀ t ∈ keywords, t.leads = true
  typeWord : FieldWord type
  nameWord : FieldWord name
  equalsKind : equals.kind = .symbol
  equalsText : equals.text = "="

def FieldHead.tokens (h : FieldHead) : List Token :=
  h.keywords ++ [h.type, h.name, h.equals]

/-! ## The statement from the equals sign on -/

namespace Statement

variable {s₀ s : Statement} {type name : String} {t : Token}

/-- What a token of an initializer can do to a statement. -/
inductive TakesToken (s : Statement) (t : Token) : Statement → Prop where
  | type (nested : t.beginsType = true) (executable : t.isExecutable = false) :
      TakesToken s t { s.flush with isNested := true }
  | executable (nested : t.beginsType = false) (executable : t.isExecutable = true) :
      TakesToken s t { s.flush with isExecutable := true }
  /-- A keyword that would stand before the type of a field. -/
  | lead (p : Part) (nested : t.beginsType = false) (executable : t.isExecutable = false)
      (leads : t.leads = true) (kind : p.kind = .access ∨ p.kind = .modifier) :
      TakesToken s t (s.flush.add p)
  /-- A keyword that says nothing about a field. -/
  | silent (p : Part) (nested : t.beginsType = false)
      (executable : t.isExecutable = false)
      (silent : ∀ r : FieldReading, (r.step p).value = r) :
      TakesToken s t (s.flush.add p)
  | flush (nested : t.beginsType = false) (executable : t.isExecutable = false) :
      TakesToken s t s.flush
  | word (nested : t.beginsType = false) (executable : t.isExecutable = false) :
      TakesToken s t (s.addWord t.text)
  | opens (nested : t.beginsType = false) (executable : t.isExecutable = false) :
      TakesToken s t { s.flush with hasParams := s.hasParams || !s.hasInitializer }
  /-- A lone word before a closing parenthesis is put aside. -/
  | closes (word : String) (nested : t.beginsType = false)
      (executable : t.isExecutable = false) (lone : s.words = [word]) :
      TakesToken s t { s with pendingName := word, words := [] }

/-- The keywords of executable statements have no other role. -/
theorem isExecutable_eq_false (h : Keyword.isTypeWord t.text = true
      ∨ Keyword.isStructural t.text = true) : t.isExecutable = false := by
  have hrole := h.imp_right fun hstructural =>
    Or.inl (b := startsWith '@' t.text = true) hstructural
  rw [Token.isExecutable, Keyword.isStatementWord_eq_false hrole, Bool.and_false]

theorem takesToken_structural (s : Statement) (hk : t.kind = .keyword)
    (htype : Keyword.isTypeWord t.text = false)
    (hstructural : Keyword.isStructural t.text = true) :
    s.TakesToken t ((Part.ofKeyword? t.text).elim s.flush s.flush.add) := by
  have hnested : t.beginsType = false := by
    rw [Token.beginsType, htype, Bool.and_false]
  have hexecutable := isExecutable_eq_false (.inr hstructural)
  have hleads : Keyword.accessWords.contains t.text = true
      ∨ Keyword.modifierWords.contains t.text = true → t.leads = true := by
    intro h
    rw [Token.leads, hk, Bool.and_eq_true, Bool.or_eq_true]
    exact ⟨rfl, h⟩
  rw [Keyword.isTypeWord] at htype
  rw [Part.ofKeyword?, htype, if_neg Bool.false_ne_true]
  split
  · next haccess =>
      exact .lead ⟨.access, t.text⟩ hnested hexecutable (hleads (.inl haccess))
        (.inl rfl)
  · split
    · next hmodifier =>
        exact .lead ⟨.modifier, t.text⟩ hnested hexecutable (hleads (.inr hmodifier))
          (.inr rfl)
    · cases hm : Part.marker? t.text with
      | none => exact .flush hnested hexecutable
      | some kind =>
          exact .silent ⟨kind, ""⟩ hnested hexecutable (FieldReading.step_marker hm)

/-- **What one token of an initializer does to the statement.** -/
theorem takesToken (s : Statement) (ht : t.InInitializer) : s.TakesToken t (s.take t) := by
  have hmarker : t.isWord = false → t.beginsType = false ∧ t.isExecutable = false := by
    intro hword
    rw [Token.isWord, Bool.or_eq_false_iff] at hword
    rw [Token.beginsType, Token.isExecutable, hword.1, Bool.false_and, Bool.false_and]
    exact ⟨rfl, rfl⟩
  rw [take]
  cases hk : t.kind with
  | keyword =>
      have hword : t.isWord = true := by
        rw [Token.isWord, hk]
        rfl
      dsimp only
      split
      · next htype =>
          refine .type ?_ (isExecutable_eq_false (.inl htype))
          rw [Token.beginsType, hk, htype]
          rfl
      · next htype =>
          have htype' := Bool.eq_false_iff.mpr htype
          have hnested : t.beginsType = false := by
            rw [Token.beginsType, htype', Bool.and_false]
          split
          · next hstructural => exact s.takesToken_structural hk htype' hstructural
          · rw [ht.notAt hword, if_neg Bool.false_ne_true]
            split
            · next hstatement =>
                refine .executable hnested ?_
                rw [Token.isExecutable, hk, hstatement]
                rfl
            · next hstatement =>
                refine .flush hnested ?_
                rw [Token.isExecutable, Bool.eq_false_iff.mpr hstatement, Bool.and_false]
  | symbol =>
      have hword : t.isWord = true := by
        rw [Token.isWord, hk]
        rfl
      have hplain : t.beginsType = false ∧ t.isExecutable = false := by
        rw [Token.beginsType, Token.isExecutable, hk]
        exact ⟨rfl, rfl⟩
      rw [ht.notAt hword]
      exact .word hplain.1 hplain.2
  | join =>
      obtain ⟨hnested, hexecutable⟩ := hmarker (by rw [Token.isWord, hk]; rfl)
      exact .flush hnested hexecutable
  | paramStart =>
      obtain ⟨hnested, hexecutable⟩ := hmarker (by rw [Token.isWord, hk]; rfl)
      exact .opens hnested hexecutable
  | paramEnd =>
      obtain ⟨hnested, hexecutable⟩ := hmarker (by rw [Token.isWord, hk]; rfl)
      dsimp only
      split
      · next word hlone => exact .closes word hnested hexecutable hlone
      · exact .flush hnested hexecutable
  | statementEnd | lineNumber | sign =>
      have hkind := ht.kind
      simp [Token.isWord, hk] at hkind

theorem take_flags (s : Statement) (ht : t.InInitializer) :
    (s.take t).isNested = (s.isNested || t.beginsType)
      ∧ (s.take t).isExecutable = (s.isExecutable || t.isExecutable) := by
  have htaken := s.takesToken ht
  generalize s.take t = s' at htaken ⊢
  cases htaken with
  | type hnested hexecutable | executable hnested hexecutable =>
      rw [hnested, hexecutable, Bool.or_true, Bool.or_false]
      exact ⟨rfl, rfl⟩
  | lead _ hnested hexecutable | silent _ hnested hexecutable
  | closes _ hnested hexecutable | flush hnested hexecutable
  | word hnested hexecutable | opens hnested hexecutable =>
      rw [hnested, hexecutable, Bool.or_false, Bool.or_false]
      exact ⟨rfl, rfl⟩

theorem foldl_take_flags (s : Statement) {ts : List Token}
    (hts : ∀ t ∈ ts, t.InInitializer) :
    (ts.foldl take s).isNested = (s.isNested || ts.any Token.beginsType)
      ∧ (ts.foldl take s).isExecutable = (s.isExecutable || ts.any Token.isExecutable) := by
  induction ts generalizing s with
  | nil => simp
  | cons t ts ih =>
      obtain ⟨hnested, hexecutable⟩ := s.take_flags (hts t (by simp))
      obtain ⟨hnested', hexecutable'⟩ := ih (s.take t) fun u hu => hts u (by simp [hu])
      rw [List.foldl_cons, hnested', hexecutable', hnested, hexecutable, List.any_cons,
        List.any_cons, Bool.or_assoc, Bool.or_assoc]
      exact ⟨rfl, rfl⟩

/-- The statement `s` is `s₀` with a type, a name, an equals sign and an initializer
    so far, which may have set some flags. -/
structure Initialising (s₀ : Statement) (type name : String) (s : Statement) : Prop where
  reads : s₀.Initialises type name
    { s₀ with parts := s.parts, words := s.words, hasInitializer := true }
  initializer : s.hasInitializer = true
  params : s.hasParams = s₀.hasParams

/-- A leading keyword counts as if it had come before the type. -/
theorem Initialising.lead (h : s₀.Initialising type name s) (ht : Unsplit type)
    (hn : Unsplit name) {p : Part} (hp : p.kind = .access ∨ p.kind = .modifier) :
    (s₀.extend [p]).Initialising type name (s.flush.add p) := by
  refine ⟨⟨rfl, .inr ?_⟩, h.initializer, h.params⟩
  obtain ⟨us, hread⟩ := h.reads.reading ht hn
  refine ⟨us, ?_⟩
  have hread' : fieldReading s.flush.parts = _ := hread
  show fieldReading (s.flush.parts ++ [p]) = _
  rw [extend, fieldReading_append, fieldReading_append, hread']
  obtain ⟨kind, text⟩ := p
  obtain rfl | rfl : kind = .access ∨ kind = .modifier := hp
  · rfl
  · rfl

/-- Every token keeps the invariant; a leading keyword is as good as one before the
    type. -/
theorem Initialising.take (h : s₀.Initialising type name s) (ht : Unsplit type)
    (hn : Unsplit name) (hI : t.InInitializer) :
    ∃ ps, (s₀.extend ps).Initialising type name (s.take t)
      ∧ (∀ p ∈ ps, p.kind = .access ∨ p.kind = .modifier)
      ∧ (t.leads = false → ps = []) := by
  have hflush : s₀.Initialises type name
      { s₀ with parts := s.flush.parts, words := [], hasInitializer := true } :=
    h.reads.flush ht hn
  have hsame : ∀ {s' : Statement}, s₀.Initialising type name s' →
      ∃ ps, (s₀.extend ps).Initialising type name s'
        ∧ (∀ p ∈ ps, p.kind = .access ∨ p.kind = .modifier)
        ∧ (t.leads = false → ps = []) := by
    intro s' h'
    refine ⟨[], ?_, by simp, fun _ => rfl⟩
    rw [extend_nil]
    exact h'
  have htaken := s.takesToken hI
  generalize s.take t = s' at htaken ⊢
  cases htaken with
  | type | executable | flush => exact hsame ⟨hflush, h.initializer, h.params⟩
  | opens =>
      refine hsame ⟨hflush, h.initializer, ?_⟩
      show (s.hasParams || !s.hasInitializer) = _
      rw [h.initializer, Bool.not_true, Bool.or_false, h.params]
  | silent p _ _ hp => exact hsame ⟨h.reads.add ht hn hp, h.initializer, h.params⟩
  | word =>
      refine hsame ⟨h.reads.addWord t.text, ?_, h.params⟩
      show (s.hasInitializer || holds '=' t.text) = true
      rw [h.initializer, Bool.true_or]
  | lead p _ _ hleads hp =>
      refine ⟨[p], h.lead ht hn hp, by simpa using hp, fun hno => ?_⟩
      exact nomatch hno.symm.trans hleads
  | closes word _ _ hlone =>
      -- a lone word is no part of the declarator, which has three words at least
      refine hsame ⟨⟨rfl, .inr ?_⟩, h.initializer, h.params⟩
      rcases h.reads.gathered with ⟨-, us, hwords⟩ | hread
      · exact nomatch hlone.symm.trans hwords
      · exact hread

theorem Initialising.foldl_take {ts : List Token} (ht : Unsplit type)
    (hn : Unsplit name) (hts : ∀ t ∈ ts, t.InInitializer) :
    ∀ {s₀ s : Statement}, s₀.Initialising type name s →
      ∃ ps, (s₀.extend ps).Initialising type name (ts.foldl Statement.take s)
        ∧ (∀ p ∈ ps, p.kind = .access ∨ p.kind = .modifier)
        ∧ ((∀ t ∈ ts, t.leads = false) → ps = []) := by
  induction ts with
  | nil =>
      intro s₀ s h
      exact ⟨[], by rwa [extend_nil], by simp, fun _ => rfl⟩
  | cons t ts ih =>
      intro s₀ s h
      obtain ⟨ps, hstep, hps, hnone⟩ := h.take ht hn (hts t (by simp))
      obtain ⟨qs, hrest, hqs, hnone'⟩ := ih (fun u hu => hts u (by simp [hu])) hstep
      rw [extend_extend] at hrest
      refine ⟨ps ++ qs, hrest, ?_, ?_⟩
      · intro p hp
        exact (List.mem_append.mp hp).elim (hps p) (hqs p)
      · intro hleads
        rw [hnone (hleads t (by simp)), hnone' fun u hu => hleads u (by simp [hu])]
        rfl

/-- The start of an initializer. -/
theorem Initialises.initialising (h : s₀.Initialises type name s) :
    s₀.Initialising type name s := by
  refine ⟨?_, ?_, ?_⟩
  · rw [← h.rest]
    exact h
  · rw [h.rest]
  · rw [h.rest]

/-! ## What the statement declares -/

/-- Leading keywords are no words of the declarator. -/
theorem words_fieldReading_append (ps : List Part) {qs : List Part}
    (h : ∀ p ∈ qs, p.kind = .access ∨ p.kind = .modifier) :
    (fieldReading (ps ++ qs)).words = (fieldReading ps).words := by
  induction qs generalizing ps with
  | nil => rw [List.append_nil]
  | cons p qs ih =>
      have hstep : (fieldReading (ps ++ [p])).words = (fieldReading ps).words := by
        have hp := h p (by simp)
        rw [fieldReading_append]
        obtain ⟨kind, text⟩ := p
        obtain rfl | rfl : kind = .access ∨ kind = .modifier := hp
        · rfl
        · rfl
      rw [List.append_cons, ih _ fun q hq => h q (by simp [hq]), hstep]

/-- The field that the words before the equals sign declare. -/
theorem Initialises.field (h : s₀.Initialises type name s) (ht : Unsplit type)
    (hn : Unsplit name) (htype : holds '=' type = false)
    (hname : holds '=' name = false) (hwords : (fieldReading s₀.parts).words = [])
    (line : Int) (signature : String) :
    (Field.ofParts? s.flush.parts line signature).value
      = some { type, name, line, signature,
               access := (fieldReading s₀.parts).access
               modifiers := (fieldReading s₀.parts).modifiers } := by
  obtain ⟨us, hread⟩ := h.reading ht hn
  rw [fieldReading] at hread
  rw [hwords, List.nil_append] at hread
  have hdeclarator : declaratorWords (type :: name :: "=" :: us) = [type, name] := by
    rw [declaratorWords, htype, declaratorWords, hname, declaratorWords]
    rfl
  rw [Field.ofParts?, Logged.value_bind, hread, hdeclarator]
  rfl

/-! ## The statement up to the equals sign -/

theorem take_standsFor (s : Statement) {p : Part} (hk : t.kind = .keyword)
    (h : StandsFor t.text p) : s.take t = s.flush.add p := by
  rw [take, hk]
  dsimp only
  rw [h.notType, if_neg Bool.false_ne_true, if_pos h.structural, h.part]
  rfl

theorem take_fieldWord (s : Statement) (h : FieldWord t) :
    s.take t = s.addWord t.text := by
  rw [take, h.symbol]
  dsimp only
  rw [h.notAt, if_neg Bool.false_ne_true]

end Statement

/-- The part that a leading keyword stands for. -/
theorem Token.standsFor_of_leads {t : Token} (h : t.leads = true) :
    t.kind = .keyword ∧ ∃ p, StandsFor t.text p
      ∧ (p.kind = .access ∨ p.kind = .modifier) := by
  rw [Token.leads, Bool.and_eq_true, Bool.or_eq_true, beq_iff_eq] at h
  refine ⟨h.1, ?_⟩
  rcases h.2 with haccess | hmodifier
  · exact ⟨_, standsFor_access (List.contains_iff_mem.mp haccess), .inl rfl⟩
  · exact ⟨_, standsFor_modifier (List.contains_iff_mem.mp hmodifier), .inr rfl⟩

namespace FieldHead

/-- The parts of the leading keywords. -/
def parts (h : FieldHead) : List Part :=
  h.keywords.filterMap fun t => Part.ofKeyword? t.text

theorem kind_of_mem_parts (h : FieldHead) :
    ∀ p ∈ h.parts, p.kind = .access ∨ p.kind = .modifier := by
  intro p hp
  obtain ⟨t, ht, hpart⟩ := List.mem_filterMap.mp hp
  obtain ⟨-, q, hstands, hkind⟩ := Token.standsFor_of_leads (h.leading t ht)
  obtain rfl : q = p := Option.some.inj (hstands.part.symm.trans hpart)
  exact hkind

theorem foldl_take_leading {ks : List Token} (hks : ∀ t ∈ ks, t.leads = true)
    (s : Statement) (hs : s.words = []) :
    ks.foldl Statement.take s
      = s.extend (ks.filterMap fun t => Part.ofKeyword? t.text) := by
  induction ks generalizing s with
  | nil => exact s.extend_nil.symm
  | cons t ks ih =>
      obtain ⟨hk, p, hstands, -⟩ := Token.standsFor_of_leads (hks t (by simp))
      have htake : s.take t = s.extend [p] := by
        rw [s.take_standsFor hk hstands, Statement.flush_of_nil hs]
        rfl
      have hparts := List.filterMap_cons_some
        (f := fun t : Token => Part.ofKeyword? t.text) (l := ks) hstands.part
      rw [List.foldl_cons, htake, ih (fun u hu => hks u (by simp [hu])) (s.extend [p]) hs,
        Statement.extend_extend, hparts]
      rfl

/-- The statement at the equals sign. -/
theorem foldl_take_tokens (h : FieldHead) (s : Statement) (hs : s.words = []) :
    h.tokens.foldl Statement.take s
      = (s.extend h.parts).addWords [h.type.text, h.name.text, "="] := by
  have hequals : ∀ s : Statement, s.take h.equals = s.addWord "=" := by
    intro s
    rw [Statement.take, h.equalsKind, h.equalsText]
    rfl
  rw [tokens, List.foldl_append, foldl_take_leading h.leading s hs]
  show (((s.extend h.parts).take h.type).take h.name).take h.equals = _
  rw [Statement.take_fieldWord _ h.typeWord, Statement.take_fieldWord _ h.nameWord, hequals]
  rfl

/-- The tokens up to the equals sign are words that could stand in an initializer
    as well. -/
theorem inInitializer (h : FieldHead) :
    ∀ t ∈ h.tokens, t.isWord = true ∧ t.InInitializer := by
  have hword : ∀ {t : Token}, t.kind = .symbol → t.text ∉ commentMarks →
      startsWith '@' t.text = false → t.isWord = true ∧ t.InInitializer := by
    intro t hk hmark hat
    have hisWord : t.isWord = true := by
      rw [Token.isWord, hk]
      rfl
    exact ⟨hisWord, .inl hisWord, fun _ => hmark, fun _ => hat⟩
  intro t ht
  rw [tokens, List.mem_append] at ht
  rcases ht with ht | ht
  · have hleading : ∀ w ∈ Keyword.accessWords ++ Keyword.modifierWords,
        startsWith '@' w = false := by decide
    have hleads := h.leading t ht
    rw [Token.leads, Bool.and_eq_true, Bool.or_eq_true, beq_iff_eq] at hleads
    obtain ⟨hk, htext⟩ := hleads
    have hisWord : t.isWord = true := by
      rw [Token.isWord, hk]
      rfl
    have hnot : t.kind ≠ .symbol := by
      rw [hk]
      decide
    refine ⟨hisWord, .inl hisWord, fun hsymbol => absurd hsymbol hnot,
      fun _ => hleading t.text (List.mem_append.mpr ?_)⟩
    exact htext.imp List.contains_iff_mem.mp List.contains_iff_mem.mp
  · simp only [List.mem_cons, List.not_mem_nil, or_false] at ht
    rcases ht with rfl | rfl | rfl
    · exact hword h.typeWord.symbol h.typeWord.mark h.typeWord.notAt
    · exact hword h.nameWord.symbol h.nameWord.mark h.nameWord.notAt
    · exact hword h.equalsKind (by rw [h.equalsText]; decide) (by rw [h.equalsText]; rfl)

theorem tokens_ne_nil (h : FieldHead) : h.tokens ≠ [] := by
  rw [tokens]
  exact List.append_ne_nil_of_right_ne_nil _ (by simp)

/-- The statement `s` has taken the tokens up to the equals sign and then `I`.  It
    reads as a field whose leading parts are those of `s₀`: the ones of the tokens,
    and `qs` from the initializer. -/
structure Holds (h : FieldHead) (I : List Token) (qs : List Part)
    (s₀ s : Statement) : Prop where
  reads : s₀.Initialising h.type.text h.name.text s
  parts : s₀.parts = h.parts ++ qs
  params : s₀.hasParams = false
  words : (fieldReading s₀.parts).words = []
  nested : s.isNested = I.any Token.beginsType
  executable : s.isExecutable = I.any Token.isExecutable
  plain : (∀ u ∈ I, u.leads = false) → qs = []

/-- From the start of a statement the tokens lead to such a statement. -/
theorem holds (h : FieldHead) {s : Statement}
    (hs : s = { doc := s.doc, pendingName := s.pendingName }) {I : List Token}
    (hI : ∀ t ∈ I, t.InInitializer) :
    ∃ qs s₀, h.Holds I qs s₀ ((h.tokens ++ I).foldl Statement.take s) := by
  have hwords : s.words = [] := by rw [hs]
  let s₀ := s.extend h.parts
  have hequals : s₀.Initialises h.type.text h.name.text
      (s₀.addWords [h.type.text, h.name.text, "="]) := .start hwords
  obtain ⟨qs, hreads, hqs, hplain⟩ := Statement.Initialising.foldl_take h.typeWord.unsplit
    h.nameWord.unsplit hI hequals.initialising
  obtain ⟨hnested, hexecutable⟩ := Statement.foldl_take_flags
    (s₀.addWords [h.type.text, h.name.text, "="]) hI
  have hflags : (s₀.addWords [h.type.text, h.name.text, "="]).isNested = false
      ∧ (s₀.addWords [h.type.text, h.name.text, "="]).isExecutable = false := by
    rw [Statement.addWords_eq]
    show s.isNested = false ∧ s.isExecutable = false
    rw [hs]
    exact ⟨rfl, rfl⟩
  rw [hflags.1, Bool.false_or] at hnested
  rw [hflags.2, Bool.false_or] at hexecutable
  have hparts : (s₀.extend qs).parts = h.parts ++ qs := by
    show s.parts ++ h.parts ++ qs = _
    rw [hs, List.nil_append]
  rw [List.foldl_append, h.foldl_take_tokens s hwords]
  refine ⟨qs, s₀.extend qs, hreads, hparts, ?_, ?_, hnested, hexecutable, hplain⟩
  · show s.hasParams = false
    rw [hs]
  · -- leading parts are no words of the field
    rw [hparts, ← List.nil_append (h.parts ++ qs),
      Statement.words_fieldReading_append [] fun p hp =>
        (List.mem_append.mp hp).elim (h.kind_of_mem_parts p) (hqs p)]
    rfl

/-- The field that the tokens declare where `w` stands, with the leading keywords
    `qs` from its initializer. -/
def field (h : FieldHead) (w : Walk) (qs : List Part) : Field where
  type := h.type.text
  name := h.name.text
  access := (fieldReading (h.parts ++ qs)).access
  modifiers := (fieldReading (h.parts ++ qs)).modifiers
  line := w.cursor.startLine
  signature := w.cursor.signature

end FieldHead

/-! ## The walk over a field -/

namespace Walk

variable {w : Walk} {t : Token}

/-- The walk stands at the start of a statement in the body of a type. -/
structure StartsField (w : Walk) : Prop where
  code : w.readsCode = true
  inType : w.inType = true
  closed : w.awaitsConstants = false
  empty : w.statement = { doc := w.statement.doc, pendingName := w.statement.pendingName }

theorem refusal?_inInitializer (w : Walk) (ht : t.InInitializer) :
    w.refusal? t = none := by
  rw [refusal?]
  cases hk : t.kind with
  | lineNumber | statementEnd =>
      have hkind := ht.kind
      simp [Token.isWord, hk] at hkind
  | _ => rfl

/-- One token of a field, from the first on. -/
theorem step_inInitializer (hcode : w.readsCode = true) (hin : w.inType = true)
    (ht : t.InInitializer) (hnamed : w.annotation = .named → t.isWord = true) :
    ∃ license start, (w.step t).value
        = w.amid license (w.statement.take t) .absent start
      ∧ start.getD w.cursor.line = w.cursor.startLine := by
  have hkinds : t.kind.isLine = false ∧ t.kind ≠ .statementEnd := by
    rcases ht.kind with h | h | h | h
    · rw [Token.isWord, Bool.or_eq_true, beq_iff_eq, beq_iff_eq] at h
      rcases h with h | h <;> (rw [h]; decide)
    all_goals (rw [h]; decide)
  obtain ⟨license, a, start, hstep, hgathered⟩ := step_amid hcode hin hkinds.1 hkinds.2
    ht.mark fun hname hk => by
      have hword := hnamed hname
      rw [Token.isWord, hk] at hword
      cases hword
  have ha : a = .absent := by
    rcases hgathered.annotation with ha | ⟨ha, hword⟩ | ⟨-, hword, hat⟩
    · exact ha
    · -- outside words the annotation stays, and it is not one that waits
      cases hw : w.annotation with
      | absent => rw [ha, hw]
      | named => cases hword.symm.trans (hnamed hw)
      | arguments d =>
          have hargs := w.not_inArguments_of_readsCode hcode
          rw [inArguments, hw] at hargs
          cases hargs
    · cases (ht.notAt hword).symm.trans hat
  rw [ha] at hstep
  exact ⟨license, start, hstep, hgathered.startLine⟩

/-- The tokens of a field are gathered, and none is refused. -/
theorem run_inInitializer {ts : List Token} (hts : ∀ t ∈ ts, t.InInitializer) :
    ∀ {w : Walk}, w.readsCode = true → w.inType = true → w.annotation = .absent →
      ∃ license start, (w.run ts).value
          = .ok (w.amid license (ts.foldl Statement.take w.statement) .absent start)
        ∧ start.getD w.cursor.line = w.cursor.startLine := by
  induction ts with
  | nil =>
      intro w _ _ ha
      refine ⟨w.draft.license, w.cursor.statementLine, ?_, rfl⟩
      rw [run, ← ha]
      rfl
  | cons t ts ih =>
      intro w hcode hin ha
      have ht := hts t (by simp)
      obtain ⟨license, start, hstep, hstart⟩ := step_inInitializer hcode hin ht
        fun hnamed => by cases ha.symm.trans hnamed
      have hspan := w.span_of_readsCode hcode
      obtain ⟨license', start', hrun, hstart'⟩ := ih (fun u hu => hts u (by simp [hu]))
        (w := w.amid license (w.statement.take t) .absent start)
        ((readsCode_iff _).mpr ⟨hspan, rfl⟩) hin rfl
      refine ⟨license', start', ?_, hstart'.trans hstart⟩
      rw [run_cons (w.refusal?_inInitializer ht), hstep, hrun]
      rfl

/-- A field and its initializer are gathered, even after the name of an
    annotation. -/
theorem run_field_tokens (hcode : w.readsCode = true) (hin : w.inType = true)
    (h : FieldHead) {I : List Token} (hI : ∀ t ∈ I, t.InInitializer) :
    ∃ license start, (w.run (h.tokens ++ I)).value
        = .ok (w.amid license ((h.tokens ++ I).foldl Statement.take w.statement)
            .absent start)
      ∧ start.getD w.cursor.line = w.cursor.startLine := by
  have hall : ∀ t ∈ h.tokens ++ I, t.InInitializer := by
    intro t ht
    exact (List.mem_append.mp ht).elim (fun ht => (h.inInitializer t ht).2) (hI t)
  obtain ⟨t, ts, htokens⟩ := List.exists_cons_of_ne_nil h.tokens_ne_nil
  have hfirst := h.inInitializer t (by rw [htokens]; simp)
  rw [htokens, List.cons_append] at hall ⊢
  obtain ⟨license, start, hstep, hstart⟩ :=
    step_inInitializer hcode hin hfirst.2 fun _ => hfirst.1
  have hspan := w.span_of_readsCode hcode
  obtain ⟨license', start', hrun, hstart'⟩ := run_inInitializer
    (fun u hu => hall u (List.mem_cons_of_mem t hu))
    (w := w.amid license (w.statement.take t) .absent start)
    ((readsCode_iff _).mpr ⟨hspan, rfl⟩) hin rfl
  refine ⟨license', start', ?_, hstart'.trans hstart⟩
  rw [run_cons (w.refusal?_inInitializer hfirst.2), hstep, hrun]
  rfl

theorem step_semicolon (hcode : w.readsCode = true) (hk : t.kind = .statementEnd)
    (htext : t.text = ";") :
    w.refusal? t = none ∧ (w.step t).value = w.flush.endStatement.value.nextStatement := by
  constructor
  · rw [refusal?, hk]
    simp [htext]
  · rw [step_of_not_inArguments (w.not_inArguments_of_readsCode hcode), plainStep, hk]
    show (w.statementEnd t.text t.line).value = _
    rw [statementEnd, if_neg (not_not_intro (w.span_of_readsCode hcode)), htext]
    rfl

/-- The end of a field with an initializer. -/
theorem endStatement_initialising {s₀ : Statement} {type name : String}
    (hs : s₀.Initialising type name w.statement) (ht : Unsplit type) (hn : Unsplit name)
    (htype : holds '=' type = false) (hname : holds '=' name = false)
    (hin : w.inType = true) (hwait : w.awaitsConstants = false)
    (hp : s₀.hasParams = false) (hwords : (fieldReading s₀.parts).words = []) :
    w.flush.endStatement.value.draft
      = if w.statement.isNested || w.statement.isExecutable then w.draft
        else { w.draft with
          fields := w.draft.fields
            ++ [{ type, name
                  access := (fieldReading s₀.parts).access
                  modifiers := (fieldReading s₀.parts).modifiers
                  line := w.cursor.startLine
                  signature := w.cursor.signature }] } := by
  have hfield := hs.reads.field ht hn htype hname hwords w.cursor.startLine
    w.cursor.signature
  rw [endStatement_field (w := w.flush) hin hwait (hs.params.trans hp)
    (hs.reads.parts_ne_nil ht hn)]
  show (if w.statement.isNested || w.statement.isExecutable then _ else _ : Walk).draft = _
  split
  · rfl
  · show ({ w.draft with fields := w.draft.fields
      ++ (Field.ofParts? w.statement.flush.parts w.cursor.startLine
          w.cursor.signature).value.toList } : Draft) = _
    have hparts : (Field.ofParts? w.statement.flush.parts w.cursor.startLine
        w.cursor.signature).value = _ := hfield
    rw [hparts]
    rfl

/-- **What becomes of a field with an initializer.** -/
theorem run_field (hw : w.StartsField) (h : FieldHead) {I : List Token}
    (hI : ∀ t ∈ I, t.InInitializer) (hk : t.kind = .statementEnd)
    (htext : t.text = ";") :
    ∃ qs v, (w.run (h.tokens ++ I ++ [t])).value = .ok v
      ∧ v.draft.methods = w.draft.methods
      ∧ v.draft.fields = w.draft.fields
          ++ (if I.any Token.beginsType || I.any Token.isExecutable then []
              else [h.field w qs])
      ∧ ((∀ u ∈ I, u.leads = false) → qs = []) := by
  obtain ⟨license, start, hrun, hstart⟩ := run_field_tokens hw.code hw.inType h hI
  obtain ⟨qs, s₀, hs⟩ := h.holds hw.empty hI
  generalize (h.tokens ++ I).foldl Statement.take w.statement = s at hrun hs
  -- the walk at the semicolon
  let v := w.amid license s .absent start
  have hcode : v.readsCode = true :=
    (readsCode_iff v).mpr ⟨w.span_of_readsCode hw.code, rfl⟩
  obtain ⟨haccepted, hstep⟩ := step_semicolon hcode hk htext
  have hdraft := endStatement_initialising (w := v) hs.reads h.typeWord.unsplit
    h.nameWord.unsplit h.typeWord.plain h.nameWord.plain hw.inType hw.closed
    hs.params hs.words
  have hstartLine : v.cursor.startLine = w.cursor.startLine := hstart
  have hsignature : v.cursor.signature = w.cursor.signature :=
    congrArg (LineIndex.text w.cursor.lines) hstart
  have hend : (v.step t).value.draft
      = if I.any Token.beginsType || I.any Token.isExecutable then v.draft
        else { v.draft with fields := w.draft.fields ++ [h.field w qs] } := by
    rw [hstep, FieldHead.field, ← hs.parts, ← hstartLine, ← hsignature, ← hs.nested,
      ← hs.executable]
    exact hdraft
  refine ⟨qs, (v.step t).value, ?_, ?_, ?_, hs.plain⟩
  · rw [run_append_ok hrun, run_cons haccepted]
    rfl
  · rw [hend]
    split <;> rfl
  · rw [hend]
    split
    · exact (List.append_nil _).symm
    · rfl

end Walk

/-- A word that is a number. -/
structure Token.IsNumber (t : Token) : Prop where
  symbol : t.kind = .symbol
  digits : ∀ c ∈ t.text.toList, c.isDigit = true

theorem Token.IsNumber.inInitializer {t : Token} (h : t.IsNumber) : t.InInitializer := by
  have hdigit : ∀ c ∈ ['/', '*', '@'], c ∉ t.text.toList := by
    intro c hc hmem
    have hnone : ['/', '*', '@'].any Char.isDigit = false := by decide
    exact List.any_eq_false.mp hnone c hc (h.digits c hmem)
  refine ⟨.inl ?_, fun _ hmark => ?_, fun _ => ?_⟩
  · rw [isWord, h.symbol]
    rfl
  · have hslash : ∀ m ∈ commentMarks, '/' ∈ m.toList := by decide
    exact hdigit '/' (by simp) (hslash t.text hmark)
  · rw [startsWith, beq_eq_false_iff_ne]
    intro hhead
    exact hdigit '@' (by simp) (List.mem_of_head? hhead)

/-- **A FIELD'S INITIALIZER IS DISCARDED.**  Let a statement in the body of a type
    start like a field: leading keywords, a type, a name and an equals sign.  With a
    number after that it is one field, with that type and that name.  With any other
    initializer, up to the semicolon, no method is recorded.  If the initializer has
    a keyword that begins a type or belongs to executable statements, no field is
    recorded either.  Otherwise exactly one field is recorded, with the same type and
    the same name, and it is the same field if no leading keyword is in the
    initializer. -/
theorem run_field_initializer {w : Walk} (hw : w.StartsField) (h : FieldHead)
    {I : List Token} (hI : ∀ t ∈ I, t.InInitializer) {k t : Token}
    (hnumber : k.IsNumber) (hk : t.kind = .statementEnd) (htext : t.text = ";") :
    ∃ f u v, (w.run (h.tokens ++ [k] ++ [t])).value = .ok u
      ∧ (w.run (h.tokens ++ I ++ [t])).value = .ok v
      ∧ u.draft.fields = w.draft.fields ++ [f] ∧ u.draft.methods = w.draft.methods
      ∧ f.type = h.type.text ∧ f.name = h.name.text
      ∧ v.draft.methods = w.draft.methods
      ∧ ((∃ x ∈ I, x.beginsType = true ∨ x.isExecutable = true) →
          v.draft.fields = w.draft.fields)
      ∧ ((∀ x ∈ I, x.beginsType = false ∧ x.isExecutable = false) →
          ∃ g, v.draft.fields = w.draft.fields ++ [g] ∧ g.type = f.type ∧ g.name = f.name
            ∧ ((∀ x ∈ I, x.leads = false) → g = f)) := by
  have hnumbers : ∀ x ∈ [k], x.InInitializer := by simpa using hnumber.inInitializer
  obtain ⟨ps, u, hu, humethods, hufields, hups⟩ := Walk.run_field hw h hnumbers hk htext
  obtain ⟨qs, v, hv, hvmethods, hvfields, hvqs⟩ := Walk.run_field hw h hI hk htext
  have hplain : k.beginsType = false ∧ k.isExecutable = false ∧ k.leads = false := by
    rw [Token.beginsType, Token.isExecutable, Token.leads, hnumber.symbol]
    exact ⟨rfl, rfl, rfl⟩
  obtain rfl : ps = [] := hups (by simpa using hplain.2.2)
  have hone : ([k].any Token.beginsType || [k].any Token.isExecutable) = false := by
    simp [hplain]
  rw [hone, if_neg Bool.false_ne_true] at hufields
  refine ⟨h.field w [], u, v, hu, hv, hufields, humethods, rfl, rfl, hvmethods, ?_, ?_⟩
  · rintro ⟨x, hx, hloaded⟩
    have hskip : (I.any Token.beginsType || I.any Token.isExecutable) = true := by
      rw [Bool.or_eq_true, List.any_eq_true, List.any_eq_true]
      exact hloaded.imp (⟨x, hx, ·⟩) (⟨x, hx, ·⟩)
    rw [hvfields, hskip]
    exact List.append_nil _
  · intro hnone
    have hkept : (I.any Token.beginsType || I.any Token.isExecutable) = false := by
      rw [Bool.or_eq_false_iff, List.any_eq_false, List.any_eq_false]
      exact ⟨fun x hx => by simp [hnone x hx], fun x hx => by simp [hnone x hx]⟩
    rw [hkept, if_neg Bool.false_ne_true] at hvfields
    refine ⟨h.field w qs, hvfields, rfl, rfl, fun hleads => ?_⟩
    rw [hvqs hleads]

/-- The field `private Map<K, V> x =`. -/
def mapField : FieldHead where
  keywords := [⟨.keyword, "private", 1⟩]
  type := ⟨.symbol, "Map<K, V>", 1⟩
  name := ⟨.symbol, "x", 1⟩
  equals := ⟨.symbol, "=", 1⟩
  leading := by decide
  typeWord := ⟨rfl, ⟨by decide, fun _ _ => rfl⟩, by decide, by decide, by decide⟩
  nameWord := ⟨rfl, ⟨by decide, fun _ _ => rfl⟩, by decide, by decide, by decide⟩
  equalsKind := rfl
  equalsText := rfl

/-- The initializer `new HashMap<>(16, y)`. -/
def mapInitializer : List Token :=
  [⟨.keyword, "new", 1⟩, ⟨.symbol, "HashMap<>", 1⟩, ⟨.paramStart, "(", 1⟩,
    ⟨.symbol, "16", 1⟩, ⟨.join, ",", 1⟩, ⟨.symbol, "y", 1⟩, ⟨.paramEnd, ")", 1⟩]

theorem startsField_openClass : (Walk.steps {} openClass).StartsField :=
  ⟨by decide +kernel, by decide +kernel, by decide +kernel, by decide +kernel⟩

theorem run_field_initializer_map :
    ∃ f u v, (Walk.run (Walk.steps {} openClass)
        (mapField.tokens ++ [⟨.symbol, "5", 1⟩]
          ++ [⟨.statementEnd, ";", 1⟩])).value = .ok u
      ∧ (Walk.run (Walk.steps {} openClass)
        (mapField.tokens ++ mapInitializer ++ [⟨.statementEnd, ";", 1⟩])).value = .ok v
      ∧ f.type = "Map<K, V>" ∧ f.name = "x"
      ∧ u.draft.fields = [f] ∧ v.draft.fields = [f] := by
  have hI : ∀ t ∈ mapInitializer, t.InInitializer := by
    have hall : ∀ t ∈ mapInitializer, (t.isWord = true ∨ t.kind = .join
        ∨ t.kind = .paramStart ∨ t.kind = .paramEnd)
        ∧ (t.kind = .symbol → t.text ∉ commentMarks)
        ∧ (t.isWord = true → startsWith '@' t.text = false) := by decide
    intro t ht
    obtain ⟨hkind, hmark, hat⟩ := hall t ht
    exact ⟨hkind, hmark, hat⟩
  have hdigits : "5".toList.all Char.isDigit = true := by decide
  have hnumber : Token.IsNumber ⟨.symbol, "5", 1⟩ := ⟨rfl, List.all_eq_true.mp hdigits⟩
  obtain ⟨f, u, v, hu, hv, hfields, -, htype, hname, -, -, hkept⟩ :=
    run_field_initializer startsField_openClass mapField hI hnumber
      (t := ⟨.statementEnd, ";", 1⟩) rfl rfl
  obtain ⟨g, hg, -, -, hsame⟩ := hkept (by decide)
  rw [hsame (by decide)] at hg
  have hnone : (Walk.steps {} openClass).draft.fields = [] := by decide +kernel
  rw [hnone] at hfields hg
  exact ⟨f, u, v, hu, hv, htype, hname, hfields, hg⟩

/-- A keyword of an executable statement takes the field with it. -/
theorem run_field_initializer_switch :
    ((Walk.run (Walk.steps {} openClass)
        (mapField.tokens ++ [⟨.symbol, "5", 1⟩]
          ++ [⟨.statementEnd, ";", 1⟩])).value.toOption.map
          (·.draft.fields.length)) = some 1
      ∧ ((Walk.run (Walk.steps {} openClass)
        (mapField.tokens ++ [⟨.keyword, "switch", 1⟩, ⟨.symbol, "k", 1⟩]
          ++ [⟨.statementEnd, ";", 1⟩])).value.toOption.map
          (·.draft.fields.length)) = some 0 := by
  decide +kernel

end JavaOutline
