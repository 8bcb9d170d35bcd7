import JavaOutline.Proofs.DocumentedMethod

/-! # The modifiers of a method

    The statement of a method is one flat list of parts.  Access and modifier
    keywords may stand in front of it in any number and order, and a parameter
    may be final; in the list all these keywords are parts of the same kind.
    The reader of methods tells return type, name and parameters apart by their
    order, but it collects modifiers wherever they stand.

    So the parameters of a method are recovered exactly, and its modifiers are
    its own followed by one `final` for each final parameter: they are its own
    just if no parameter is final. -/

namespace JavaOutline

open Text

/-! ## Methods as they are written -/

/-- A parameter, which may be final. -/
structure ParamSource (extra : List String) where
  isFinal : Bool
  type : Word extra
  name : Word extra

/-- A method with its keywords in any order, up to its body or its
    semicolon. -/
structure MethodSource (extra : List String) where
  keywords : List { w : String // w ∈ Keyword.accessWords ++ Keyword.modifierWords }
  returnType : Word extra
  name : Word extra
  params : List (ParamSource extra)

section

variable {extra : List String} {x : Standing}

namespace ParamSource

/-- The keyword before a final parameter. -/
def finalTexts (p : ParamSource extra) : List String :=
  if p.isFinal then ["final"] else []

def lexemes (p : ParamSource extra) : List Lexeme :=
  p.finalTexts.map .word ++ [p.type, p.name].map Word.lexeme

def parts (p : ParamSource extra) : List Part :=
  (p.finalTexts.map fun w => ⟨.modifier, w⟩)
    ++ [⟨.typeName, p.type.text⟩, ⟨.identifier, p.name.text⟩]

/-- The parameter without its keyword. -/
def param (p : ParamSource extra) : Param :=
  { type := p.type.text, name := p.name.text }

theorem mem_finalTexts {p : ParamSource extra} {w : String}
    (h : w ∈ p.finalTexts) : w ∈ Keyword.modifierWords := by
  rw [finalTexts] at h
  split at h
  · rw [List.mem_singleton.mp h]
    decide
  · cases h

end ParamSource

namespace MethodSource

/-- The keywords before the return type. -/
def keywordTexts (g : MethodSource extra) : List String :=
  g.keywords.map Subtype.val

/-- The modifier keywords among them, in order. -/
def modifierTexts (g : MethodSource extra) : List String :=
  g.keywordTexts.filter (Keyword.modifierWords.contains ·)

/-- The last access keyword among them. -/
def accessText (g : MethodSource extra) : String :=
  ((g.keywordTexts.filter (Keyword.accessWords.contains ·)).getLast?).getD ""

def lexemes (g : MethodSource extra) : List Lexeme :=
  g.keywordTexts.map .word
    ++ ([g.returnType, g.name].map Word.lexeme ++ [.mark .openParen])
    ++ (separated (g.params.map ParamSource.lexemes) ++ [.mark .closeParen])

/-- The method with a body or a semicolon. -/
def declaration (g : MethodSource extra) (body : Bool) : List Lexeme :=
  g.lexemes ++ [if body then .block else .mark .semicolon]

/-- The method that is recorded. -/
def method (g : MethodSource extra) : Method where
  name := g.name.text
  returnType := g.returnType.text
  parameters := g.params.map ParamSource.param
  access := g.accessText
  modifiers := g.modifierTexts ++ g.params.flatMap ParamSource.finalTexts

theorem mem_keywordTexts {g : MethodSource extra} {w : String}
    (h : w ∈ g.keywordTexts) : w ∈ Keyword.accessWords ++ Keyword.modifierWords := by
  obtain ⟨k, -, rfl⟩ := List.mem_map.mp h
  exact k.property

end MethodSource

/-! ## The walk takes the method -/

/-- The part that an access or modifier keyword is. -/
def keywordPart (w : String) : Part :=
  ⟨if Keyword.accessWords.contains w then .access else .modifier, w⟩

theorem standsFor_keyword {w : String}
    (h : w ∈ Keyword.accessWords ++ Keyword.modifierWords) :
    StandsFor w (keywordPart w) := by
  rw [keywordPart]
  by_cases ha : w ∈ Keyword.accessWords
  · rw [List.contains_iff_mem.mpr ha]
    exact standsFor_access ha
  · have hm : w ∈ Keyword.modifierWords := (List.mem_append.mp h).resolve_left ha
    rw [if_neg (mt List.contains_iff_mem.mp ha)]
    exact standsFor_modifier hm

/-- One parameter: its words are pending after it, and once they are parts the
    parameter is. -/
theorem takes_param (p : ParamSource extra) (hx : x.statement.words = []) :
    ∃ s : Statement, Takes x (p.lexemes.map (Lexeme.token extra))
        { x with statement := s }
      ∧ s.words = [p.type.text, p.name.text]
      ∧ s.flush = x.statement.extend p.parts := by
  let s := x.statement.extend (p.finalTexts.map fun w => ⟨.modifier, w⟩)
  have hfinal : Takes x ((p.finalTexts.map .word).map (Lexeme.token extra))
      { x with statement := s } :=
    takes_keywords (fun w hw => standsFor_modifier (ParamSource.mem_finalTexts hw)) hx
  have hwords := takes_words (x := { x with statement := s }) [p.type, p.name]
  refine ⟨s.addWords [p.type.text, p.name.text], ?_, ?_, ?_⟩
  · rw [ParamSource.lexemes, List.map_append]
    exact hfinal.append hwords
  · rw [Statement.addWords_eq]
    show s.words ++ _ = _
    rw [show s.words = [] from hx, List.nil_append]
  · have hplain : ∀ t ∈ [p.type.text, p.name.text], holds '=' t = false := by
      simp [p.type.holds_equals, p.name.holds_equals]
    rw [Statement.flush_addWords (s := s) hx hplain, Statement.extend_extend]
    rfl

/-- Parameters between commas. -/
theorem takes_paramList (ps : List (ParamSource extra)) :
    ∀ {x : Standing}, x.statement.words = [] →
      ∃ s : Statement,
        Takes x ((separated (ps.map ParamSource.lexemes)).map (Lexeme.token extra))
          { x with statement := s }
        ∧ (∀ word, s.words ≠ [word])
        ∧ s.flush = x.statement.extend (ps.flatMap ParamSource.parts) := by
  induction ps with
  | nil =>
      intro x hx
      refine ⟨x.statement, .nil, ?_, ?_⟩
      · intro word
        rw [hx]
        exact (List.cons_ne_nil word []).symm
      · rw [Statement.flush_of_nil hx]
        exact (Statement.extend_nil _).symm
  | cons p ps ih =>
      intro x hx
      obtain ⟨s, htakes, hwords, hflush⟩ := takes_param p hx
      cases ps with
      | nil =>
          refine ⟨s, htakes, ?_, ?_⟩
          · intro word
            rw [hwords]
            simp
          · rw [hflush]
            simp
      | cons q qs =>
          -- the comma ends the words of this parameter
          obtain ⟨s', hrest, hwords', hflush'⟩ :=
            ih (x := { x with statement := s.flush }) rfl
          refine ⟨s', ?_, hwords', ?_⟩
          · have hcomma : Takes { x with statement := s } [⟨.join, ",", 0⟩]
              { x with statement := s.flush } := Takes.comma
            simp only [List.map_cons, separated, List.map_append]
            exact htakes.append (hcomma.cons hrest)
          · rw [hflush', hflush, Statement.extend_extend]
            rfl

/-- The parameters with the parenthesis after them. -/
theorem takes_closedParams (ps : List (ParamSource extra))
    (hx : x.statement.words = []) :
    Takes x ((separated (ps.map ParamSource.lexemes)
        ++ [Lexeme.mark .closeParen]).map (Lexeme.token extra))
      { x with
        statement := x.statement.extend (ps.flatMap ParamSource.parts) } := by
  obtain ⟨s, htakes, hwords, hflush⟩ := takes_paramList ps hx
  have hclose := Takes.closeParen (x := { x with statement := s }) hwords
  rw [hflush] at hclose
  rw [List.map_append]
  exact htakes.append hclose

/-! ## The reader of methods -/

namespace MethodReading

/-- Keywords in any order: the last access keyword counts, and the modifier
    keywords are collected. -/
theorem fold_keywords (g : MethodSource extra) :
    (Logged.fold step {} (g.keywordTexts.map keywordPart)).value
      = { access := g.accessText, modifiers := g.modifierTexts } := by
  have hread := Logged.fold_map (f := step)
    (fun k : { w // w ∈ Keyword.accessWords ++ Keyword.modifierWords } =>
      keywordPart k.val)
    (fun ks => ({
      access := (((ks.map Subtype.val).filter
        (Keyword.accessWords.contains ·)).getLast?).getD ""
      modifiers := (ks.map Subtype.val).filter
        (Keyword.modifierWords.contains ·) } : MethodReading)) ?_ g.keywords
  · rw [MethodSource.keywordTexts, List.map_map]
    exact hread
  · rintro done ⟨w, hw⟩
    have hdisjoint : ∀ v ∈ Keyword.accessWords, v ∉ Keyword.modifierWords := by
      decide
    by_cases ha : w ∈ Keyword.accessWords
    · have hm := hdisjoint w ha
      simp [keywordPart, step, ha, hm]
    · have hm : w ∈ Keyword.modifierWords := (List.mem_append.mp hw).resolve_left ha
      simp [keywordPart, step, ha, hm]

/-- Parameters after the return type: their keywords join those of the
    method. -/
theorem fold_paramSources {r : MethodReading} (hs : r.slot = .free)
    (hp : r.paramType = "") (hr : r.returnType ≠ "") (hn : r.params = [])
    (ps : List (ParamSource extra)) :
    (Logged.fold step r (ps.flatMap ParamSource.parts)).value
      = { r with
          modifiers := r.modifiers ++ ps.flatMap ParamSource.finalTexts
          params := ps.map ParamSource.param } := by
  have hread := Logged.fold_items (f := step) ParamSource.parts
    (fun ps : List (ParamSource extra) => ({ r with
      modifiers := r.modifiers ++ ps.flatMap ParamSource.finalTexts
      params := ps.map ParamSource.param } : MethodReading)) ?_ ps
  · rw [List.flatMap_nil, List.append_nil, List.map_nil, ← hn] at hread
    exact hread
  · intro done p
    cases hf : p.isFinal <;>
      simp [ParamSource.parts, ParamSource.finalTexts, ParamSource.param, hf,
        Logged.fold, step, typeName, identifier, hs, hr, hp]

end MethodReading

namespace MethodSource

/-- The parts of the statement. -/
def parts (g : MethodSource extra) : List Part :=
  g.keywordTexts.map keywordPart
    ++ Part.ofWords [g.returnType.text, g.name.text]
    ++ g.params.flatMap ParamSource.parts

theorem ofParts?_parts (g : MethodSource extra) :
    (Method.ofParts? g.parts {} 0 "" "").value = some g.method := by
  let r : MethodReading :=
    { access := g.accessText
      modifiers := g.modifierTexts
      name := g.name.text
      returnType := g.returnType.text }
  have hname : (Logged.fold MethodReading.step
      { access := g.accessText, modifiers := g.modifierTexts }
      (Part.ofWords [g.returnType.text, g.name.text])).value = r :=
    MethodReading.fold_signature g.accessText g.modifierTexts
      (some g.returnType.text) g.name.text
  have hread : (Logged.fold MethodReading.step {} g.parts).value
      = { r with
          modifiers := g.modifierTexts ++ g.params.flatMap ParamSource.finalTexts
          params := g.params.map ParamSource.param } := by
    rw [parts, Logged.fold_append, Logged.value_bind, Logged.fold_append,
      Logged.value_bind, MethodReading.fold_keywords, hname]
    exact MethodReading.fold_paramSources rfl rfl g.returnType.text_ne rfl g.params
  have hfinal : (Logged.fold MethodReading.step {} g.parts).value.finalName ""
      = g.name.text := by
    rw [hread, MethodReading.finalName]
    exact if_pos g.name.text_ne
  rw [Method.ofParts?, Logged.value_bind]
  simp only [hfinal]
  rw [if_neg (fun h => g.name.text_ne h.1), hread]
  -- nothing is documented, so every description is empty
  have hparams : matchParams (g.params.map ParamSource.param) []
      = g.params.map ParamSource.param := by
    simp [matchParams, paramDescription, ParamSource.param, Function.comp_def]
  simp only [Logged.value_pure, hparams]
  rfl

/-- The statement up to its end. -/
theorem takes (g : MethodSource extra) (hx : x.statement = {}) :
    Takes x (g.lexemes.map (Lexeme.token extra))
      { x with statement := { parts := g.parts, hasParams := true } } := by
  have hkeywords : Takes x ((g.keywordTexts.map .word).map (Lexeme.token extra)) _ :=
    takes_keywords (fun w hw => standsFor_keyword (mem_keywordTexts hw))
      (by rw [hx])
  have hstart : x.statement.extend (g.keywordTexts.map keywordPart)
      = { doc := {}, parts := g.keywordTexts.map keywordPart } := by
    rw [hx]
    rfl
  have hname := takes_methodName [g.returnType, g.name]
    (x := { x with statement := x.statement.extend (g.keywordTexts.map keywordPart) })
    hstart
  have hparams := (hkeywords.append hname).append (takes_closedParams g.params rfl)
  rw [← List.map_append, ← List.map_append] at hparams
  exact hparams

/-- The whole statement. -/
theorem takes_declared (g : MethodSource extra) (body : Bool) (hx : x.InBody) :
    Takes x ((g.declaration body).map (Lexeme.token extra))
      { x with
        draft := { x.draft with methods := x.draft.methods ++ [g.method] } } := by
  have hne : g.parts ≠ [] := by simp [parts, Part.ofWords]
  have hend := takes_methodEnd extra body
    (s := { parts := g.parts, hasParams := true }) (Statement.flush_of_nil rfl) hne
    g.ofParts?_parts hx.kind hx.constants
  rw [Standing.next, ← hx.statement] at hend
  rw [declaration, List.map_append]
  exact (g.takes hx.statement).append hend

end MethodSource

end

/-! ## Whole sources -/

/-- The keywords before the parameters. -/
theorem flatMap_finalTexts {extra : List String} (ps : List (ParamSource extra)) :
    ps.flatMap ParamSource.finalTexts
      = List.replicate (ps.countP ParamSource.isFinal) "final" := by
  induction ps with
  | nil => rfl
  | cons p ps ih =>
      rw [List.flatMap_cons, ih, ParamSource.finalTexts]
      cases hf : p.isFinal with
      | true =>
          rw [List.countP_cons_of_pos hf]
          rfl
      | false =>
          rw [List.countP_cons_of_neg (by rw [hf]; exact Bool.false_ne_true)]
          rfl

/-- The methods at the end of a file that ends between two members. -/
theorem Walk.StandsAt.finish_methods {w : Walk} {x : Standing}
    (h : w.StandsAt x) (hx : x.InBody) :
    w.finish.value.methods.map Method.unplaced = x.draft.methods := by
  have hfinish := congrArg Declaration.methods (h.finish
    (by rw [hx.statement]) (by rw [hx.statement]))
  rw [Draft.finish_value, Standing.final, hx.constants] at hfinish
  exact hfinish

/-- **The modifiers of a method are its own and those of its parameters.**  A
    method of a class or an interface is recorded once, with its parameters, and
    with the modifier keywords before its return type followed by one `final` for
    each parameter that is final.  These are its own modifiers just if no
    parameter is final. -/
theorem outline_method_modifiers (settings : Settings) {p x t : List Char}
    (hp : IsTypeHead settings.ignoredKeywords p)
    (before after : List (Member settings.ignoredKeywords))
    (g : MethodSource settings.ignoredKeywords) (body : Bool)
    (hx : Laid false (before.flatMap Member.lexemes ++ g.declaration body
      ++ after.flatMap Member.lexemes) x)
    (ht : Laid false [] t)
    (hlines : LinesFit (String.ofList (p ++ '{' :: (x ++ '}' :: t)))) :
    ∃ (d : Declaration) (modifiers : List String),
      (outline (String.ofList (p ++ '{' :: (x ++ '}' :: t))) settings).value = .ok d
      ∧ d.methods.map Method.unplaced
        = before.filterMap Member.method?
          ++ [{ name := g.name.text
                returnType := g.returnType.text
                parameters := g.params.map fun q =>
                  { type := q.type.text, name := q.name.text }
                access := g.accessText
                modifiers }]
          ++ after.filterMap Member.method?
      ∧ modifiers = g.modifierTexts
          ++ List.replicate (g.params.countP ParamSource.isFinal) "final"
      ∧ (modifiers = g.modifierTexts ↔ ∀ q ∈ g.params, q.isFinal = false) := by
  obtain ⟨z, hheader, hstands⟩ := hp.header
  obtain ⟨u, hbrace, hu, hmethods⟩ := hheader.takes_brace
  have hbody := ((takes_members before hu).append (g.takes_declared body
    ⟨hu.statement, hu.kind, hu.constants⟩)).append
    (takes_members after ⟨hu.statement, hu.kind, hu.constants⟩)
  rw [← List.map_append, ← List.map_append] at hbody
  obtain ⟨ts, htokens, hts⟩ := tokenize_type hp.toIsHead (hx.spellsBody _) ht
  obtain ⟨ix, hix⟩ := outline_value settings hlines
  rw [htokens, Walk.steps_append] at hix
  have hend := (hbrace.cons hbody) _ ts (hstands ix) hts
  refine ⟨_, _, hix, ?_, rfl, ?_⟩
  · rw [hend.finish_methods ⟨hu.statement, hu.kind, hu.constants⟩,
      ← flatMap_finalTexts]
    show u.draft.methods ++ _ ++ _ ++ _ = _
    rw [hmethods, List.nil_append]
    rfl
  · rw [List.append_right_eq_self, List.replicate_eq_nil_iff, List.countP_eq_zero]
    simp only [Bool.not_eq_true]

/-- A method with keywords in no particular order and two final parameters. -/
def putMethod : MethodSource [] where
  keywords := [⟨"static", by decide⟩, ⟨"public", by decide⟩, ⟨"final", by decide⟩]
  returnType := ⟨"Map<K, V>", .refl true, .refl false⟩
  name := ⟨"put", .refl true, .refl false⟩
  params :=
    [⟨true, ⟨"int[]", .refl true, .refl false⟩, ⟨"a", .refl true, .refl false⟩⟩,
      ⟨false, ⟨"long", .refl true, .refl false⟩, ⟨"b", .refl true, .refl false⟩⟩,
      ⟨true, ⟨"T", .refl true, .refl false⟩, ⟨"c", .refl true, .refl false⟩⟩]

theorem outline_method_modifiers_put :
    ∃ d, (outline (String.ofList ("class C ".toList ++ '{' ::
          ("static public final Map<K, V> put(final int[] a,\n long b,final T c){}".toList
            ++ ['}']))) {}).value = .ok d
      ∧ d.methods.map Method.unplaced
        = [{ name := "put"
             returnType := "Map<K, V>"
             parameters := [{ type := "int[]", name := "a" },
               { type := "long", name := "b" }, { type := "T", name := "c" }]
             access := "public"
             modifiers := ["static", "final", "final", "final"] }] := by
  have hhead : Laid false bareClass.head "class C ".toList :=
    .word (w := ['c', 'l', 'a', 's', 's']) (.word (by decide))
      (.gap rfl (.word (w := ['C']) (.word (by decide)) (.gap rfl .nil)))
  have hparams : Laid false (separated (putMethod.params.map ParamSource.lexemes)
        ++ [.mark .closeParen] ++ [.block])
      "final int[] a,\n long b,final T c){}".toList :=
    .word (w := ['f', 'i', 'n', 'a', 'l']) (.word (by decide)) (.gap rfl
      (.word (w := ['i', 'n', 't', '[', ']']) (.word (by decide)) (.gap rfl
        (.word (w := ['a']) (.word (by decide)) (.mark (m := .comma) (.gap rfl
          (.gap rfl (.word (w := ['l', 'o', 'n', 'g']) (.word (by decide)) (.gap rfl
            (.word (w := ['b']) (.word (by decide)) (.mark (m := .comma)
              (.word (w := ['f', 'i', 'n', 'a', 'l']) (.word (by decide)) (.gap rfl
                (.word (w := ['T']) (.word (by decide)) (.gap rfl
                  (.word (w := ['c']) (.word (by decide)) (.mark (m := .closeParen)
                    (.block (x := []) .nil .nil))))))))))))))))))
  have hmethod : Laid false (putMethod.declaration true)
      "static public final Map<K, V> put(final int[] a,\n long b,final T c){}".toList :=
    .word (w := ['s', 't', 'a', 't', 'i', 'c']) (.word (by decide)) (.gap rfl
      (.word (w := ['p', 'u', 'b', 'l', 'i', 'c']) (.word (by decide)) (.gap rfl
        (.word (w := ['f', 'i', 'n', 'a', 'l']) (.word (by decide)) (.gap rfl
          (.word (w := ['M', 'a', 'p', '<', 'K', ',', ' ', 'V', '>'])
            (.word (by decide)) (.gap rfl (.word (w := ['p', 'u', 't'])
              (.word (by decide)) (.mark (m := .openParen) hparams)))))))))
  obtain ⟨d, ms, hd, hmethods, hms, -⟩ := outline_method_modifiers {}
    (TypeSource.isTypeHead hhead (by decide)) [] [] putMethod true
    (by simpa using hmethod) .nil (linesFit_ofList (by decide +kernel))
  subst hms
  exact ⟨d, hd, hmethods.trans (by decide +kernel)⟩

end JavaOutline
