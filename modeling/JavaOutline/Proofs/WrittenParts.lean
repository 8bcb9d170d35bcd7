import JavaOutline.Proofs.Standing
import JavaOutline.Proofs.TypeSource

/-! # The parts of what is written

    How the walk takes the words of a declaration: leading keywords, groups of
    words between commas, and clauses.  Each is told by the parts that the
    statement has when its words are next turned into parts. -/

namespace JavaOutline

open Text

section

variable {extra : List String} {x y : Standing}

/-! ## Words -/

/-- What is read as one word is taken as one. -/
theorem WordForm.plainText {w : String} (h : WordForm w.toList) :
    PlainText w := by
  generalize hc : w.toList = cs at h
  cases h with
  | word hw =>
      have hchar := isWordRest_char (Bool.and_eq_true _ _ ▸ hw).2
      refine ⟨?_, ?_⟩
      · rintro rfl
        exact (hchar '/' (by rw [← hc]; decide)).1 rfl
      · rw [hc]
        intro c hhead
        have := hchar c (List.mem_of_mem_head? hhead)
        exact ⟨this.1, this.2.1⟩
  | equals =>
      refine ⟨?_, ?_⟩
      · rintro rfl
        exact absurd hc (by decide)
      · rw [hc]
        rintro c ⟨⟩
        decide
  | string hs =>
      refine ⟨?_, ?_⟩
      · rintro rfl
        exact absurd (List.cons.inj hc).1 (by decide)
      · rw [hc]
        rintro c ⟨⟩
        decide

/-- A word that is no keyword is a symbol. -/
theorem token_word {w : String} (h : Keyword.isKeyword extra w = false) :
    (Lexeme.word w).token extra = ⟨.symbol, w, 0⟩ := by
  rw [Lexeme.token, Token.ofWord, h]
  rfl

/-- A structural keyword is a keyword. -/
theorem token_keyword {w : String} (h : Keyword.isStructural w = true) :
    (Lexeme.word w).token extra = ⟨.keyword, w, 0⟩ := by
  rw [Lexeme.token, Token.ofWord, Keyword.isKeyword, h]
  rfl

theorem Word.holds_equals (w : Word extra) : holds '=' w.text = false := by
  have hchar := isWordRest_char (Bool.and_eq_true _ _ ▸ w.form).2
  rw [holds, List.contains_eq_mem]
  exact decide_eq_false fun h => (hchar '=' h).2.2 rfl

theorem Word.text_ne (w : Word extra) : w.text ≠ "" := by
  intro h
  have hform := w.form
  rw [h] at hform
  exact nomatch hform

theorem Name.text_ne (n : Name extra) : n.text ≠ "" := n.word.text_ne

/-- Add parts to a statement. -/
def Statement.extend (s : Statement) (ps : List Part) : Statement :=
  { s with parts := s.parts ++ ps }

theorem Statement.extend_nil (s : Statement) : s.extend [] = s := by
  rw [extend, List.append_nil]

theorem Statement.extend_extend (s : Statement) (ps qs : List Part) :
    (s.extend ps).extend qs = s.extend (ps ++ qs) := by
  rw [extend, extend, extend, List.append_assoc]

theorem Statement.flush_of_nil {s : Statement} (h : s.words = []) :
    s.flush = s := by
  rw [flush, h, Part.ofWords, List.append_nil, ← h]

/-- Add words one after another. -/
def Statement.addWords (s : Statement) (ws : List String) : Statement :=
  ws.foldl Statement.addWord s

theorem Statement.addWords_eq (s : Statement) (ws : List String) :
    s.addWords ws
      = { s with
          words := s.words ++ ws
          hasInitializer := s.hasInitializer || ws.any (holds '=') } := by
  induction ws generalizing s with
  | nil => simp [addWords]
  | cons w ws ih =>
      show (s.addWord w).addWords ws = _
      rw [ih]
      simp [addWord, Bool.or_assoc]

/-- Texts that are read as words and are no keywords join the pending words. -/
theorem takes_texts {ws : List String} (h : ∀ w ∈ ws, WordForm w.toList)
    (hk : ∀ w ∈ ws, Keyword.isKeyword extra w = false) :
    Takes x ((ws.map Lexeme.word).map (Lexeme.token extra))
      { x with statement := x.statement.addWords ws } := by
  induction ws generalizing x with
  | nil => exact .nil
  | cons w ws ih =>
      have hw : Takes x [(Lexeme.word w).token extra]
          { x with statement := x.statement.addWord w } := by
        rw [token_word (hk w (by simp))]
        exact .symbol (h w (by simp)).plainText
      exact hw.cons (ih (fun v hv => h v (by simp [hv]))
        fun v hv => hk v (by simp [hv]))

theorem takes_words (ws : List (Word extra)) :
    Takes x ((ws.map Word.lexeme).map (Lexeme.token extra))
      { x with statement := x.statement.addWords (ws.map Word.text) } := by
  have htexts : Takes x
      (((ws.map Word.text).map Lexeme.word).map (Lexeme.token extra)) _ :=
    takes_texts (List.forall_mem_map.mpr fun w _ => .word w.form)
      (List.forall_mem_map.mpr fun w _ => w.plain)
  rwa [List.map_map (l := ws)] at htexts

/-! ## Groups -/

/-- Words in groups: each group but the last has become parts. -/
def Statement.joined (s : Statement) : List (List String) → Statement
  | [] => s
  | [g] => s.addWords g
  | g :: h :: gs => (s.addWords g).flush.joined (h :: gs)

theorem takes_separated (gs : List (List (Word extra))) :
    Takes x ((separated (gs.map (·.map Word.lexeme))).map (Lexeme.token extra))
      { x with
        statement := x.statement.joined (gs.map (·.map Word.text)) } := by
  induction gs generalizing x with
  | nil => exact .nil
  | cons g gs ih =>
      cases gs with
      | nil => exact takes_words g
      | cons h gs =>
          simp only [List.map_cons, separated, List.map_append]
          exact (takes_words g).append (Takes.comma.cons ih)

/-- Words without an equals sign, once they have become parts. -/
theorem Statement.flush_addWords {s : Statement} (hs : s.words = [])
    {ws : List String} (h : ∀ w ∈ ws, holds '=' w = false) :
    (s.addWords ws).flush = s.extend (Part.ofWords ws) := by
  have hany : ws.any (holds '=') = false := by
    rw [List.any_eq_false]
    intro w hw
    rw [h w hw]
    exact Bool.false_ne_true
  rw [addWords_eq, hany]
  simp [flush, extend, hs]

/-- Once the last group has become parts, all have. -/
theorem Statement.flush_joined {gs : List (List String)}
    (h : ∀ g ∈ gs, ∀ w ∈ g, holds '=' w = false) :
    ∀ {s : Statement}, s.words = [] →
      (s.joined gs).flush = s.extend (gs.flatMap Part.ofWords) := by
  induction gs with
  | nil =>
      intro s hs
      rw [joined, flush_of_nil hs]
      exact s.extend_nil.symm
  | cons g gs ih =>
      intro s hs
      have hg := flush_addWords hs (h g (by simp))
      cases gs with
      | nil =>
          rw [joined, hg]
          simp
      | cons k gs =>
          have hrest := ih (fun g' hg' => h g' (List.mem_cons_of_mem g hg'))
            (s := s.extend (Part.ofWords g)) hs
          rw [joined, hg, hrest, extend_extend]
          rfl

/-- The pending words are those of a group, if there are any. -/
theorem Statement.words_joined (gs : List (List String)) :
    ∀ {s : Statement}, s.words = [] →
      (s.joined gs).words = [] ∨ (s.joined gs).words ∈ gs := by
  induction gs with
  | nil => exact fun hs => .inl hs
  | cons g gs ih =>
      intro s hs
      cases gs with
      | nil =>
          refine .inr (List.mem_singleton.mpr ?_)
          rw [joined, addWords_eq, hs]
          rfl
      | cons k gs =>
          rw [joined]
          exact (ih rfl).imp_right (List.mem_cons_of_mem g)

/-- The same for groups of words that are well formed. -/
theorem Statement.flush_joined_words (gs : List (List (Word extra)))
    {s : Statement} (hs : s.words = []) :
    (s.joined (gs.map (·.map Word.text))).flush
      = s.extend ((gs.map (·.map Word.text)).flatMap Part.ofWords) := by
  refine flush_joined ?_ hs
  refine List.forall_mem_map.mpr fun g _ => ?_
  exact List.forall_mem_map.mpr fun w _ => w.holds_equals

/-- Groups of one word are names, each of them an identifier. -/
theorem takes_names (ns : List (Word extra)) (hx : x.statement.words = []) :
    ∃ s, Takes x ((separated (ns.map fun n => [n.lexeme])).map
          (Lexeme.token extra)) { x with statement := s }
      ∧ s.flush
        = x.statement.extend
            ((ns.map Word.text).map fun n => ⟨.identifier, n⟩) := by
  let gs := ns.map fun n => [n]
  have hparts : (gs.map (·.map Word.text)).flatMap Part.ofWords
      = (ns.map Word.text).map fun n => ⟨.identifier, n⟩ := by
    simp only [gs, List.map_map, List.flatMap_map]
    rw [List.map_eq_flatMap]
    rfl
  have hlexemes : gs.map (·.map Word.lexeme) = ns.map fun n => [n.lexeme] := by
    simp only [gs, List.map_map]
    rfl
  have hnames := takes_separated (x := x) gs
  have hflush := Statement.flush_joined_words gs hx
  rw [hlexemes] at hnames
  rw [hparts] at hflush
  exact ⟨_, hnames, hflush⟩

/-! ## Keywords -/

/-- A keyword that stands for a part of a statement, whatever came before. -/
structure StandsFor (word : String) (p : Part) : Prop where
  notType : Keyword.isTypeWord word = false
  structural : Keyword.isStructural word = true
  part : Part.ofKeyword? word = some p
  notPackage : word ≠ "package"

theorem StandsFor.takes {word : String} {p : Part} (h : StandsFor word p)
    (extra : List String) (x : Standing) :
    Takes x [(Lexeme.word word).token extra]
      { x with statement := x.statement.flush.extend [p] } := by
  rw [token_keyword h.structural]
  exact .partWord h.notType h.structural h.part
    fun hp => absurd hp h.notPackage

/-- Keywords that stand for parts, one after another. -/
theorem takes_keywords {part : String → Part} {ws : List String}
    (h : ∀ w ∈ ws, StandsFor w (part w)) :
    ∀ {x : Standing}, x.statement.words = [] →
      Takes x ((ws.map Lexeme.word).map (Lexeme.token extra))
        { x with statement := x.statement.extend (ws.map part) } := by
  induction ws with
  | nil =>
      intro x hx
      rw [List.map_nil, List.map_nil, List.map_nil, Statement.extend_nil]
      exact .nil
  | cons w ws ih =>
      intro x hx
      have hw : Takes x [(Lexeme.word w).token extra]
          { x with statement := x.statement.extend [part w] } := by
        have htakes := (h w (by simp)).takes extra x
        rwa [Statement.flush_of_nil hx] at htakes
      have hrest := ih (fun v hv => h v (by simp [hv]))
        (x := { x with statement := x.statement.extend [part w] }) hx
      rw [Statement.extend_extend] at hrest
      exact hw.cons hrest

/-- The parts of the leading keywords. -/
def Leading.parts (l : Leading) : List Part :=
  (l.accessTexts.map fun w => ⟨.access, w⟩)
    ++ l.modifierTexts.map fun w => ⟨.modifier, w⟩

theorem standsFor_access {w : String} (h : w ∈ Keyword.accessWords) :
    StandsFor w ⟨.access, w⟩ := by
  have hall : ∀ w ∈ Keyword.accessWords, StandsFor w ⟨.access, w⟩ := by
    simp only [Keyword.accessWords, List.forall_mem_cons]
    refine ⟨?_, ?_, ?_, by simp⟩ <;>
    · constructor <;> decide
  exact hall w h

theorem standsFor_modifier {w : String} (h : w ∈ Keyword.modifierWords) :
    StandsFor w ⟨.modifier, w⟩ := by
  have hall : ∀ w ∈ Keyword.modifierWords, StandsFor w ⟨.modifier, w⟩ := by
    simp only [Keyword.modifierWords, List.forall_mem_cons]
    refine ⟨?_, ?_, ?_, ?_, ?_, by simp⟩ <;>
    · constructor <;> decide
  exact hall w h

theorem takes_leading (l : Leading) (hx : x.statement.words = []) :
    Takes x (l.lexemes.map (Lexeme.token extra))
      { x with statement := x.statement.extend l.parts } := by
  rw [Leading.lexemes, List.map_append, List.map_append, Leading.parts,
    ← Statement.extend_extend]
  exact (takes_keywords (fun w hw => standsFor_access (l.mem_accessTexts hw)) hx).append
    (takes_keywords (fun w hw => standsFor_modifier (l.mem_modifierTexts hw)) hx)

/-! ## Clauses -/

/-- The parts of a clause. -/
def clauseParts (kind : PartKind) (names : List String) : List Part :=
  if names = [] then [] else ⟨kind, ""⟩ :: names.map fun n => ⟨.identifier, n⟩

theorem takes_clause {keyword : String} {kind : PartKind}
    (hk : StandsFor keyword ⟨kind, ""⟩) (names : List (Word extra)) :
    ∃ s, Takes x ((clause keyword names).map (Lexeme.token extra))
        { x with statement := s }
      ∧ s.flush
        = x.statement.flush.extend (clauseParts kind (names.map Word.text)) := by
  cases names with
  | nil =>
      refine ⟨x.statement, .nil, ?_⟩
      exact (Statement.extend_nil _).symm
  | cons n names =>
      obtain ⟨s, hnames, hs⟩ := takes_names (n :: names)
        (x := { x with
          statement := x.statement.flush.extend [⟨kind, ""⟩] }) rfl
      refine ⟨s, (hk.takes extra x).cons hnames, ?_⟩
      rw [hs, Statement.extend_extend, clauseParts, if_neg (by simp)]
      rfl

end

/-! ## Parts read back -/

namespace Logged

variable {α β ρ : Type} {f : ρ → β → Logged ρ}

/-- Reading items one after another, each of them a few parts: `state` is where
    the reader stands after the items it has read. -/
theorem fold_items (parts : α → List β) (state : List α → ρ)
    (hstep : ∀ done a,
      (fold f (state done) (parts a)).value = state (done ++ [a]))
    (as : List α) : (fold f (state []) (as.flatMap parts)).value = state as := by
  have hrest : ∀ done,
      (fold f (state done) (as.flatMap parts)).value = state (done ++ as) := by
    induction as with
    | nil =>
        intro done
        rw [List.append_nil]
        rfl
    | cons a as ih =>
        intro done
        rw [List.flatMap_cons, fold_append, value_bind, hstep, ih,
          List.append_assoc]
        rfl
  exact hrest []

/-- Items of one part each. -/
theorem fold_map (part : α → β) (state : List α → ρ)
    (hstep : ∀ done a, (f (state done) (part a)).value = state (done ++ [a]))
    (as : List α) : (fold f (state []) (as.map part)).value = state as := by
  rw [List.map_eq_flatMap]
  exact fold_items (fun a => [part a]) state hstep as

end Logged

/-- Leading keywords, for a reader that notes the access and collects the
    modifiers: `state` is where it stands after them. -/
theorem Leading.fold_parts {ρ : Type} {f : ρ → Part → Logged ρ}
    (state : String → List String → ρ)
    (haccess : ∀ a, (f (state "" []) ⟨.access, a⟩).value = state a [])
    (hmodifier : ∀ a ms m,
      (f (state a ms) ⟨.modifier, m⟩).value = state a (ms ++ [m]))
    (l : Leading) :
    (Logged.fold f (state "" []) l.parts).value
      = state l.accessText l.modifierTexts := by
  have hmodifiers : ∀ a, (Logged.fold f (state a [])
      (l.modifierTexts.map fun w => ⟨.modifier, w⟩)).value
        = state a l.modifierTexts := fun a =>
    Logged.fold_map _ (state a) (hmodifier a) l.modifierTexts
  rw [parts, Logged.fold_append, Logged.value_bind, accessText, accessTexts]
  cases l.access with
  | none => exact hmodifiers ""
  | some a =>
      show (Logged.fold f (f (state "" []) ⟨.access, a.val⟩).value _).value = _
      rw [haccess]
      exact hmodifiers a.val

/-! ### Methods -/

namespace MethodReading

theorem fold_leading (l : Leading) :
    (Logged.fold step {} l.parts).value
      = { access := l.accessText, modifiers := l.modifierTexts } :=
  Leading.fold_parts (fun access modifiers => ({ access, modifiers } : MethodReading))
    (fun _ => rfl) (fun _ _ _ => rfl) l

/-- The return type and the name, or the name of a constructor. -/
theorem fold_signature (access : String) (modifiers : List String)
    (ret : Option String) (name : String) :
    (Logged.fold step { access, modifiers }
        (Part.ofWords (ret.toList ++ [name]))).value
      = { access, modifiers
          name := if ret.isSome then name else ""
          returnType := ret.getD name
          isConstructor := ret.isNone } := by
  cases ret <;> rfl

/-- Parameters after the return type. -/
theorem fold_params {r : MethodReading} (hs : r.slot = .free)
    (hp : r.paramType = "") (hr : r.returnType ≠ "") (hn : r.params = [])
    (ps : List (String × String)) :
    (Logged.fold step r
        (ps.flatMap fun p => [⟨.typeName, p.1⟩, ⟨.identifier, p.2⟩])).value
      = { r with params := ps.map fun p => { type := p.1, name := p.2 } } := by
  have hread := Logged.fold_items
    (fun p : String × String => [⟨.typeName, p.1⟩, ⟨.identifier, p.2⟩])
    (fun ps => ({ r with
      params := ps.map fun p => { type := p.1, name := p.2 } } : MethodReading))
    (f := step) ?_ ps
  · rw [List.map_nil, ← hn] at hread
    exact hread
  · intro done p
    simp [Logged.fold, step, typeName, identifier, hs, hr, hp]

/-- Exceptions. -/
theorem fold_thrown {r : MethodReading} (hn : r.thrown = [])
    (ts : List String) :
    ∃ slot, (Logged.fold step r (clauseParts .throwing ts)).value
      = { r with thrown := ts, slot := slot } := by
  rw [clauseParts]
  split
  · next h =>
      rw [h]
      exact ⟨r.slot, by rw [← hn]; rfl⟩
  · refine ⟨.exception, ?_⟩
    have hread := Logged.fold_map (fun t => ⟨.identifier, t⟩)
      (fun ts => ({ r with slot := .exception, thrown := ts } : MethodReading))
      (f := step) (fun _ _ => rfl) ts
    rw [← hn] at hread
    exact hread

end MethodReading

/-- The parts of a method: leading keywords, return type and name, parameters,
    exceptions. -/
def methodParts (l : Leading) (ret : Option String) (name : String)
    (ps : List (String × String)) (ts : List String) : List Part :=
  l.parts ++ Part.ofWords (ret.toList ++ [name])
    ++ (ps.flatMap fun p => [⟨.typeName, p.1⟩, ⟨.identifier, p.2⟩])
    ++ clauseParts .throwing ts

theorem methodParts_ne_nil (l : Leading) (ret : Option String) (name : String)
    (ps : List (String × String)) (ts : List String) :
    methodParts l ret name ps ts ≠ [] := by
  cases ret <;> simp [methodParts, Part.ofWords]

theorem MethodReading.fold_methodParts (l : Leading) (ret : Option String)
    {name : String} (hr : ret.getD name ≠ "") (ps : List (String × String))
    (ts : List String) :
    ∃ slot, (Logged.fold step {} (methodParts l ret name ps ts)).value
      = { slot
          access := l.accessText
          modifiers := l.modifierTexts
          name := if ret.isSome then name else ""
          returnType := ret.getD name
          isConstructor := ret.isNone
          params := ps.map fun p => { type := p.1, name := p.2 }
          thrown := ts } := by
  let r : MethodReading :=
    { access := l.accessText
      modifiers := l.modifierTexts
      name := if ret.isSome then name else ""
      returnType := ret.getD name
      isConstructor := ret.isNone }
  -- a return type is known by now, so the next type is that of a parameter
  have hparams := fold_params (r := r) rfl rfl hr rfl ps
  simp only [methodParts, Logged.fold_append, Logged.value_bind, fold_leading,
    fold_signature]
  rw [hparams]
  exact fold_thrown (r := { r with
    params := ps.map fun p => { type := p.1, name := p.2 } }) rfl ts

/-- The method that written parts declare after a doc comment. -/
theorem Method.ofParts?_methodParts (l : Leading) (ret : Option String)
    {name : String} (hn : name ≠ "") (hr : ret.getD name ≠ "")
    (ps : List (String × String)) (ts : List String) (doc : Doc) :
    (Method.ofParts? (methodParts l ret name ps ts) doc 0 "" "").value
      = some {
          name
          returnType := if doc.returns ≠ "" then doc.returns else ret.getD name
          parameters := matchParams (ps.map fun p => { type := p.1, name := p.2 })
            doc.params
          access := l.accessText
          modifiers := l.modifierTexts
          exceptions := matchExceptions ts doc.exceptions
          description := doc.description
          deprecated := doc.deprecated
          see := doc.see } := by
  obtain ⟨slot, hread⟩ := MethodReading.fold_methodParts l ret hr ps ts
  have hname : (Logged.fold MethodReading.step {}
      (methodParts l ret name ps ts)).value.finalName "" = name := by
    rw [hread, MethodReading.finalName]
    cases ret with
    | none => rfl
    | some t => exact if_pos hn
  rw [Method.ofParts?, Logged.value_bind]
  simp only [hname]
  rw [if_neg (fun h => hn h.1), hread]
  rfl

/-! ### Fields -/

theorem argumentWords_angleStep {n a : Nat} {p c : Char}
    (h : angleStep n p c = some a) (u cs : List Char) :
    argumentWords n u (c :: cs) = argumentWords a (c :: u) cs := by
  revert h
  fun_cases angleStep n p c with
  | case1 hc =>
      rintro ⟨⟩
      simp [argumentWords, hc]
  | case2 _ hc ha =>
      rintro ⟨⟩
      simp [argumentWords, hc]
  | case4 _ _ hc ha =>
      rintro ⟨⟩
      simp [argumentWords, hc]
  | case6 _ _ _ hc ha =>
      rintro ⟨⟩
      have hn : n ≠ 0 := by omega
      simp [argumentWords, hc, hn]
  | case8 h1 h2 _ h4 _ =>
      rintro ⟨⟩
      simp [argumentWords, h1, h2, h4]
  | _ => intro h; cases h

theorem argumentWords_isWordRest {w : List Char} :
    ∀ {n : Nat} {p : Char}, isWordRest n p w = true → ∀ u cs,
      argumentWords n u (w ++ cs) = argumentWords 0 (w.reverse ++ u) cs := by
  induction w with
  | nil =>
      intro n p h u cs
      have hn : n = 0 := by simpa [isWordRest] using h
      rw [hn]
      rfl
  | cons c w ih =>
      intro n p h u cs
      rw [isWordRest] at h
      split at h
      · next a ha =>
          rw [List.cons_append, argumentWords_angleStep ha, ih h]
          simp
      · cases h

/-- A text that is split nowhere. -/
structure Unsplit (w : String) : Prop where
  ne : w ≠ ""
  split : ∀ u cs, argumentWords 0 u (w.toList ++ cs)
    = argumentWords 0 (w.toList.reverse ++ u) cs

theorem Word.unsplit {extra : List String} (w : Word extra) : Unsplit w.text :=
  ⟨w.text_ne, argumentWords_isWordRest (Bool.and_eq_true _ _ ▸ w.form).2⟩

theorem unsplit_equals : Unsplit "=" := ⟨by decide, fun _ _ => rfl⟩

theorem Unsplit.isEmpty_reverse {w : String} (h : Unsplit w) :
    w.toList.reverse.isEmpty = false := by
  simpa using h.ne

theorem Unsplit.splitWords {w : String} (h : Unsplit w) : splitWords w = [w] := by
  have hsplit := h.split [] []
  rw [List.append_nil, List.append_nil] at hsplit
  rw [JavaOutline.splitWords, hsplit, argumentWords, h.isEmpty_reverse,
    List.reverse_reverse, String.ofList_toList]
  rfl

/-- A joined word is split off at the space after it. -/
theorem Unsplit.splitWords_cons {w : String} (h : Unsplit w) (v : String)
    (ws : List String) :
    JavaOutline.splitWords (joinWords (w :: v :: ws))
      = w :: JavaOutline.splitWords (joinWords (v :: ws)) := by
  rw [JavaOutline.splitWords, toList_joinWords_cons_cons, h.split,
    List.append_nil, argumentWords,
    if_pos ⟨rfl, rfl⟩, h.isEmpty_reverse, List.reverse_reverse,
    String.ofList_toList]
  rfl

/-- Joined words are split where they were joined. -/
theorem splitWords_joinWords {ws : List String} (h : ∀ w ∈ ws, Unsplit w) :
    splitWords (joinWords ws) = ws := by
  induction ws with
  | nil => rfl
  | cons w ws ih =>
      have hw := h w (by simp)
      cases ws with
      | nil => exact hw.splitWords
      | cons v ws =>
          rw [hw.splitWords_cons, ih fun u hu => h u (List.mem_cons_of_mem w hu)]

namespace FieldReading

theorem fold_leading (l : Leading) :
    (Logged.fold step {} l.parts).value
      = { access := l.accessText, modifiers := l.modifierTexts } :=
  Leading.fold_parts (fun access modifiers => ({ access, modifiers } : FieldReading))
    (fun _ => rfl) (fun _ _ _ => rfl) l

/-- The words of a group of two or more are read back. -/
theorem fold_ofWords {v w : String} {ws : List String}
    (h : ∀ u ∈ v :: w :: ws, Unsplit u) {r : FieldReading} (hr : r.words = []) :
    (Logged.fold step r (Part.ofWords (v :: w :: ws))).value
      = { r with words := v :: w :: ws } := by
  let last := (w :: ws).getLast (List.cons_ne_nil w ws)
  have hlast : (v :: w :: ws).dropLast ++ [last] = v :: w :: ws := by
    have h := List.dropLast_concat_getLast (List.cons_ne_nil v (w :: ws))
    rwa [List.getLast_cons (List.cons_ne_nil w ws)] at h
  have hinit : splitWords (joinWords (v :: w :: ws).dropLast)
      = (v :: w :: ws).dropLast :=
    splitWords_joinWords fun u hu => h u (List.dropLast_subset _ hu)
  have hend : splitWords (joinWords [last]) = [last] := by
    refine splitWords_joinWords fun u hu => ?_
    rw [List.mem_singleton.mp hu]
    exact h _ (List.mem_cons_of_mem v (List.getLast_mem _))
  show ({ r with words := r.words ++ splitWords (joinWords (v :: w :: ws).dropLast)
    ++ splitWords (joinWords [last]) } : FieldReading) = _
  rw [hr, hinit, hend, List.nil_append, hlast]

end FieldReading

/-- The field that a type, a name and perhaps an initializer declare. -/
theorem Field.ofParts?_written (l : Leading) {type name : String}
    {ws : List String} (h : ∀ w ∈ type :: name :: ws, Unsplit w)
    (ht : holds '=' type = false) (hn : holds '=' name = false)
    (hws : ws = [] ∨ ∃ vs, ws = "=" :: vs) :
    (Field.ofParts? (l.parts ++ Part.ofWords (type :: name :: ws)) 0 "").value
      = some { type, name, access := l.accessText,
               modifiers := l.modifierTexts } := by
  have hinit : declaratorWords ws = [] := by
    rcases hws with rfl | ⟨vs, rfl⟩ <;> rfl
  have hdeclarator : declaratorWords (type :: name :: ws) = [type, name] := by
    rw [declaratorWords, ht, declaratorWords, hn, hinit]
    rfl
  rw [Field.ofParts?, Logged.value_bind, Logged.fold_append, Logged.value_bind,
    FieldReading.fold_leading, FieldReading.fold_ofWords h rfl]
  simp only [hdeclarator]
  rfl

/-! ### Headers -/

/-- A name has no type parameters. -/
theorem Name.withoutParameters {extra : List String} (n : Name extra) :
    withoutParameters n.text = n.text := by
  have hall : ∀ c ∈ n.text.toList, (c != '<') = true := by
    intro c hc
    rw [bne_iff_ne]
    rintro rfl
    exact absurd (isNameChar_of_isName n.form '<' hc) (by decide)
  have hbefore : before '<' n.text = n.text := by
    have htake : (n.text.toList ++ []).takeWhile (fun c => c != '<')
        = n.text.toList ++ [] := List.takeWhile_append_of_pos hall
    rw [List.append_nil] at htake
    rw [before, htake, String.ofList_toList]
  rw [JavaOutline.withoutParameters, hbefore]
  exact if_neg n.text_ne

namespace Draft

/-- The names of a clause of a header, which `state` collects. -/
theorem fold_clause (kind : PartKind) (slot : HeaderSlot)
    (state : List String → Draft)
    (hmark : ∀ r, (headerStep r ⟨kind, ""⟩).value = (r.1, slot))
    (hname : ∀ done n, (headerStep (state done, slot) ⟨.identifier, n⟩).value
      = (state (done ++ [n]), slot))
    (names : List String) (start : HeaderSlot) :
    ∃ last, (Logged.fold headerStep (state [], start)
      (clauseParts kind names)).value = (state names, last) := by
  rw [clauseParts]
  split
  · next h =>
      rw [h]
      exact ⟨start, rfl⟩
  · refine ⟨slot, ?_⟩
    rw [Logged.fold, Logged.value_bind, hmark]
    exact Logged.fold_map _ (fun ns => (state ns, slot)) hname names

/-- The parts of a header: leading keywords, the keyword and the name of the
    type, and what it extends and implements. -/
def headerParts (l : Leading) (word name : String) (ps is : List String) :
    List Part :=
  l.parts ++ [⟨.typeWord, word⟩, ⟨.identifier, name⟩]
    ++ clauseParts .extending ps ++ clauseParts .implementing is

/-- The header of a type, read into a draft that knows its kind, package and
    imports only. -/
theorem applyHeader_headerParts {extra : List String} (l : Leading)
    (k : TypeKind) (name : Name extra) (ps is : List String)
    (packageName : String) (dependencies : List String) :
    (applyHeader { kind := some k, packageName, dependencies }
        (headerParts l k.word name.text ps is) {} "").value
      = { kind := some k, packageName, dependencies
          name := name.text
          access := l.accessText
          modifiers := l.modifierTexts
          parents := ps
          interfaces := is } := by
  have hleading := Leading.fold_parts (f := headerStep)
    (fun access modifiers =>
      (({ kind := some k, packageName, dependencies, access, modifiers } : Draft),
        HeaderSlot.free)) (fun _ => rfl) (fun _ _ _ => rfl) l
  let d : Draft :=
    { kind := some k, packageName, dependencies
      name := name.text
      access := l.accessText
      modifiers := l.modifierTexts }
  obtain ⟨slot, hparents⟩ := fold_clause .extending .parent
    (fun ns => { d with parents := ns }) (fun _ => rfl) (fun _ _ => rfl) ps .free
  obtain ⟨slot', hinterfaces⟩ := fold_clause .implementing .interface
    (fun ns => { d with parents := ps, interfaces := ns })
    (fun _ => rfl) (fun _ _ => rfl) is slot
  have hname : (Logged.fold headerStep
      ({ kind := some k, packageName, dependencies
         access := l.accessText
         modifiers := l.modifierTexts }, .free)
      [⟨.typeWord, k.word⟩, ⟨.identifier, name.text⟩]).value = (d, .free) := by
    show (({ d with name := withoutParameters name.text } : Draft), _) = _
    rw [name.withoutParameters]
  rw [applyHeader, Logged.value_bind, headerParts, Logged.fold_append,
    Logged.value_bind, Logged.fold_append, Logged.value_bind,
    Logged.fold_append, Logged.value_bind]
  rw [hleading, hname, hparents, hinterfaces]
  rfl

end Draft

/-! ### Constants -/

/-- Constants go on where the ones before them end. -/
theorem EnumConstant.ofParts_identifiers (done names : List String) :
    numbered done ++ (EnumConstant.ofParts (numbered done).length
        (names.map fun n => ⟨.identifier, n⟩)).value
      = numbered (done ++ names) := by
  have hread := Logged.fold_map (f := EnumConstant.step (numbered done).length)
    (fun n => ⟨.identifier, n⟩)
    (fun ns => ns.mapIdx fun i n => ⟨n, toString (i + done.length)⟩) ?_ names
  · rw [EnumConstant.ofParts, numbered, numbered, List.mapIdx_append]
    exact congrArg _ hread
  · intro ns n
    have hnumber : (((numbered done).length : Int)
        + ((ns.mapIdx fun i n =>
          (⟨n, toString (i + done.length)⟩ : EnumConstant)).length : Int))
        = ((ns.length + done.length : Nat) : Int) := by
      simp only [numbered, List.length_mapIdx]
      omega
    show _ ++ [(⟨n, toString _⟩ : EnumConstant)] = _
    rw [hnumber, List.mapIdx_append]
    show _ = _ ++ [(⟨n, toString (0 + ns.length + done.length)⟩ : EnumConstant)]
    rw [Nat.zero_add]
    rfl

end JavaOutline
