import JavaOutline.Proofs.SettledFields

/-! # Statements before a brace

    Outside any type a statement that an opening brace ends is passed over, or it is
    read as a field or as a method.  Which of these it is shows in the statement
    itself.

      * `Statement.Formed` holds of every statement that a walk gathers from words
        that are not empty: a type in it is followed by an identifier.
      * `MethodReading.fold_hasName` says when the reader of methods finds a name: an
        identifier stands before the first `throws`.
      * `Statement.not_declares_iff` puts this together: a field has two words before its
        equals sign, and a method has a name. -/

namespace JavaOutline

open Source Text

/-! ## The parts of a statement -/

/-- Parts of which every type is followed by an identifier. -/
inductive Paired : List Part → Prop where
  | nil : Paired []
  | identifier {w : String} {ps : List Part} (hw : w ≠ "") :
      Paired ps → Paired (⟨.identifier, w⟩ :: ps)
  | typed {v w : String} {ps : List Part} (hv : v ≠ "") (hw : w ≠ "") :
      Paired ps → Paired (⟨.typeName, v⟩ :: ⟨.identifier, w⟩ :: ps)
  | keyword {p : Part} {ps : List Part} (ht : p.kind ≠ .typeName)
      (hi : p.kind ≠ .identifier) : Paired ps → Paired (p :: ps)

theorem Paired.append {ps qs : List Part} (hp : Paired ps) (hq : Paired qs) :
    Paired (ps ++ qs) := by
  induction hp with
  | nil => exact hq
  | identifier hw _ ih => exact .identifier hw ih
  | typed hv hw _ ih => exact .typed hv hw ih
  | keyword ht hi _ ih => exact .keyword ht hi ih

/-- Words that are not empty, one after another, are not empty. -/
theorem joinWords_ne {w : String} {ws : List String} (hw : w ≠ "") :
    joinWords (w :: ws) ≠ "" := by
  cases ws with
  | nil => exact hw
  | cons v ws =>
      intro h
      have hlist := toList_joinWords_cons_cons w v ws
      rw [h] at hlist
      cases hw' : w.toList <;> simp [hw'] at hlist

theorem paired_ofWords {ws : List String} (h : ∀ w ∈ ws, w ≠ "") :
    Paired (Part.ofWords ws) := by
  fun_cases Part.ofWords ws with
  | case1 => exact .nil
  | case2 w => exact .identifier (h w List.mem_cons_self) .nil
  | case3 w v ws =>
      refine .typed ?_ (h _ (List.mem_cons_of_mem w (List.getLast_mem _))) .nil
      rw [List.dropLast_cons_cons]
      exact joinWords_ne (h w List.mem_cons_self)

namespace Statement

variable {s : Statement}

/-- A statement without empty words. -/
structure Formed (s : Statement) : Prop where
  words : ∀ w ∈ s.words, w ≠ ""
  parts : Paired s.parts

theorem formed_start : Formed {} := ⟨by simp, .nil⟩

theorem Formed.flush (h : s.Formed) : s.flush.Formed :=
  ⟨by simp [Statement.flush], h.parts.append (paired_ofWords h.words)⟩

theorem Formed.add (h : s.Formed) {p : Part} (ht : p.kind ≠ .typeName)
    (hi : p.kind ≠ .identifier) : (s.add p).Formed :=
  ⟨h.words, h.parts.append (.keyword ht hi .nil)⟩

theorem Formed.addWord (h : s.Formed) {w : String} (hw : w ≠ "") :
    (s.addWord w).Formed := by
  refine ⟨fun v hv => ?_, h.parts⟩
  rcases List.mem_append.mp hv with hv | hv
  · exact h.words v hv
  · rw [List.mem_singleton.mp hv]
    exact hw

end Statement

/-! ## Names of methods -/

/-- An identifier stands before the first `throws`. -/
def Part.named (ps : List Part) : Bool :=
  (ps.takeWhile fun p => p.kind != .throwing).any fun p => p.kind == .identifier

namespace MethodReading

variable {r : MethodReading} {ps : List Part}

/-- A name has been read, or the identifier that stands for one. -/
def HasName (r : MethodReading) : Prop := r.name ≠ "" ∨ r.isConstructor = true

theorem identifier_of_exception (hs : r.slot = .exception) (w : String) :
    r.identifier w = pure { r with thrown := r.thrown ++ [w] } := by
  rw [identifier, hs]

theorem identifier_of_free (hs : r.slot = .free) (w : String) :
    (r.identifier w).value
      = if r.name = "" ∧ r.returnType = "" then
          { r with returnType := w, isConstructor := true }
        else r := by
  rw [identifier, hs]
  dsimp only
  split <;> rfl

/-- Among exceptions no name is read. -/
theorem fold_hasName_of_exception (hs : r.slot = .exception) (ps : List Part) :
    (Logged.fold step r ps).value.HasName ↔ r.HasName := by
  induction ps generalizing r with
  | nil => exact Iff.rfl
  | cons p ps ih =>
      have hstep : (r.step p).value.slot = .exception
          ∧ (r.step p).value.name = r.name
          ∧ (r.step p).value.isConstructor = r.isConstructor := by
        rw [step]
        split
        · rw [identifier_of_exception hs]
          exact ⟨hs, rfl, rfl⟩
        · rw [typeName, if_pos hs]
          exact ⟨hs, rfl, rfl⟩
        · exact ⟨hs, rfl, rfl⟩
        · exact ⟨hs, rfl, rfl⟩
        · exact ⟨rfl, rfl, rfl⟩
        · exact ⟨hs, rfl, rfl⟩
      rw [Logged.fold, Logged.value_bind, ih hstep.1, HasName, HasName, hstep.2.1, hstep.2.2]

/-- A keyword changes neither name nor return type, and only `throws` changes what
    the next identifier stands for. -/
theorem step_keyword (r : MethodReading) {p : Part} (ht : p.kind ≠ .typeName)
    (hi : p.kind ≠ .identifier) :
    (r.step p).value.name = r.name ∧ (r.step p).value.returnType = r.returnType
      ∧ (r.step p).value.isConstructor = r.isConstructor
      ∧ (r.step p).value.slot = if p.kind = .throwing then .exception else r.slot := by
  rw [step]
  cases hk : p.kind with
  | identifier => exact absurd hk hi
  | typeName => exact absurd hk ht
  | _ => exact ⟨rfl, rfl, rfl, rfl⟩

/-- A type and an identifier are the name with its return type, or a parameter. -/
theorem fold_typed (hs : r.slot = .free) (v w : String) (ps : List Part) :
    (Logged.fold step r (⟨.typeName, v⟩ :: ⟨.identifier, w⟩ :: ps)).value
      = (Logged.fold step
          (if r.returnType = "" then { r with returnType := v, name := w }
          else { r with params := r.params ++ [{ type := v, name := w }], paramType := "" })
          ps).value := by
  have hne : ¬ r.slot = .exception := by
    rw [hs]
    decide
  rw [Logged.fold, Logged.value_bind, step, typeName, if_neg hne]
  by_cases hr : r.returnType = ""
  · rw [if_pos hr, if_pos hr, hs]
    rfl
  · rw [if_neg hr, if_neg hr, hs]
    rfl

/-- A name that has been read stays. -/
theorem fold_hasName_of_hasName (hr : r.HasName) (hs : r.slot = .free)
    (hp : Paired ps) : (Logged.fold step r ps).value.HasName := by
  induction hp generalizing r with
  | nil => exact hr
  | @identifier w ps _ _ ih =>
      rw [Logged.fold, Logged.value_bind, step, identifier_of_free hs]
      split
      · exact ih (.inr rfl) hs
      · exact ih hr hs
  | typed hv hw _ ih =>
      rw [fold_typed hs]
      split
      · exact ih (.inl hw) hs
      · exact ih hr hs
  | @keyword p ps ht hi _ ih =>
      obtain ⟨hname, -, hconstructor, hslot⟩ := r.step_keyword ht hi
      have hkept : (r.step p).value.HasName := by
        rw [HasName, hname, hconstructor]
        exact hr
      rw [Logged.fold, Logged.value_bind]
      by_cases hthrows : p.kind = .throwing
      · rw [if_pos hthrows] at hslot
        exact (fold_hasName_of_exception hslot ps).mpr hkept
      · rw [if_neg hthrows] at hslot
        exact ih hkept (hslot.trans hs)

/-- **A name is read just if an identifier stands before the first `throws`.** -/
theorem fold_hasName (hs : r.slot = .free) (hn : r.name = "") (ht : r.returnType = "")
    (hc : r.isConstructor = false) (hp : Paired ps) :
    (Logged.fold step r ps).value.HasName ↔ Part.named ps = true := by
  induction hp generalizing r with
  | nil => simp [Logged.fold, HasName, hn, hc, Part.named]
  | @identifier w ps _ hps _ =>
      refine iff_of_true ?_ rfl
      rw [Logged.fold, Logged.value_bind, step, identifier_of_free hs, if_pos ⟨hn, ht⟩]
      exact fold_hasName_of_hasName (.inr rfl) hs hps
  | @typed v w ps hv hw hps _ =>
      refine iff_of_true ?_ rfl
      rw [fold_typed hs, if_pos ht]
      exact fold_hasName_of_hasName (.inl hw) hs hps
  | @keyword p ps hkt hki _ ih =>
      obtain ⟨hname, htype, hconstructor, hslot⟩ := r.step_keyword hkt hki
      rw [Logged.fold, Logged.value_bind, Part.named]
      by_cases hthrows : p.kind = .throwing
      · rw [if_pos hthrows] at hslot
        rw [fold_hasName_of_exception hslot, HasName, hname, hconstructor]
        simp [hn, hc, hthrows]
      · rw [if_neg hthrows] at hslot
        rw [ih (hslot.trans hs) (hname.trans hn) (htype.trans ht) (hconstructor.trans hc),
          Part.named]
        simp [hthrows, hki]

/-- A method has no name just if none was read and none is pending. -/
theorem unnamed_iff (r : MethodReading) (pendingName : String) :
    (r.finalName pendingName = "" ∧ ¬ r.isConstructor = true)
      ↔ ¬ (r.HasName ∨ pendingName ≠ "") := by
  rw [finalName, HasName]
  by_cases hn : r.name = "" <;> cases hc : r.isConstructor <;> simp [hn]

end MethodReading

/-! ## What a statement declares -/

/-- The words of the types and identifiers among some parts. -/
def Part.fieldWords (ps : List Part) : List String :=
  (ps.filter fun p => p.kind == .typeName || p.kind == .identifier).flatMap fun p =>
    splitWords p.text

theorem FieldReading.words_fold (r : FieldReading) (ps : List Part) :
    (Logged.fold step r ps).value.words = r.words ++ Part.fieldWords ps := by
  induction ps generalizing r with
  | nil => exact (List.append_nil _).symm
  | cons p ps ih =>
      have hstep : (r.step p).value.words = r.words
          ++ if p.kind == .typeName || p.kind == .identifier then splitWords p.text else [] := by
        rw [step]
        cases p.kind with
        | typeName | identifier => rfl
        | _ => exact (List.append_nil r.words).symm
      rw [Logged.fold, Logged.value_bind, ih, hstep, Part.fieldWords, Part.fieldWords,
        List.filter_cons, List.append_assoc]
      split <;> rfl

namespace Statement

variable {s : Statement}

instance (s : Statement) : Decidable s.Kept :=
  decidable_of_iff (s.parts ≠ [] ∧ s.isNested = false ∧ s.isExecutable = false)
    ⟨fun h => ⟨h.1, h.2.1, h.2.2⟩, fun h => ⟨h.parts, h.nested, h.executable⟩⟩

/-- The field that a statement before a brace is read as. -/
def blockField? (s : Statement) : Option Field :=
  if s.Kept ∧ s.hasInitializer = true then s.field? else none

/-- The method that a statement before a brace is read as. -/
def blockMethod? (s : Statement) : Option Method :=
  if s.Kept ∧ s.hasInitializer = false then s.method? else none

/-- The statement is not passed over, and it has two words before its equals sign, or
    it has no equals sign but a name. -/
def Declares (s : Statement) : Prop :=
  s.Kept ∧ if s.hasInitializer = true then
    2 ≤ (declaratorWords (Part.fieldWords s.parts)).length
    else Part.named s.parts = true ∨ s.pendingName ≠ ""

instance (s : Statement) : Decidable s.Declares :=
  inferInstanceAs (Decidable (s.Kept ∧ if s.hasInitializer = true then
    2 ≤ (declaratorWords (Part.fieldWords s.parts)).length
    else Part.named s.parts = true ∨ s.pendingName ≠ ""))

theorem isSome_field?_iff :
    s.field?.isSome = true ↔ 2 ≤ (declaratorWords (Part.fieldWords s.parts)).length := by
  rw [field?, Field.ofParts?, Logged.value_bind, FieldReading.words_fold]
  show _ ↔ 2 ≤ (declaratorWords ([] ++ Part.fieldWords s.parts)).length
  rcases declaratorWords ([] ++ Part.fieldWords s.parts) with _ | ⟨v, _ | ⟨w, ws⟩⟩
  · exact iff_of_false Bool.false_ne_true (by simp)
  · exact iff_of_false Bool.false_ne_true (by simp)
  · exact iff_of_true rfl (by simp)

theorem isSome_method?_iff (h : Paired s.parts) :
    s.method?.isSome = true ↔ Part.named s.parts = true ∨ s.pendingName ≠ "" := by
  have hname := MethodReading.fold_hasName (r := {}) rfl rfl rfl rfl h
  rw [method?, Method.ofParts?, Logged.value_bind, ← hname]
  generalize (Logged.fold MethodReading.step {} s.parts).value = r
  by_cases hunnamed : r.finalName s.pendingName = "" ∧ ¬ r.isConstructor = true
  · simp only [if_pos hunnamed]
    exact iff_of_false Bool.false_ne_true ((r.unnamed_iff s.pendingName).mp hunnamed)
  · simp only [if_neg hunnamed]
    rw [r.unnamed_iff, Classical.not_not] at hunnamed
    exact iff_of_true rfl hunnamed

/-- **A statement that declares nothing is read neither as a field nor as a method.** -/
theorem not_declares_iff (h : Paired s.parts) :
    ¬ s.Declares ↔ s.blockField? = none ∧ s.blockMethod? = none := by
  rw [Declares, blockField?, blockMethod?, ← isSome_field?_iff, ← isSome_method?_iff h]
  by_cases hk : s.Kept
  · cases hi : s.hasInitializer <;> simp [hk]
  · simp [hk]

end Statement

/-! ## Words of a source -/

/-- The token is no empty word. -/
def Token.Worded (t : Token) : Prop := t.kind = .symbol → t.text ≠ ""

theorem Token.worded_ofWord (extra : List String) (n : Nat) {w : List Char} (hw : w ≠ []) :
    (Token.ofWord extra n (String.ofList w)).Worded := by
  intro _ htext
  exact hw (String.ofList_injective (htext.trans rfl))

namespace Gather

variable (extra : List String) (n : Nat)

theorem worded_wordToken (g : Gather) : ∀ t ∈ g.wordToken extra n, t.Worded := by
  intro t ht
  rw [wordToken] at ht
  split at ht
  · cases ht
  · next hword =>
      rw [List.mem_singleton.mp ht]
      refine Token.worded_ofWord extra n fun hnil => hword ?_
      rw [List.reverse_eq_nil_iff.mp hnil]
      rfl

theorem worded_delimiter (g : Gather) {kind : TokenKind} (hk : kind ≠ .symbol)
    (text : String) : ∀ t ∈ (g.delimiter extra n kind text).2, t.Worded := by
  intro t ht
  rw [delimiter] at ht
  split at ht
  · rcases List.mem_append.mp ht with ht | ht
    · exact worded_wordToken extra n g t ht
    · rw [List.mem_singleton.mp ht]
      exact fun hsymbol => absurd hsymbol hk
  · cases ht

theorem worded_mark (g : Gather) {w : List Char} (hw : w ≠ []) :
    ∀ t ∈ (g.mark extra n w).2, t.Worded := by
  intro t ht
  rcases List.mem_append.mp ht with ht | ht
  · exact worded_wordToken extra n g t ht
  · split at ht
    · rw [List.mem_singleton.mp ht]
      exact Token.worded_ofWord extra n hw
    · cases ht

theorem worded_step (g : Gather) (p : Piece) :
    ∀ t ∈ (g.step extra n p).2, t.Worded := by
  intro t ht
  cases p with
  | opener o =>
      refine worded_mark extra n g ?_ t ht
      cases o <;> decide
  | closer => exact worded_mark extra n g (by decide) t ht
  | literal c => cases ht
  | comment c =>
      simp only [step] at ht
      split at ht
      · exact worded_wordToken extra n g t ht
      · cases ht
  | code c =>
      simp only [step, code] at ht
      cases hr : CodeRole.of c with
      | openAngle | closeAngle | plain =>
          rw [hr] at ht
          cases ht
      | blank =>
          rw [hr] at ht
          dsimp only at ht
          split at ht
          · exact worded_wordToken extra n g t ht
          · cases ht
      | comma =>
          rw [hr] at ht
          dsimp only at ht
          split at ht
          · exact worded_delimiter extra n g (by decide) _ t ht
          · cases ht
      | delimiter kind =>
          rw [hr] at ht
          refine worded_delimiter extra n g ?_ _ t ht
          have hkind := isDelimiter_of_delimiterKind?
            (CodeRole.delimiterKind?_of_delimiter hr)
          rintro rfl
          cases hkind
      | openBrace =>
          rw [hr] at ht
          exact worded_delimiter extra n g (by decide) _ t ht
      | closeBrace =>
          rw [hr] at ht
          exact worded_wordToken extra n g t ht

theorem worded_run (g : Gather) (ps : List Piece) :
    ∀ t ∈ (g.run extra n ps).2, t.Worded := by
  induction ps generalizing g with
  | nil => exact worded_wordToken extra n g
  | cons p ps ih =>
      intro t ht
      rcases List.mem_append.mp ht with ht | ht
      · exact worded_step extra n g p t ht
      · exact ih _ t ht

end Gather

theorem worded_lineTokens (extra : List String) (ls : List (List Char)) :
    ∀ n s, ∀ t ∈ lineTokens extra n s ls, t.Worded := by
  have hline : ∀ {t : Token}, t.kind.isLine = true → t.Worded := by
    intro t ht hsymbol
    rw [hsymbol] at ht
    cases ht
  induction ls with
  | nil =>
      intro n s t ht
      cases ht
  | cons l ls ih =>
      intro n s t ht
      rw [lineTokens] at ht
      rcases List.mem_append.mp ht with ht | ht
      · rcases List.mem_cons.mp ht with rfl | ht
        · exact hline rfl
        · exact Gather.worded_run extra n _ _ t ht
      · rcases List.mem_cons.mp ht with rfl | ht
        · exact hline rfl
        · exact ih (n + 1) (s.next l) t ht

/-- **No word of a source is empty.** -/
theorem worded_tokenize (source : String) (extra : List String) :
    ∀ t ∈ tokenize source extra, t.Worded :=
  worded_lineTokens extra (lines source.toList) 1 {}

end JavaOutline
