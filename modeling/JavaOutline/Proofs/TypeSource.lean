import JavaOutline.Declaration.Basic
import JavaOutline.Proofs.Layout

/-! # Type declarations as they are written

    A `TypeSource` is all that a file with one plain type declaration says:
    package, imports, header, constants and members.  It is written as two
    lists of lexemes, the head and the inside of the braces, and a source
    renders it if it lays these out in any way (`TypeSource.Renders`).
    `TypeSource.declaration` is what an outline of it has to say.

    Names and words carry the proof that they are well formed, so every
    `TypeSource` can be written down: `TypeSource.text` is a source that
    renders it. -/

namespace JavaOutline

open Source

/-! ## Names and words -/

/-- A character of a name. -/
def isNameChar (c : Char) : Bool := c.isAlphanum || c == '_' || c == '$'

/-- A name: letters, digits, underscores and dollar signs after a letter. -/
def isName : List Char → Bool
  | [] => false
  | c :: cs => c.isAlpha && cs.all isNameChar

/-- A word that is no keyword: a name, a dotted name, a number, or a type with
    its type arguments. -/
structure Word (extra : List String) where
  text : String
  form : isWord text.toList = true
  plain : Keyword.isKeyword extra text = false

/-- A name that is no keyword. -/
structure Name (extra : List String) where
  text : String
  form : isName text.toList = true
  plain : Keyword.isKeyword extra text = false

/-- The characters of a word. -/
theorem isWordRest_char {w : List Char} {n : Nat} {p : Char}
    (h : isWordRest n p w = true) : ∀ c ∈ w, c ≠ '/' ∧ c ≠ '@' ∧ c ≠ '=' := by
  induction w generalizing n p with
  | nil =>
      intro c hc
      cases hc
  | cons d w ih =>
      rw [isWordRest] at h
      split at h
      · next hd =>
          obtain ⟨h1, -, -, -, h2, h3⟩ := angleStep_char hd
          intro c hc
          rcases List.mem_cons.mp hc with rfl | hc
          · exact ⟨h1, h2, h3⟩
          · exact ih h c hc
      · cases h

theorem isWordChar_of_isNameChar {c : Char} (h : isNameChar c = true) :
    isWordChar c = true := by
  rw [isWordChar_iff]
  refine ⟨?_, ?_, ?_, ?_, ?_, ?_, ?_, ?_, ?_, ?_, ?_, ?_, ?_, ?_, ?_, ?_, ?_, ?_⟩ <;>
  · rintro rfl
    exact absurd h (by decide)

theorem isWordRest_of_isNameChar {cs : List Char}
    (h : ∀ c ∈ cs, isNameChar c = true) (p : Char) :
    isWordRest 0 p cs = true := by
  induction cs generalizing p with
  | nil => rfl
  | cons c cs ih =>
      have hc := isWordChar_of_isNameChar (h c (by simp))
      have hne := isWordChar_iff.mp hc
      have hstep : angleStep 0 p c = some 0 := by simp [angleStep, hne, hc]
      rw [isWordRest, hstep]
      exact ih (fun d hd => h d (by simp [hd])) c

theorem isNameChar_of_isName {cs : List Char} (h : isName cs = true) :
    ∀ c ∈ cs, isNameChar c = true := by
  cases cs with
  | nil => exact nomatch h
  | cons c cs =>
      rw [isName, Bool.and_eq_true] at h
      intro d hd
      rcases List.mem_cons.mp hd with rfl | hd
      · simp [isNameChar, Char.isAlphanum, h.1]
      · exact List.all_eq_true.mp h.2 d hd

theorem isWord_of_isName {cs : List Char} (h : isName cs = true) :
    isWord cs = true := by
  have hrest := isWordRest_of_isNameChar (isNameChar_of_isName h)
  cases cs with
  | nil => exact nomatch h
  | cons c cs =>
      rw [isWord, hrest]
      rfl

/-- A name is a word. -/
def Name.word {extra : List String} (n : Name extra) : Word extra :=
  ⟨n.text, isWord_of_isName n.form, n.plain⟩

/-! ## Declarations -/

/-- The keywords before a declaration. -/
structure Leading where
  access : Option { w : String // w ∈ Keyword.accessWords }
  modifiers : List { w : String // w ∈ Keyword.modifierWords }

/-- What a field starts with: one or more words after an equals sign. -/
structure Initializer (extra : List String) where
  head : Word extra
  tail : List (Word extra)
  /-- The equals sign is not among the extra keywords. -/
  plain : Keyword.isKeyword extra "=" = false

/-- A member of a type. -/
inductive Member (extra : List String) where
  | field (leading : Leading) (type : Word extra) (name : Name extra)
      (init : Option (Initializer extra))
  /-- A method, or without a return type a constructor; `body` says whether it
      ends with a body or with a semicolon. -/
  | method (leading : Leading) (returnType : Option (Word extra))
      (name : Name extra) (params : List (Word extra × Name extra))
      (thrown : List (Word extra)) (body : Bool)
  /-- A class inside the type. -/
  | nested (leading : Leading) (name : Name extra)

/-- What only one kind of type has. -/
inductive Outlook (extra : List String) where
  | ofClass (parent : Option (Word extra)) (interfaces : List (Word extra))
  | ofInterface (parents : List (Word extra))
  /-- The constants are closed by a semicolon. -/
  | ofEnum (interfaces : List (Word extra)) (constants : List (Name extra))

/-- What a file with one plain type declaration says. -/
structure TypeSource (extra : List String) where
  packageName : Option (Word extra)
  imports : List (Word extra)
  leading : Leading
  name : Name extra
  outlook : Outlook extra
  members : List (Member extra)

/-! ## Lexemes -/

section

variable {extra : List String}

/-- Groups of lexemes with commas between them. -/
def separated : List (List Lexeme) → List Lexeme
  | [] => []
  | [g] => g
  | g :: h :: gs => g ++ .mark .comma :: separated (h :: gs)

def Word.lexeme (w : Word extra) : Lexeme := .word w.text

def Name.lexeme (n : Name extra) : Lexeme := .word n.text

/-- A keyword and the names it announces, if there are any. -/
def clause (keyword : String) (names : List (Word extra)) : List Lexeme :=
  if names.isEmpty then []
  else .word keyword :: separated (names.map fun n => [n.lexeme])

def Leading.accessTexts (l : Leading) : List String :=
  l.access.toList.map Subtype.val

def Leading.modifierTexts (l : Leading) : List String :=
  l.modifiers.map Subtype.val

def Leading.lexemes (l : Leading) : List Lexeme :=
  (l.accessTexts ++ l.modifierTexts).map .word

def Initializer.words (i : Initializer extra) : List (Word extra) :=
  i.head :: i.tail

def Initializer.lexemes (i : Initializer extra) : List Lexeme :=
  .word "=" :: i.words.map Word.lexeme

def paramLexemes (params : List (Word extra × Name extra)) : List Lexeme :=
  separated (params.map fun p => [p.1.lexeme, p.2.lexeme])

def Member.lexemes : Member extra → List Lexeme
  | .field leading type name init =>
    leading.lexemes ++ [type.lexeme, name.lexeme]
      ++ init.elim [] Initializer.lexemes ++ [.mark .semicolon]
  | .method leading returnType name params thrown body =>
    leading.lexemes ++ returnType.toList.map Word.lexeme
      ++ [name.lexeme, .mark .openParen] ++ paramLexemes params
      ++ .mark .closeParen :: clause "throws" thrown
      ++ [if body then .block else .mark .semicolon]
  | .nested leading name =>
    leading.lexemes ++ [.word "class", name.lexeme, .block]

namespace Outlook

def kind : Outlook extra → TypeKind
  | .ofClass .. => .classKind
  | .ofInterface .. => .interfaceKind
  | .ofEnum .. => .enumKind

def parents : Outlook extra → List (Word extra)
  | .ofClass parent _ => parent.toList
  | .ofInterface parents => parents
  | .ofEnum .. => []

def interfaces : Outlook extra → List (Word extra)
  | .ofClass _ interfaces => interfaces
  | .ofInterface _ => []
  | .ofEnum interfaces _ => interfaces

/-- The constants and the semicolon that closes them. -/
def lexemes : Outlook extra → List Lexeme
  | .ofEnum _ constants =>
    separated (constants.map fun c => [c.lexeme]) ++ [.mark .semicolon]
  | _ => []

end Outlook

namespace TypeSource

/-- The lexemes before the braces. -/
def head (s : TypeSource extra) : List Lexeme :=
  (s.packageName.toList.flatMap fun n =>
      [.word "package", n.lexeme, .mark .semicolon])
    ++ (s.imports.flatMap fun n =>
      [.word "import", n.lexeme, .mark .semicolon])
    ++ s.leading.lexemes ++ [.word s.outlook.kind.word, s.name.lexeme]
    ++ clause "extends" s.outlook.parents
    ++ clause "implements" s.outlook.interfaces

/-- The lexemes between the braces. -/
def body (s : TypeSource extra) : List Lexeme :=
  s.outlook.lexemes ++ s.members.flatMap Member.lexemes

/-- The source lays out the type and nothing else. -/
def Renders (s : TypeSource extra) (source : String) : Prop :=
  ∃ p x t, source = String.ofList (p ++ '{' :: (x ++ '}' :: t))
    ∧ Laid false s.head p ∧ Laid false s.body x ∧ Laid false [] t

end TypeSource

/-! ## Plain layouts -/

/-- A word lexeme is read as one word. -/
def Lexeme.Formed (l : Lexeme) : Prop := ∀ w, l = .word w → WordForm w.toList

def Lexeme.chars : Lexeme → List Char
  | .word w => w.toList
  | .mark m => [m.char]
  | .block => ['{', '}']

/-- The lexemes with a space after each. -/
def spaced (ls : List Lexeme) : List Char := ls.flatMap fun l => l.chars ++ [' ']

theorem laid_spaced {ls : List Lexeme} (h : ∀ l ∈ ls, l.Formed) :
    Laid false ls (spaced ls) := by
  induction ls with
  | nil => exact .nil
  | cons l ls ih =>
      have hrest : ∀ b, Laid b ls (' ' :: spaced ls) := fun _ =>
        .gap rfl (ih fun k hk => h k (by simp [hk]))
      rw [show spaced (l :: ls) = l.chars ++ ' ' :: spaced ls by simp [spaced]]
      cases l with
      | word w =>
          have hw := Laid.word (h _ (by simp) w rfl) (hrest true)
          rwa [String.ofList_toList] at hw
      | mark m => exact .mark (hrest false)
      | block => exact .block .nil (hrest false)

theorem formed_mark (m : Mark) : (Lexeme.mark m).Formed := fun _ h => nomatch h

theorem formed_block : Lexeme.block.Formed := fun _ h => nomatch h

theorem formed_word {w : String} (h : isWord w.toList = true) :
    (Lexeme.word w).Formed := by
  rintro v ⟨⟩
  exact .word h

theorem Word.formed (w : Word extra) : w.lexeme.Formed := formed_word w.form

theorem Name.formed (n : Name extra) : n.lexeme.Formed :=
  formed_word (isWord_of_isName n.form)

/-- Between groups there are commas only. -/
theorem mem_separated {gs : List (List Lexeme)} {l : Lexeme}
    (h : l ∈ separated gs) : l = .mark .comma ∨ ∃ g ∈ gs, l ∈ g := by
  fun_induction separated gs with
  | case1 => exact nomatch h
  | case2 g => exact .inr ⟨g, by simp, h⟩
  | case3 g k gs ih =>
      rcases List.mem_append.mp h with h | h
      · exact .inr ⟨g, by simp, h⟩
      · rcases List.mem_cons.mp h with rfl | h
        · exact .inl rfl
        · exact (ih h).imp_right fun ⟨g', hg', hl⟩ =>
            ⟨g', List.mem_cons_of_mem g hg', hl⟩

theorem formed_separated {gs : List (List Lexeme)}
    (h : ∀ g ∈ gs, ∀ l ∈ g, l.Formed) : ∀ l ∈ separated gs, l.Formed := by
  intro l hl
  rcases mem_separated hl with rfl | ⟨g, hg, hlg⟩
  · exact formed_mark .comma
  · exact h g hg l hlg

theorem formed_clause {keyword : String} (hk : isWord keyword.toList = true)
    (names : List (Word extra)) : ∀ l ∈ clause keyword names, l.Formed := by
  intro l hl
  rw [clause] at hl
  split at hl
  · exact nomatch hl
  · rcases List.mem_cons.mp hl with rfl | hl
    · exact formed_word hk
    · refine formed_separated ?_ l hl
      simp only [List.mem_map]
      rintro _ ⟨n, -, rfl⟩ k hk
      rw [List.mem_singleton.mp hk]
      exact n.formed

theorem block_not_mem_clause (keyword : String) (names : List (Word extra)) :
    Lexeme.block ∉ clause keyword names := by
  rw [clause]
  split
  · exact List.not_mem_nil
  · intro h
    rcases List.mem_cons.mp h with h | h
    · exact nomatch h
    · rcases mem_separated h with h | ⟨g, hg, hl⟩
      · exact nomatch h
      · obtain ⟨n, -, rfl⟩ := List.mem_map.mp hg
        exact nomatch List.mem_singleton.mp hl

theorem Leading.mem_accessTexts {l : Leading} {w : String}
    (h : w ∈ l.accessTexts) : w ∈ Keyword.accessWords := by
  obtain ⟨a, -, rfl⟩ := List.mem_map.mp h
  exact a.property

theorem Leading.mem_modifierTexts {l : Leading} {w : String}
    (h : w ∈ l.modifierTexts) : w ∈ Keyword.modifierWords := by
  obtain ⟨m, -, rfl⟩ := List.mem_map.mp h
  exact m.property

theorem Leading.formed (l : Leading) : ∀ x ∈ l.lexemes, x.Formed := by
  have haccess : ∀ w ∈ Keyword.accessWords, isWord w.toList = true := by decide
  have hmodifier : ∀ w ∈ Keyword.modifierWords, isWord w.toList = true := by
    decide
  intro x hx
  obtain ⟨w, hw, rfl⟩ := List.mem_map.mp hx
  rcases List.mem_append.mp hw with hw | hw
  · exact formed_word (haccess w (mem_accessTexts hw))
  · exact formed_word (hmodifier w (mem_modifierTexts hw))

theorem Initializer.formed (i : Initializer extra) :
    ∀ x ∈ i.lexemes, x.Formed := by
  intro x hx
  rcases List.mem_cons.mp hx with rfl | hx
  · rintro w ⟨⟩
    exact .equals
  · obtain ⟨w, -, rfl⟩ := List.mem_map.mp hx
    exact w.formed

theorem Member.formed (m : Member extra) : ∀ x ∈ m.lexemes, x.Formed := by
  cases m with
  | field leading type name init =>
      simp only [Member.lexemes, List.forall_mem_append, List.forall_mem_cons]
      refine ⟨⟨⟨leading.formed, type.formed, name.formed, by simp⟩, ?_⟩,
        formed_mark _, by simp⟩
      cases init with
      | none => simp
      | some i => exact i.formed
  | method leading returnType name params thrown body =>
      simp only [Member.lexemes, List.forall_mem_append, List.forall_mem_cons,
        List.forall_mem_map]
      refine ⟨⟨⟨⟨⟨leading.formed, fun w _ => w.formed⟩, name.formed,
        formed_mark _, by simp⟩, formed_separated ?_⟩, formed_mark _,
        formed_clause (by decide) thrown⟩, ?_, by simp⟩
      · simp only [List.mem_map]
        rintro _ ⟨p, -, rfl⟩
        simp only [List.forall_mem_cons]
        exact ⟨p.1.formed, p.2.formed, by simp⟩
      · cases body with
        | true => exact formed_block
        | false => exact formed_mark _
  | nested leading name =>
      simp only [Member.lexemes, List.forall_mem_append, List.forall_mem_cons]
      exact ⟨leading.formed, formed_word (by decide), name.formed, formed_block,
        by simp⟩

namespace TypeSource

/-- A source that renders the type. -/
def text (s : TypeSource extra) : String :=
  String.ofList (spaced s.head ++ '{' :: (spaced s.body ++ '}' :: []))

theorem formed_head (s : TypeSource extra) : ∀ x ∈ s.head, x.Formed := by
  have hname : ∀ (keyword : String), isWord keyword.toList = true →
      ∀ ns : List (Word extra), ∀ x ∈ ns.flatMap
        (fun n => [.word keyword, n.lexeme, .mark .semicolon]), x.Formed := by
    intro keyword hk ns x hx
    obtain ⟨n, -, hx⟩ := List.mem_flatMap.mp hx
    have hall : ∀ x ∈ [.word keyword, n.lexeme, .mark .semicolon],
        Lexeme.Formed x := by
      simp only [List.forall_mem_cons]
      exact ⟨formed_word hk, n.formed, formed_mark _, by simp⟩
    exact hall x hx
  have hkind : ∀ k : TypeKind, isWord k.word.toList = true := by
    intro k
    cases k <;> decide
  simp only [head, List.forall_mem_append, List.forall_mem_cons]
  exact ⟨⟨⟨⟨⟨hname _ (by decide) _, hname _ (by decide) _⟩, s.leading.formed⟩,
    formed_word (hkind _), s.name.formed, by simp⟩,
    formed_clause (by decide) _⟩, formed_clause (by decide) _⟩

theorem formed_body (s : TypeSource extra) : ∀ x ∈ s.body, x.Formed := by
  simp only [body, List.forall_mem_append]
  constructor
  · cases s.outlook with
    | ofEnum _ constants =>
        simp only [Outlook.lexemes, List.forall_mem_append, List.forall_mem_cons]
        refine ⟨formed_separated ?_, formed_mark _, by simp⟩
        simp only [List.mem_map]
        rintro _ ⟨c, -, rfl⟩ k hk
        rw [List.mem_singleton.mp hk]
        exact c.formed
    | _ => exact fun x hx => nomatch hx
  · intro x hx
    obtain ⟨m, -, hx⟩ := List.mem_flatMap.mp hx
    exact m.formed x hx

/-- There are no braces before the type's own. -/
theorem block_not_mem_head (s : TypeSource extra) : Lexeme.block ∉ s.head := by
  have hname : ∀ (keyword : String) (ns : List (Word extra)),
      Lexeme.block ∉ ns.flatMap fun n =>
        [.word keyword, n.lexeme, .mark .semicolon] := by
    intro keyword ns h
    simp [Word.lexeme] at h
  simp [head, hname, block_not_mem_clause, Leading.lexemes, Name.lexeme]

/-- Every type can be written down. -/
theorem renders_text (s : TypeSource extra) : s.Renders s.text :=
  ⟨_, _, [], rfl, laid_spaced s.formed_head, laid_spaced s.formed_body, .nil⟩

end TypeSource

/-! ## What the outline has to say -/

def Leading.accessText (l : Leading) : String := l.accessTexts.headD ""

/-- The field that a member declares. -/
def Member.field? : Member extra → Option Field
  | .field leading type name _ =>
    some { type := type.text, name := name.text,
           access := leading.accessText, modifiers := leading.modifierTexts }
  | _ => none

/-- The method that a member declares.  A constructor returns what it is named
    after. -/
def Member.method? : Member extra → Option Method
  | .method leading returnType name params thrown _ =>
    some {
      name := name.text
      returnType := (returnType.map Word.text).getD name.text
      parameters := params.map fun p => { type := p.1.text, name := p.2.text }
      access := leading.accessText
      modifiers := leading.modifierTexts
      exceptions := thrown.map fun t => { type := t.text } }
  | _ => none

/-- Names as constants, numbered from zero. -/
def numbered (names : List String) : List EnumConstant :=
  names.mapIdx fun i n => ⟨n, toString i⟩

def Outlook.shape : Outlook extra → Shape
  | .ofClass parent interfaces =>
    .classShape ((parent.map Word.text).getD "") (interfaces.map Word.text)
  | .ofInterface parents => .interfaceShape (parents.map Word.text)
  | .ofEnum interfaces constants =>
    .enumShape (interfaces.map Word.text) (numbered (constants.map Name.text))

/-- The declaration that the source is read back as, line numbers aside. -/
def TypeSource.declaration (s : TypeSource extra) : Declaration where
  name := s.name.text
  packageName := (s.packageName.map Word.text).getD ""
  dependencies := s.imports.map Word.text
  access := s.leading.accessText
  modifiers := s.leading.modifierTexts
  fields := s.members.filterMap Member.field?
  methods := s.members.filterMap Member.method?
  shape := s.outlook.shape

end

end JavaOutline
