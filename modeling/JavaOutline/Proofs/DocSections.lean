import JavaOutline.Doc.Comment

/-! # The sections of a doc comment

    A `DocSource` is a doc comment as it is written: a description, and sections
    that document parameters, exceptions and what is returned, each made of words
    of running text.  Reading the words of such a comment, with any stars of
    continuation lines between them, gives the record that it stands for
    (`DocSource.ofWords_eq_doc`).

    One word at a time only the open section grows; a tag closes it.  So the record
    is built section by section (`DocEntry.store`), and what remains is that joining
    and splitting at the first space are inverse to each other for words without
    blanks. -/

namespace JavaOutline

open Text

/-! ## Joined words -/

/-- A word with no blank and no brace that is neither a star nor a tag. -/
def isProse (w : List Char) : Bool :=
  !w.isEmpty && w != ['*'] && w.head? != some '@'
    && w.all fun c => !isBlank c && !DocWord.isBrace c

/-- A word of running text. -/
structure Prose where
  text : String
  form : isProse text.toList = true

theorem isProse_iff {w : List Char} :
    isProse w = true ↔ w ≠ [] ∧ w ≠ ['*'] ∧ w.head? ≠ some '@'
      ∧ ∀ c ∈ w, isBlank c = false ∧ DocWord.isBrace c = false := by
  simp [isProse, and_assoc]

namespace Prose

variable (w : Prose)

theorem chars_ne_nil : w.text.toList ≠ [] :=
  (isProse_iff.mp w.form).1

theorem text_ne_empty : w.text ≠ "" := by
  intro h
  exact w.chars_ne_nil (by rw [h]; rfl)

theorem text_ne_star : w.text ≠ "*" := by
  intro h
  exact (isProse_iff.mp w.form).2.1 (by rw [h]; rfl)

theorem head_ne : w.text.toList.head? ≠ some '@' :=
  (isProse_iff.mp w.form).2.2.1

theorem not_blank : ∀ c ∈ w.text.toList, isBlank c = false := fun c hc =>
  ((isProse_iff.mp w.form).2.2.2 c hc).1

theorem not_brace : ∀ c ∈ w.text.toList, DocWord.isBrace c = false := fun c hc =>
  ((isProse_iff.mp w.form).2.2.2 c hc).2

end Prose

/-- The texts of words. -/
def texts (ws : List Prose) : List String := ws.map Prose.text

/-- No blank at either end. -/
structure Trimmed (cs : List Char) : Prop where
  head : ∀ c ∈ cs.head?, isBlank c = false
  last : ∀ c ∈ cs.getLast?, isBlank c = false

theorem dropWhile_of_head {p : Char → Bool} {cs : List Char}
    (h : ∀ c ∈ cs.head?, p c = false) : cs.dropWhile p = cs := by
  cases cs with
  | nil => rfl
  | cons c cs => rw [List.dropWhile_cons_of_neg (by simp [h c rfl])]

theorem Trimmed.trim {s : String} (h : Trimmed s.toList) : trim s = s := by
  have hlast : ∀ c ∈ s.toList.reverse.head?, isBlank c = false := by
    rw [List.head?_reverse]
    exact h.last
  rw [Text.trim, trimChars, trimFront, dropWhile_of_head h.head, trimBack,
    dropWhile_of_head hlast, List.reverse_reverse, String.ofList_toList]

theorem Trimmed.join {u v : List Char} (hu : Trimmed u) (hv : Trimmed v)
    (hne : u ≠ []) (hne' : v ≠ []) : Trimmed (u ++ ' ' :: v) := by
  constructor
  · intro c hc
    apply hu.head
    cases u with
    | nil => exact absurd rfl hne
    | cons d u => exact hc
  · intro c hc
    apply hv.last
    obtain rfl | ⟨v, d, rfl⟩ := List.eq_nil_or_concat v
    · exact absurd rfl hne'
    · rw [List.concat_eq_append, ← List.cons_append, ← List.append_assoc,
        List.getLast?_concat] at hc
      rw [List.concat_eq_append, List.getLast?_concat]
      exact hc

/-- Joined words have no blank at the ends, and there is something between them if
    there is a word. -/
theorem Trimmed.joinWords {ws : List String}
    (h : ∀ w ∈ ws, w.toList ≠ [] ∧ Trimmed w.toList) :
    Trimmed (Text.joinWords ws).toList ∧ (ws ≠ [] → (Text.joinWords ws).toList ≠ []) := by
  induction ws with
  | nil => exact ⟨⟨nofun, nofun⟩, fun h => absurd rfl h⟩
  | cons w ws ih =>
      obtain ⟨⟨hne, hw⟩, hws⟩ := List.forall_mem_cons.mp h
      cases ws with
      | nil => exact ⟨hw, fun _ => hne⟩
      | cons v ws =>
          obtain ⟨htrim, hsome⟩ := ih hws
          rw [toList_joinWords_cons_cons w v ws]
          exact ⟨hw.join htrim hne (hsome nofun), by simp⟩

/-- A word without blanks has none at the ends. -/
theorem Trimmed.of_not_blank {cs : List Char} (h : ∀ c ∈ cs, isBlank c = false) :
    Trimmed cs :=
  ⟨fun c hc => h c (List.mem_of_mem_head? hc), fun c hc => h c (List.mem_of_mem_getLast? hc)⟩

theorem trimmed_joinWords (ws : List Prose) :
    Trimmed (joinWords (texts ws)).toList
      ∧ (ws ≠ [] → (joinWords (texts ws)).toList ≠ []) := by
  have hword : ∀ w ∈ texts ws, w.toList ≠ [] ∧ Trimmed w.toList := by
    intro _ hw
    obtain ⟨w, -, rfl⟩ := List.mem_map.mp hw
    exact ⟨w.chars_ne_nil, .of_not_blank w.not_blank⟩
  obtain ⟨htrim, hsome⟩ := Trimmed.joinWords hword
  exact ⟨htrim, fun h => hsome (by simpa [texts] using h)⟩

theorem trim_joinWords (ws : List Prose) :
    trim (joinWords (texts ws)) = joinWords (texts ws) :=
  (trimmed_joinWords ws).1.trim

theorem joinWords_eq_empty_iff (ws : List Prose) :
    joinWords (texts ws) = "" ↔ ws = [] := by
  cases ws with
  | nil => exact ⟨fun _ => rfl, fun _ => rfl⟩
  | cons w ws =>
      have hne := (trimmed_joinWords (w :: ws)).2 nofun
      exact ⟨fun h => absurd (by rw [h]; rfl) hne, nofun⟩

/-- A name and the words after it are parted at the first space. -/
theorem split_joinWords (name : Prose) (ws : List Prose) :
    joinWords (texts (name :: ws)) ≠ ""
      ∧ before ' ' (joinWords (texts (name :: ws))) = name.text
      ∧ after ' ' (joinWords (texts (name :: ws))) = joinWords (texts ws) := by
  refine ⟨mt (joinWords_eq_empty_iff _).mp nofun, ?_⟩
  have hspace : ∀ c ∈ name.text.toList, (c != ' ') = true := by
    intro c hc
    rw [bne_iff_ne]
    rintro rfl
    exact absurd (name.not_blank ' ' hc) (by decide)
  -- the name is all of the text, or a space follows it
  rw [before, after]
  cases ws with
  | nil =>
      have htext : (joinWords (texts [name])).toList = name.text.toList ++ [] :=
        (List.append_nil _).symm
      rw [htext, List.takeWhile_append_of_pos hspace,
        List.dropWhile_append_of_pos hspace, List.takeWhile_nil, List.append_nil,
        String.ofList_toList]
      exact ⟨rfl, rfl⟩
  | cons w ws =>
      have htext : (joinWords (texts (name :: w :: ws))).toList
          = name.text.toList ++ ' ' :: (joinWords (texts (w :: ws))).toList :=
        toList_joinWords_cons_cons name.text w.text (texts ws)
      rw [htext, List.takeWhile_append_of_pos hspace,
        List.dropWhile_append_of_pos hspace, List.takeWhile_cons_of_neg (by simp),
        List.dropWhile_cons_of_neg (by simp), List.append_nil,
        String.ofList_toList, List.drop_one, List.tail_cons, String.ofList_toList]
      exact ⟨rfl, rfl⟩

/-! ## Doc comments as they are written -/

/-- A section of a doc comment. -/
inductive DocEntry where
  | param (name : Prose) (words : List Prose)
  /-- The two tags of exceptions say the same. -/
  | exception (tag : { t : String // t ∈ ["@throws", "@exception"] })
      (type : Prose) (words : List Prose)
  | returns (words : List Prose)

namespace DocEntry

/-- The words of a section, its tag first. -/
def words : DocEntry → List String
  | .param name ws => "@param" :: texts (name :: ws)
  | .exception tag type ws => tag.val :: texts (type :: ws)
  | .returns ws => "@return" :: texts ws

/-- A record with what the section says. -/
def store (d : Doc) : DocEntry → Doc
  | .param name ws =>
    { d with
      params := d.params
        ++ [{ name := name.text, description := joinWords (texts ws) }] }
  | .exception _ type ws =>
    { d with
      exceptions := d.exceptions
        ++ [{ type := type.text, description := joinWords (texts ws) }] }
  | .returns ws => { d with returns := joinWords (texts ws) }

/-- The words on the parameter `name`, if the section is on it. -/
def paramWords? (name : String) : DocEntry → Option (List String)
  | .param n ws => if n.text = name then some (texts ws) else none
  | _ => none

/-- The words on the exception `type`, if the section is on it. -/
def exceptionWords? (type : String) : DocEntry → Option (List String)
  | .exception _ t ws => if t.text = type then some (texts ws) else none
  | _ => none

/-- The words on what is returned, if the section is on it. -/
def returnWords? : DocEntry → Option (List String)
  | .returns ws => some (texts ws)
  | _ => none

end DocEntry

/-- A doc comment: a description, and sections after it. -/
structure DocSource where
  description : List Prose
  entries : List DocEntry

namespace DocSource

/-- All words of the comment. -/
def words (s : DocSource) : List String :=
  texts s.description ++ s.entries.flatMap DocEntry.words

/-- The words of the first section on the parameter `name`. -/
def paramWords (s : DocSource) (name : String) : List String :=
  (s.entries.findSome? (DocEntry.paramWords? name)).getD []

/-- The words of the first section on the exception `type`. -/
def exceptionWords (s : DocSource) (type : String) : List String :=
  (s.entries.findSome? (DocEntry.exceptionWords? type)).getD []

/-- The words of the last section on what is returned. -/
def returnWords (s : DocSource) : List String :=
  (s.entries.reverse.findSome? DocEntry.returnWords?).getD []

/-- The record of the comment. -/
def doc (s : DocSource) : Doc :=
  s.entries.foldl DocEntry.store { description := joinWords (texts s.description) }

end DocSource

/-! ## Reading the words -/

/-- Every tag starts with an at sign, known or not. -/
theorem DocWord.ofWord_of_head {w : String}
    (h : (unbraced w).toList.head? ≠ some '@') :
    ofWord w = .text (withoutClosing w) := by
  have htag : Keyword.isDocTag (unbraced w) = false := by
    have hat : ∀ t ∈ Keyword.docTags, t.toList.head? = some '@' := by decide
    rw [Keyword.isDocTag, List.contains_eq_mem, decide_eq_false_iff_not]
    exact fun hmem => h (hat _ hmem)
  have hlooks : looksLikeTag (unbraced w) = false := by
    rw [looksLikeTag]
    split
    · next cs hcs => exact absurd (by rw [hcs]; rfl) h
    · rfl
  rw [ofWord]
  simp only [htag, hlooks]
  rfl

theorem Prose.ofWord (w : Prose) : DocWord.ofWord w.text = .text w.text := by
  have hbrace : ∀ cs : List Char, (∀ c ∈ cs, DocWord.isBrace c = false) →
      cs.dropWhile DocWord.isBrace = cs := fun cs h =>
    dropWhile_of_head fun c hc => h c (List.mem_of_mem_head? hc)
  have hbare : DocWord.unbraced w.text = w.text := by
    rw [DocWord.unbraced, hbrace _ w.not_brace,
      hbrace _ fun c hc => w.not_brace c (List.mem_reverse.mp hc),
      List.reverse_reverse, String.ofList_toList]
  have hclosing : DocWord.withoutClosing w.text = w.text := by
    rw [DocWord.withoutClosing, if_neg]
    rintro ⟨hlast, -⟩
    exact absurd (w.not_brace _ (List.mem_of_getLast? hlast)) (by decide)
  have hhead : (DocWord.unbraced w.text).toList.head? ≠ some '@' := by
    rw [hbare]
    exact w.head_ne
  rw [DocWord.ofWord_of_head hhead, hclosing]

/-- The tags of the sections of a `DocSource`. -/
def sectionTags : List (String × DocSection) :=
  [("@return", .returns), ("@param", .param), ("@throws", .exception),
    ("@exception", .exception)]

theorem ofWord_sectionTag :
    ∀ t ∈ sectionTags, DocWord.ofWord t.1 = .tag t.1
      ∧ TagRole.of t.1 = .block t.2 := by
  decide

namespace DocReading

/-- The reading after the words `ws`. -/
def reads (r : DocReading) (ws : List String) : DocReading :=
  (Logged.fold step r (ws.map DocWord.ofWord)).value

theorem reads_cons (r : DocReading) (w : String) (ws : List String) :
    r.reads (w :: ws) = (r.step (DocWord.ofWord w)).value.reads ws :=
  Logged.value_bind _ _

theorem reads_append (r : DocReading) (us vs : List String) :
    r.reads (us ++ vs) = (r.reads us).reads vs := by
  rw [reads, List.map_append, Logged.fold_append, Logged.value_bind]
  rfl

/-- The stars of continuation lines do not count. -/
theorem reads_filter_star (r : DocReading) (ws : List String) :
    r.reads (ws.filter (· ≠ "*")) = r.reads ws := by
  induction ws generalizing r with
  | nil => rfl
  | cons w ws ih =>
      by_cases hw : w = "*"
      · subst hw
        have hstar : (r.step (DocWord.ofWord "*")).value = r := rfl
        rw [List.filter_cons_of_neg (by simp), reads_cons, hstar, ih]
      · rw [List.filter_cons_of_pos (by simpa using hw), reads_cons, reads_cons, ih]

/-- Words of running text join the open section. -/
theorem reads_texts (r : DocReading) (ws : List Prose) :
    r.reads (texts ws) = { r with words := r.words ++ texts ws } := by
  induction ws generalizing r with
  | nil =>
      rw [texts, List.map_nil, List.append_nil]
      rfl
  | cons w ws ih =>
      have hcounts : counts w.text = true := by
        simp [counts, w.text_ne_empty, w.text_ne_star]
      have hstep : (r.step (DocWord.ofWord w.text)).value
          = { r with words := r.words ++ [w.text] } := by
        rw [w.ofWord]
        show (if counts w.text then _ else r) = _
        rw [if_pos hcounts]
      show r.reads (w.text :: texts ws) = _
      rw [reads_cons, hstep, ih, List.append_assoc]
      rfl

/-- A section closes the one before it. -/
theorem reads_block (r : DocReading) {tag : String} {s : DocSection}
    (h : (tag, s) ∈ sectionTags) (ws : List Prose) :
    r.reads (tag :: texts ws)
      = { doc := r.close, current := s, words := texts ws } := by
  obtain ⟨ht, hs⟩ := ofWord_sectionTag _ h
  have hstep : (r.step (.tag tag)).value
      = { doc := r.close, current := s, words := [] } := by
    simp only [step, hs, Logged.value_pure]
  rw [reads_cons, ht, hstep, reads_texts]
  rfl

/-- **A section is stored as it is written.** -/
theorem close_reads_entry (r : DocReading) (e : DocEntry) :
    (r.reads e.words).close = e.store r.close := by
  cases e with
  | returns ws =>
      have htag : ("@return", DocSection.returns) ∈ sectionTags := by
        simp [sectionTags]
      rw [DocEntry.words, reads_block r htag, close, trim_joinWords]
      rfl
  | param name ws =>
      obtain ⟨hne, hname, hrest⟩ := split_joinWords name ws
      have htag : ("@param", DocSection.param) ∈ sectionTags := by
        simp [sectionTags]
      rw [DocEntry.words, reads_block r htag, close, trim_joinWords, Doc.store,
        if_neg hne]
      simp only [hname, hrest, trim_joinWords]
      rfl
  | exception tag type ws =>
      obtain ⟨hne, hname, hrest⟩ := split_joinWords type ws
      have htag : (tag.val, DocSection.exception) ∈ sectionTags := by
        simpa [sectionTags] using tag.property
      rw [DocEntry.words, reads_block r htag, close, trim_joinWords, Doc.store,
        if_neg hne]
      simp only [hname, hrest, trim_joinWords]
      rfl

theorem close_reads_entries (r : DocReading) (es : List DocEntry) :
    (r.reads (es.flatMap DocEntry.words)).close = es.foldl DocEntry.store r.close := by
  induction es generalizing r with
  | nil => rfl
  | cons e es ih =>
      rw [List.flatMap_cons, reads_append, ih, close_reads_entry]
      rfl

end DocReading

/-- **The words of a doc comment give its record**, whatever stars stand between
    them. -/
theorem DocSource.ofWords_eq_doc (s : DocSource) {ws : List String}
    (h : ws.filter (· ≠ "*") = s.words) :
    (Doc.ofWords (ws.map DocWord.ofWord)).value = s.doc := by
  rw [Doc.ofWords, Logged.value_bind]
  show (DocReading.reads {} ws).close = s.doc
  rw [← DocReading.reads_filter_star, h, DocSource.words, DocReading.reads_append,
    DocReading.close_reads_entries, DocReading.reads_texts, DocReading.close]
  show s.entries.foldl DocEntry.store
    { description := trim (joinWords (texts s.description)) } = _
  rw [trim_joinWords]
  rfl

end JavaOutline
