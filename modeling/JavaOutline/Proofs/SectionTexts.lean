import Mathlib.Data.List.Induction
import JavaOutline.Doc.Comment

/-! # What a doc comment says, section by section

    A doc comment is read in one pass, with one list of pending words that the next
    block tag puts into the section before it.  It can also be read as a whole: cut
    it before each block tag, and take the text of every piece.  A `CutComment` is a
    comment in such pieces, and `CutComment.doc` says what record it stands for.

    The two readings agree (`Doc.ofWords_sections`).

    1. Words without block tags only join the pending ones (`DocReading.fold_inner`),
       so a piece is stored as soon as the next one begins
       (`DocReading.close_fold_sections`).
    2. Storing one more piece at the end is what `CutComment.doc` makes of it
       (`CutComment.doc_snoc`): a section belongs to one field only. -/

namespace JavaOutline

open Text

/-! ## Comments in pieces -/

/-- The tags that open a section. -/
def DocSection.tags : DocSection → List String
  | .description => []
  | .returns => ["@return"]
  | .param => ["@param"]
  | .author => ["@author"]
  | .deprecated => ["@deprecated"]
  | .version => ["@since", "@version"]
  | .see => ["@see", "@link", "@linkplain"]
  | .exception => ["@throws", "@exception"]
  | .ignored => ["@serial", "@serialData", "@serialField"]

/-- The block tags: those that open any section. -/
def blockTags : List String :=
  [DocSection.returns, .param, .author, .deprecated, .version, .see, .exception,
    .ignored].flatMap DocSection.tags

namespace DocWord

/-- The word is a block tag. -/
def isBlockTag : DocWord → Bool
  | .tag t => blockTags.contains t
  | .text _ => false

/-- The text of a word that counts as text. -/
def spoken? : DocWord → Option String
  | .tag _ => none
  | .text w => if w = "" ∨ w = "*" then none else some w

/-- The tag that a word is, if it is neither a block tag nor an inline tag. -/
def unknown? : DocWord → Option String
  | .tag t => if t ∈ blockTags ∨ t ∈ inlineTags then none else some t
  | .text _ => none

end DocWord

/-- The text of some words of a comment. -/
def proseText (ws : List DocWord) : String :=
  trim (joinWords (ws.filterMap DocWord.spoken?))

/-- A block tag and the words after it. -/
structure CutSection where
  tag : String
  words : List DocWord

/-- A comment in pieces: the words before the first block tag, and sections. -/
structure CutComment where
  lead : List DocWord
  sections : List CutSection

def CutSection.allWords (s : CutSection) : List DocWord := .tag s.tag :: s.words

namespace CutComment

/-- The pieces are those of the comment `ws`, cut before each block tag and nowhere
    else. -/
structure Cuts (c : CutComment) (ws : List DocWord) : Prop where
  words : ws = c.lead ++ c.sections.flatMap CutSection.allWords
  lead : ∀ w ∈ c.lead, w.isBlockTag = false
  tags : ∀ s ∈ c.sections, s.tag ∈ blockTags
  inner : ∀ s ∈ c.sections, ∀ w ∈ s.words, w.isBlockTag = false

/-- The pieces of a comment. -/
def ofWords : List DocWord → CutComment
  | [] => ⟨[], []⟩
  | .text w :: ws => { ofWords ws with lead := .text w :: (ofWords ws).lead }
  | .tag t :: ws =>
    if t ∈ blockTags then ⟨[], ⟨t, (ofWords ws).lead⟩ :: (ofWords ws).sections⟩
    else { ofWords ws with lead := .tag t :: (ofWords ws).lead }

/-- One more word before the first block tag. -/
theorem Cuts.cons {c : CutComment} {ws : List DocWord} (h : c.Cuts ws) {w : DocWord}
    (hw : w.isBlockTag = false) : Cuts { c with lead := w :: c.lead } (w :: ws) :=
  ⟨congrArg (w :: ·) h.words, List.forall_mem_cons.mpr ⟨hw, h.lead⟩, h.tags, h.inner⟩

/-- **Every comment can be cut.** -/
theorem cuts_ofWords (ws : List DocWord) : (ofWords ws).Cuts ws := by
  induction ws with
  | nil => exact ⟨rfl, by simp [ofWords], by simp [ofWords], by simp [ofWords]⟩
  | cons w ws ih =>
      cases w with
      | text w => exact ih.cons rfl
      | tag t =>
          rw [ofWords]
          split
          · next ht =>
              refine ⟨congrArg (DocWord.tag t :: ·) ih.words, by simp, ?_, ?_⟩
              · exact List.forall_mem_cons.mpr ⟨ht, ih.tags⟩
              · exact List.forall_mem_cons.mpr ⟨ih.lead, ih.inner⟩
          · next ht => exact ih.cons (by simpa [DocWord.isBlockTag] using ht)

/-- The texts of the sections of one kind, in order. -/
def textsOf (c : CutComment) (s : DocSection) : List String :=
  (c.sections.filter fun x => s.tags.contains x.tag).map fun x => proseText x.words

/-- The text of the last section of a kind, empty if there is none. -/
def lastOf (c : CutComment) (s : DocSection) : String :=
  (c.textsOf s).getLast?.getD ""

/-- The texts of the sections of a kind that have any. -/
def entriesOf (c : CutComment) (s : DocSection) : List String :=
  (c.textsOf s).filter (· ≠ "")

/-- The record of the comment.  The text of a parameter and of an exception is
    parted at its first space. -/
def doc (c : CutComment) : Doc where
  description := proseText c.lead
  params := (c.entriesOf .param).map fun text =>
    { name := before ' ' text, description := trim (after ' ' text) }
  returns := c.lastOf .returns
  author := c.lastOf .author
  version := c.lastOf .version
  exceptions := (c.entriesOf .exception).map fun text =>
    { type := before ' ' text, description := trim (after ' ' text) }
  deprecated := c.lastOf .deprecated
  see := c.lastOf .see

end CutComment

/-! ## Tags and their roles -/

theorem DocSection.ofTag?_of_mem {s : DocSection} {t : String} (h : t ∈ s.tags) :
    ofTag? t = some s := by
  have hall : ∀ t ∈ s.tags, ofTag? t = some s := by cases s <;> decide
  exact hall t h

theorem DocSection.ofTag?_eq_none {t : String} (h : t ∉ blockTags) : ofTag? t = none := by
  simp only [blockTags, tags, List.flatMap_cons, List.flatMap_nil, List.cons_append,
    List.nil_append, List.mem_cons, List.not_mem_nil, or_false, not_or] at h
  simp [ofTag?, h]

theorem mem_blockTags_iff {t : String} : t ∈ blockTags ↔ ∃ s : DocSection, t ∈ s.tags := by
  constructor
  · intro h
    obtain ⟨s, -, hs⟩ := List.mem_flatMap.mp h
    exact ⟨s, hs⟩
  · rintro ⟨s, hs⟩
    have hall : ∀ t ∈ s.tags, t ∈ blockTags := by cases s <;> decide
    exact hall t hs

/-- A tag belongs to the section that it opens, and to no other. -/
theorem DocSection.mem_tags_iff {s s' : DocSection} {t : String} (h : t ∈ s.tags) :
    t ∈ s'.tags ↔ s' = s := by
  constructor
  · intro h'
    exact Option.some.inj ((ofTag?_of_mem h').symm.trans (ofTag?_of_mem h))
  · rintro rfl
    exact h

theorem TagRole.of_blockTag {s : DocSection} {t : String} (h : t ∈ s.tags) :
    TagRole.of t = .block s := by
  have hinline : inlineTags.contains t = false := by
    have hall : ∀ t ∈ s.tags, inlineTags.contains t = false := by cases s <;> decide
    exact hall t h
  rw [TagRole.of, hinline, DocSection.ofTag?_of_mem h]
  rfl

/-- Any other tag is an inline tag or unknown. -/
theorem TagRole.of_not_blockTag {t : String} (h : t ∉ blockTags) :
    TagRole.of t = if t ∈ inlineTags then .inlined else .unknown := by
  rw [TagRole.of, DocSection.ofTag?_eq_none h]
  simp only [List.contains_iff_mem]

/-! ## Reading piece by piece -/

namespace DocReading

/-- The value of one step on a word that is no block tag. -/
theorem step_inner (r : DocReading) {w : DocWord} (hw : w.isBlockTag = false) :
    (r.step w).value = { r with words := r.words ++ w.spoken?.toList } := by
  cases w with
  | text w =>
      have hcounts : counts w = !decide (w = "" ∨ w = "*") := by
        simp [counts, Bool.decide_or, beq_eq_decide]
      by_cases h : w = "" ∨ w = "*"
      · simp [step, hcounts, DocWord.spoken?, h]
      · simp [step, hcounts, DocWord.spoken?, h]
  | tag t =>
      have ht : t ∉ blockTags := by simpa [DocWord.isBlockTag] using hw
      rw [step, TagRole.of_not_blockTag ht]
      have hsame : r = { r with words := r.words ++ (DocWord.tag t).spoken?.toList } := by
        rw [DocWord.spoken?, Option.toList_none, List.append_nil]
      by_cases hinline : t ∈ inlineTags
      · rw [if_pos hinline]
        exact hsame
      · rw [if_neg hinline]
        exact hsame

/-- **Words without block tags join the pending ones.** -/
theorem fold_inner (r : DocReading) {ws : List DocWord}
    (h : ∀ w ∈ ws, w.isBlockTag = false) :
    (Logged.fold step r ws).value
      = { r with words := r.words ++ ws.filterMap DocWord.spoken? } := by
  induction ws generalizing r with
  | nil =>
      rw [List.filterMap_nil, List.append_nil]
      rfl
  | cons w ws ih =>
      obtain ⟨hw, hws⟩ := List.forall_mem_cons.mp h
      rw [Logged.fold, Logged.value_bind, step_inner r hw, ih _ hws]
      cases hs : w.spoken? with
      | none => simp [List.filterMap_cons_none hs]
      | some v => simp [List.filterMap_cons_some hs]

/-- A block tag closes the section before it and opens its own. -/
theorem fold_section (r : DocReading) {x : CutSection} {s : DocSection}
    (hs : x.tag ∈ s.tags) (hinner : ∀ w ∈ x.words, w.isBlockTag = false) :
    (Logged.fold step r x.allWords).value
      = { doc := r.close, current := s, words := x.words.filterMap DocWord.spoken? } := by
  have htag : (r.step (.tag x.tag)).value = { doc := r.close, current := s } := by
    simp only [step, TagRole.of_blockTag hs, Logged.value_pure]
  rw [CutSection.allWords, Logged.fold, Logged.value_bind, htag, fold_inner _ hinner,
    List.nil_append]

end DocReading

/-! ## Storing piece by piece -/

/-- The record with the text of one more section. -/
def CutSection.store (d : Doc) (x : CutSection) : Doc :=
  ((DocSection.ofTag? x.tag).map fun s => d.store s (proseText x.words)).getD d

theorem CutSection.store_of_mem {s : DocSection} {x : CutSection} (h : x.tag ∈ s.tags)
    (d : Doc) : x.store d = d.store s (proseText x.words) := by
  rw [store, DocSection.ofTag?_of_mem h]
  rfl

/-- **Sections are stored one after another.** -/
theorem DocReading.close_fold_sections (r : DocReading) {xs : List CutSection}
    (htags : ∀ x ∈ xs, x.tag ∈ blockTags)
    (hinner : ∀ x ∈ xs, ∀ w ∈ x.words, w.isBlockTag = false) :
    (Logged.fold step r (xs.flatMap CutSection.allWords)).value.close
      = xs.foldl (fun d x => x.store d) r.close := by
  induction xs generalizing r with
  | nil => rfl
  | cons x xs ih =>
      obtain ⟨htag, htags⟩ := List.forall_mem_cons.mp htags
      obtain ⟨hx, hinner⟩ := List.forall_mem_cons.mp hinner
      obtain ⟨s, hs⟩ := mem_blockTags_iff.mp htag
      rw [List.flatMap_cons, Logged.fold_append, Logged.value_bind, fold_section r hs hx,
        ih _ htags hinner, List.foldl_cons, CutSection.store_of_mem hs]
      rfl

namespace CutComment

variable {lead : List DocWord} {xs : List CutSection} {x : CutSection} {s : DocSection}

/-- One more section adds its text to those of its kind. -/
theorem textsOf_snoc (h : x.tag ∈ s.tags) (s' : DocSection) :
    textsOf ⟨lead, xs ++ [x]⟩ s'
      = textsOf ⟨lead, xs⟩ s' ++ if s' = s then [proseText x.words] else [] := by
  have hkind : s'.tags.contains x.tag = true ↔ s' = s := by
    rw [List.contains_iff_mem, DocSection.mem_tags_iff h]
  rw [textsOf, textsOf, List.filter_append, List.map_append, List.filter_cons, List.filter_nil]
  by_cases hs : s' = s
  · rw [if_pos hs, hkind.mpr hs]
    rfl
  · rw [if_neg hs, Bool.eq_false_iff.mpr (mt hkind.mp hs)]
    rfl

theorem lastOf_snoc (h : x.tag ∈ s.tags) (s' : DocSection) :
    lastOf ⟨lead, xs ++ [x]⟩ s'
      = if s' = s then proseText x.words else lastOf ⟨lead, xs⟩ s' := by
  rw [lastOf, textsOf_snoc h]
  split
  · rw [List.getLast?_concat, Option.getD_some]
  · rw [List.append_nil, lastOf]

theorem entriesOf_snoc (h : x.tag ∈ s.tags) (s' : DocSection) :
    entriesOf ⟨lead, xs ++ [x]⟩ s'
      = entriesOf ⟨lead, xs⟩ s'
        ++ if s' = s ∧ proseText x.words ≠ "" then [proseText x.words] else [] := by
  rw [entriesOf, textsOf_snoc h, List.filter_append, entriesOf]
  by_cases hs : s' = s
  · by_cases htext : proseText x.words = ""
    · simp [hs, htext]
    · simp [hs, htext]
  · simp [hs]

/-- **One more section is stored as the comment as a whole has it.** -/
theorem doc_snoc (h : x.tag ∈ s.tags) :
    doc ⟨lead, xs ++ [x]⟩ = (doc ⟨lead, xs⟩).store s (proseText x.words) := by
  simp only [doc, lastOf_snoc h, entriesOf_snoc h]
  cases s with
  | description => cases h
  | param | exception =>
      by_cases htext : proseText x.words = ""
      · simp [Doc.store, htext]
      · simp [Doc.store, htext]
  | returns | author | deprecated | version | see | ignored => simp [Doc.store]

/-- The record of a comment, stored section by section. -/
theorem foldl_store (htags : ∀ x ∈ xs, x.tag ∈ blockTags) :
    xs.foldl (fun d x => x.store d) { description := proseText lead }
      = doc ⟨lead, xs⟩ := by
  induction xs using List.reverseRecOn with
  | nil => rfl
  | append_singleton xs x ih =>
      rw [List.forall_mem_append] at htags
      obtain ⟨s, hs⟩ := mem_blockTags_iff.mp (htags.2 x (List.mem_singleton.mpr rfl))
      rw [List.foldl_append, ih htags.1, doc_snoc hs, ← CutSection.store_of_mem hs]
      rfl

/-- The record of a comment that has been cut. -/
theorem Cuts.value_ofWords {c : CutComment} {ws : List DocWord} (h : c.Cuts ws) :
    (Doc.ofWords ws).value = c.doc := by
  have hlead : (Logged.fold DocReading.step {} c.lead).value
      = { words := c.lead.filterMap DocWord.spoken? } :=
    DocReading.fold_inner {} h.lead
  rw [Doc.ofWords, Logged.value_bind, Logged.value_pure, h.words, Logged.fold_append,
    Logged.value_bind, hlead, DocReading.close_fold_sections _ h.tags h.inner]
  exact foldl_store h.tags

end CutComment

/-! ## Reports -/

theorem DocReading.log_step (r : DocReading) (w : DocWord) :
    (r.step w).log = w.unknown?.toList.map .unknownTag := by
  cases w with
  | text w => rfl
  | tag t =>
      by_cases ht : t ∈ blockTags
      · obtain ⟨s, hs⟩ := mem_blockTags_iff.mp ht
        simp [step, TagRole.of_blockTag hs, DocWord.unknown?, ht]
      · rw [step, TagRole.of_not_blockTag ht]
        by_cases hinline : t ∈ inlineTags
        · rw [if_pos hinline, DocWord.unknown?, if_pos (.inr hinline)]
          rfl
        · rw [if_neg hinline, DocWord.unknown?, if_neg (not_or.mpr ⟨ht, hinline⟩)]
          rfl

/-- Every unknown tag is reported, in order, and nothing else is. -/
theorem DocReading.log_fold (r : DocReading) (ws : List DocWord) :
    (Logged.fold step r ws).log = (ws.filterMap DocWord.unknown?).map .unknownTag := by
  induction ws generalizing r with
  | nil => rfl
  | cons w ws ih =>
      rw [Logged.fold, Logged.log_bind, log_step, ih]
      cases hw : w.unknown? with
      | none => simp [List.filterMap_cons_none hw]
      | some t => simp [List.filterMap_cons_some hw]

/-- **A DOC COMMENT MEANS WHAT ITS SECTIONS SAY.**  Every comment can be cut before
    its block tags, and however it is cut so, its record is that of the pieces: the
    lead is the description, every parameter and every exception with a text is
    listed, and of each other kind the last section counts.  A warning is given for
    each tag that is neither a block tag nor an inline tag, in order, and no other
    report. -/
theorem Doc.ofWords_sections (ws : List DocWord) :
    (∃ c : CutComment, c.Cuts ws)
    ∧ (∀ c : CutComment, c.Cuts ws → (Doc.ofWords ws).value = c.doc)
    ∧ (Doc.ofWords ws).log = (ws.filterMap DocWord.unknown?).map .unknownTag
    ∧ ∀ e ∈ (Doc.ofWords ws).log, e.level = .warning := by
  have hlog : (Doc.ofWords ws).log = (ws.filterMap DocWord.unknown?).map .unknownTag := by
    rw [Doc.ofWords, Logged.log_bind, DocReading.log_fold, Logged.log_pure, List.append_nil]
  refine ⟨⟨_, CutComment.cuts_ofWords ws⟩, fun c hc => hc.value_ofWords, hlog, ?_⟩
  rw [hlog]
  exact List.forall_mem_map.mpr fun _ _ => rfl

/-- A comment with an inline and an unknown tag, a parameter without a text, a
    section that is left out, and two sections on the version. -/
def mixedComment : CutComment where
  lead := [.text "*", .text "Adds", .tag "@code", .text "x", .tag "@todo", .text "now"]
  sections :=
    [⟨"@version", [.text "1"]⟩, ⟨"@param", [.text "*"]⟩,
      ⟨"@param", [.text "a", .tag "@value", .text "", .text "the", .text "first"]⟩,
      ⟨"@serial", [.text "none"]⟩, ⟨"@since", [.text "2"]⟩]

theorem ofWords_sections_mixed :
    Doc.ofWords (mixedComment.lead ++ mixedComment.sections.flatMap CutSection.allWords)
      = ⟨{ description := "Adds x now"
           params := [{ name := "a", description := "the first" }]
           version := "2" }, [.unknownTag "@todo"]⟩ := by
  obtain ⟨-, hvalue, hlog, -⟩ := Doc.ofWords_sections
    (mixedComment.lead ++ mixedComment.sections.flatMap CutSection.allWords)
  have hcuts : mixedComment.Cuts
      (mixedComment.lead ++ mixedComment.sections.flatMap CutSection.allWords) :=
    ⟨rfl, by decide, by decide, by decide⟩
  have hdoc : mixedComment.doc
      = { description := "Adds x now"
          params := [{ name := "a", description := "the first" }]
          version := "2" } := by decide +kernel
  apply Logged.ext
  · rw [hvalue mixedComment hcuts, hdoc]
  · rw [hlog]
    decide

end JavaOutline
