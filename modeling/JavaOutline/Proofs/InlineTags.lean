import JavaOutline.Proofs.DocSections
import JavaOutline.Proofs.TypeComment

/-! # Inline tags

    The text of a doc comment may mark stretches of words by inline tags, in braces.
    The opener of a tag is a word of its own and is dropped.  The closing brace is
    the last character of a word, or punctuation follows it up to the next blank;
    only in the first case it is dropped.

    So the description of a type is its text without the tags if and only if
    nothing follows the brace of any tag directly (`outline_inlineTags`).  The two
    texts have the same number of words, and each brace that stays makes a word
    longer by one character, so their lengths tell them apart. -/

namespace JavaOutline

open Text

/-! ## Text with tags -/

/-- The tags that mark words of running text. -/
inductive InlineTag where
  | code
  | literal

/-- What opens a stretch of marked words. -/
def InlineTag.opener : InlineTag → String
  | .code => "\x7b@code"
  | .literal => "\x7b@literal"

/-- What follows the closing brace of a tag directly, if anything does. -/
structure Trail where
  text : String
  form : (text.toList.all fun c => !isBlank c && !DocWord.isBrace c) = true

/-- The last word of a tag as it is kept: without the brace only if the brace ends
    it. -/
def lastWord (w : Prose) (r : Trail) : String :=
  if r.text = "" then w.text else w.text ++ "\x7d" ++ r.text

/-- A word, or words in a tag. -/
inductive TextPart where
  | word (w : Prose)
  | tag (t : InlineTag) (words : List Prose) (last : Prose) (trail : Trail)

namespace TextPart

/-- The words of a part as they are written. -/
def written : TextPart → List String
  | .word w => [w.text]
  | .tag t ws w r => t.opener :: (texts ws ++ [w.text ++ "\x7d" ++ r.text])

/-- The words of a part without its tag. -/
def untagged : TextPart → List String
  | .word w => [w.text]
  | .tag _ ws w r => texts ws ++ [w.text ++ r.text]

/-- The words of a part that are kept. -/
def kept : TextPart → List String
  | .word w => [w.text]
  | .tag _ ws w r => texts ws ++ [lastWord w r]

/-- Nothing follows the closing brace directly. -/
def closes : TextPart → Bool
  | .word _ => true
  | .tag _ _ _ r => r.text == ""

end TextPart

/-! ## Reading a tag -/

theorem Trail.chars (r : Trail) :
    ∀ c ∈ r.text.toList, isBlank c = false ∧ DocWord.isBrace c = false := by
  intro c hc
  simpa using List.all_eq_true.mp r.form c hc

theorem InlineTag.step_opener (t : InlineTag) (r : DocReading) :
    (r.step (DocWord.ofWord t.opener)).value = r := by
  cases t <;> rfl

section

variable (w : Prose) (r : Trail)

theorem toList_lastWord_written :
    (w.text ++ "\x7d" ++ r.text).toList = w.text.toList ++ '}' :: r.text.toList := by
  simp

theorem Prose.head?_append (cs : List Char) :
    (w.text.toList ++ cs).head? = w.text.toList.head? := by
  obtain ⟨d, ds, hchars⟩ := List.exists_cons_of_ne_nil w.chars_ne_nil
  rw [hchars]
  rfl

/-- What follows the brace directly ends the word. -/
theorem not_brace_of_getLast? (hr : r.text ≠ "") :
    ∀ c ∈ (w.text.toList ++ '}' :: r.text.toList).getLast?, DocWord.isBrace c = false := by
  intro c hc
  have hne : r.text.toList ≠ [] := by simpa using hr
  obtain hnil | ⟨rs, d, hchars⟩ := List.eq_nil_or_concat r.text.toList
  · exact absurd hnil hne
  · rw [hchars, List.concat_eq_append, ← List.cons_append, ← List.append_assoc,
      List.getLast?_concat] at hc
    cases hc
    exact (r.chars c (by simp [hchars])).2

theorem lastWord_head : (lastWord w r).toList.head? ≠ some '@' := by
  rw [lastWord]
  split
  · exact w.head_ne
  · rw [toList_lastWord_written, w.head?_append]
    exact w.head_ne

theorem unbraced_lastWord :
    DocWord.unbraced (w.text ++ "\x7d" ++ r.text) = lastWord w r := by
  have hfront : (w.text.toList ++ '}' :: r.text.toList).dropWhile DocWord.isBrace
      = w.text.toList ++ '}' :: r.text.toList := by
    refine dropWhile_of_head fun c hc => ?_
    rw [w.head?_append] at hc
    exact w.not_brace c (List.mem_of_mem_head? hc)
  have hback : w.text.toList.reverse.dropWhile DocWord.isBrace = w.text.toList.reverse :=
    dropWhile_of_head fun c hc =>
      w.not_brace c (List.mem_reverse.mp (List.mem_of_mem_head? hc))
  rw [DocWord.unbraced, toList_lastWord_written, hfront, lastWord]
  split
  · next hr =>
      rw [hr, List.reverse_append]
      show String.ofList (w.text.toList.reverse.dropWhile DocWord.isBrace).reverse = _
      rw [hback, List.reverse_reverse, String.ofList_toList]
  · next hr =>
      rw [dropWhile_of_head, List.reverse_reverse, ← toList_lastWord_written,
        String.ofList_toList]
      rw [List.head?_reverse]
      exact not_brace_of_getLast? w r hr

theorem withoutClosing_lastWord :
    DocWord.withoutClosing (w.text ++ "\x7d" ++ r.text) = lastWord w r := by
  rw [DocWord.withoutClosing, toList_lastWord_written, lastWord]
  by_cases hr : r.text = ""
  · have hopen : ¬ holds '{' (w.text ++ "\x7d" ++ r.text) = true := by
      rw [holds, toList_lastWord_written, hr, List.contains_iff_mem]
      intro hmem
      rcases List.mem_append.mp hmem with hmem | hmem
      · cases w.not_brace _ hmem
      · exact absurd hmem (by decide)
    rw [if_pos hr, if_pos ⟨by rw [hr]; exact List.getLast?_concat, hopen⟩, hr]
    show String.ofList (w.text.toList ++ ['}']).dropLast = _
    rw [List.dropLast_concat, String.ofList_toList]
  · rw [if_neg hr, if_neg]
    rintro ⟨hlast, -⟩
    cases not_brace_of_getLast? w r hr _ hlast

theorem ofWord_lastWord :
    DocWord.ofWord (w.text ++ "\x7d" ++ r.text) = .text (lastWord w r) := by
  have hhead : (DocWord.unbraced (w.text ++ "\x7d" ++ r.text)).toList.head? ≠ some '@' := by
    rw [unbraced_lastWord]
    exact lastWord_head w r
  rw [DocWord.ofWord_of_head hhead, withoutClosing_lastWord]

theorem lastWord_chars :
    (lastWord w r).toList ≠ [] ∧ ∀ c ∈ (lastWord w r).toList, isBlank c = false := by
  rw [lastWord]
  split
  · exact ⟨w.chars_ne_nil, w.not_blank⟩
  · rw [toList_lastWord_written]
    refine ⟨by simp, ?_⟩
    simp only [List.forall_mem_append, List.forall_mem_cons]
    exact ⟨w.not_blank, by decide, fun c hc => (r.chars c hc).1⟩

theorem counts_lastWord : DocReading.counts (lastWord w r) = true := by
  have hempty : lastWord w r ≠ "" := by
    intro h
    exact (lastWord_chars w r).1 (by rw [h]; rfl)
  have hstar : lastWord w r ≠ "*" := by
    rw [lastWord]
    split
    · exact w.text_ne_star
    · intro h
      have hbrace : '}' ∈ (w.text ++ "\x7d" ++ r.text).toList := by simp
      rw [h] at hbrace
      exact absurd hbrace (by decide)
  simp [DocReading.counts, hempty, hstar]

end

namespace DocReading

/-- **One part of a text** joins the open section with the words that are kept. -/
theorem reads_part (r : DocReading) (p : TextPart) :
    r.reads p.written = { r with words := r.words ++ p.kept } := by
  cases p with
  | word w => exact reads_texts r [w]
  | tag t ws w tr =>
      have hlast : ∀ s : DocReading, s.reads [w.text ++ "\x7d" ++ tr.text]
          = { s with words := s.words ++ [lastWord w tr] } := by
        intro s
        rw [reads_cons, ofWord_lastWord]
        show (if counts (lastWord w tr) then _ else s) = _
        rw [if_pos (counts_lastWord w tr)]
      rw [TextPart.written, reads_cons, t.step_opener, reads_append, reads_texts, hlast,
        TextPart.kept, List.append_assoc]

theorem reads_parts (r : DocReading) (ps : List TextPart) :
    r.reads (ps.flatMap TextPart.written)
      = { r with words := r.words ++ ps.flatMap TextPart.kept } := by
  induction ps generalizing r with
  | nil =>
      rw [List.flatMap_nil, List.flatMap_nil, List.append_nil]
      rfl
  | cons p ps ih =>
      rw [List.flatMap_cons, List.flatMap_cons, reads_append, reads_part, ih,
        List.append_assoc]

end DocReading

namespace TextPart

theorem kept_chars (p : TextPart) :
    ∀ w ∈ p.kept, w.toList ≠ [] ∧ ∀ c ∈ w.toList, isBlank c = false := by
  have hprose : ∀ w : Prose, w.text.toList ≠ [] ∧ ∀ c ∈ w.text.toList, isBlank c = false :=
    fun w => ⟨w.chars_ne_nil, w.not_blank⟩
  cases p with
  | word w => simpa [kept] using hprose w
  | tag t ws w r =>
      simp only [kept, texts, List.forall_mem_append, List.forall_mem_map]
      exact ⟨fun v _ => hprose v, by simpa using lastWord_chars w r⟩

/-- The description of a text with tags. -/
theorem description_ofWords {ps : List TextPart} {ws : List String}
    (hws : ws.filter (· ≠ "*") = ps.flatMap written) :
    (Doc.ofWords (ws.map DocWord.ofWord)).value.description
      = joinWords (ps.flatMap kept) := by
  have hreads : DocReading.reads {} ws = { words := ps.flatMap kept } := by
    rw [← DocReading.reads_filter_star, hws, DocReading.reads_parts]
    rfl
  have htrim : trim (joinWords (ps.flatMap kept)) = joinWords (ps.flatMap kept) := by
    refine Trimmed.trim (Trimmed.joinWords fun w hw => ?_).1
    obtain ⟨p, -, hw⟩ := List.mem_flatMap.mp hw
    obtain ⟨hne, hblank⟩ := p.kept_chars w hw
    exact ⟨hne, .of_not_blank hblank⟩
  have hclose : (Doc.ofWords (ws.map DocWord.ofWord)).value
      = (DocReading.reads {} ws).close := rfl
  rw [hclose, hreads]
  exact htrim

/-! ## Which texts come out without their tags -/

/-- The number of characters of words, each with the space after it. -/
def width (ws : List String) : Nat := (ws.flatMap fun w => w.toList ++ [' ']).length

theorem width_append (us vs : List String) : width (us ++ vs) = width us + width vs := by
  rw [width, List.flatMap_append, List.length_append]
  rfl

theorem width_singleton (w : String) : width [w] = w.toList.length + 1 := by
  rw [width, List.flatMap_singleton, List.length_append]
  rfl

theorem length_joinWords (ws : List String) :
    (joinWords ws).toList.length = width ws - 1 := by
  induction ws with
  | nil => rfl
  | cons w ws ih =>
      cases ws with
      | nil => exact (congrArg (· - 1) (width_singleton w)).symm
      | cons v ws =>
          have hcons : ∀ u us, width (u :: us) = u.toList.length + 1 + width us := by
            intro u us
            rw [← width_singleton]
            exact width_append [u] us
          rw [toList_joinWords_cons_cons, List.length_append, List.length_cons, ih, hcons w,
            hcons v]
          omega

/-- A brace that stays makes a part longer by one character. -/
theorem width_kept (p : TextPart) :
    width p.kept = width p.untagged + if p.closes then 0 else 1 := by
  cases p with
  | word w => rfl
  | tag t ws w r =>
      rw [kept, untagged, width_append, width_append, width_singleton, width_singleton,
        closes, lastWord]
      by_cases hr : r.text = ""
      · simp [hr]
      · simp [hr]
        omega

theorem one_le_width (p : TextPart) : 1 ≤ width p.untagged := by
  cases p with
  | word w =>
      rw [untagged, width_singleton]
      omega
  | tag t ws w r =>
      rw [untagged, width_append, width_singleton]
      omega

theorem width_kept_all (ps : List TextPart) :
    width (ps.flatMap kept)
      = width (ps.flatMap untagged) + ps.countP (fun p => !p.closes) := by
  induction ps with
  | nil => rfl
  | cons p ps ih =>
      rw [List.flatMap_cons, List.flatMap_cons, width_append, width_append, ih, width_kept,
        List.countP_cons]
      cases p.closes <;> simp <;> omega

theorem length_le_width (ps : List TextPart) :
    ps.length ≤ width (ps.flatMap untagged) := by
  induction ps with
  | nil => exact Nat.zero_le _
  | cons p ps ih =>
      have hp := p.one_le_width
      rw [List.flatMap_cons, width_append, List.length_cons]
      omega

/-- **The tags leave no trace** just if nothing follows their braces directly. -/
theorem joinWords_kept_iff (ps : List TextPart) :
    joinWords (ps.flatMap kept) = joinWords (ps.flatMap untagged)
      ↔ ∀ p ∈ ps, p.closes = true := by
  constructor
  · intro h
    have hlength := congrArg (fun s => s.toList.length) h
    simp only [length_joinWords, width_kept_all] at hlength
    have hcount := List.countP_le_length (p := fun p => !closes p) (l := ps)
    have hwidth := length_le_width ps
    have hnone : ps.countP (fun p => !p.closes) = 0 := by omega
    simpa using hnone
  · intro h
    have hsame : ∀ p ∈ ps, p.kept = p.untagged := by
      intro p hp
      cases p with
      | word w => rfl
      | tag t ws w r =>
          have hr : r.text = "" := beq_iff_eq.mp (h _ hp)
          rw [kept, untagged, lastWord, if_pos hr, hr, String.append_empty]
    rw [List.flatMap_def, List.map_congr_left hsame, ← List.flatMap_def]

end TextPart

/-- A text of a doc comment with the words of the parts, laid out in any way over
    any number of lines; a lone star is no word. -/
structure TextPart.Written (ps : List TextPart) (c : List Char) : Prop
    extends IsDocText c where
  words : (commentWords c).filter (· ≠ "*") = ps.flatMap TextPart.written

/-- **INLINE TAGS.**  The description of a type whose doc comment is text with inline
    tags has the words of the text in their order, without the openers of the tags.
    A closing brace is left out only if it ends its word; so the description is the
    text without the tags if and only if nothing follows a closing brace directly. -/
theorem outline_inlineTags (settings : Settings) {p c h q : List Char}
    (hp : IsPreamble settings.ignoredKeywords p) (ps : List TextPart)
    (hc : TextPart.Written ps c) {ls : List Lexeme} (hls : IsTypeHeader ls)
    (hh : Laid false ls h) (hopen : "/**" ∉ settings.ignoredKeywords)
    (hclose : "*/" ∉ settings.ignoredKeywords)
    (hlines : LinesFit (String.ofList (p ++ (docComment c ++ (h ++ '{' :: q))))) :
    ∃ d, (outline (String.ofList (p ++ (docComment c ++ (h ++ '{' :: q)))) settings).value
        = .ok d
      ∧ d.description = joinWords (ps.flatMap TextPart.kept)
      ∧ (d.description = joinWords (ps.flatMap TextPart.untagged)
        ↔ ∀ p ∈ ps, p.closes = true) := by
  obtain ⟨d, hd, hdescription⟩ :=
    outline_typeComment settings hp hc.toIsDocText hls hh hopen hclose hlines
  rw [TextPart.description_ofWords hc.words] at hdescription
  refine ⟨d, hd, hdescription, ?_⟩
  rw [hdescription]
  exact TextPart.joinWords_kept_iff ps

/-- A tag with a full stop after its brace. -/
def stoppedTag : List TextPart :=
  [.word ⟨"Use", .refl true⟩, .tag .code [] ⟨"x", .refl true⟩ ⟨".", .refl true⟩]

theorem outline_inlineTags_stopped :
    ∃ d, (outline "/** Use \x7b@code x\x7d. */ class A \x7b \x7d" {}).value = .ok d
      ∧ d.description = "Use x\x7d." ∧ d.description ≠ "Use x." := by
  have hheader : IsTypeHeader [.word "class", .word "A"] :=
    ⟨[], [.word "A"], .classKind, rfl, by decide⟩
  have hlaid : Laid false [.word "class", .word "A"] " class A ".toList :=
    .gap rfl (.word (w := ['c', 'l', 'a', 's', 's']) (.word (by decide))
      (.gap rfl (.word (w := ['A']) (.word (by decide)) (.gap rfl .nil))))
  have hwritten : TextPart.Written stoppedTag " Use \x7b@code x\x7d. ".toList :=
    { opens := by decide, lasts := by decide +kernel, words := by decide +kernel }
  obtain ⟨d, hd, hdescription, -⟩ := outline_inlineTags {} (q := " \x7d".toList)
    (isPreamble_file none [] .nil) stoppedTag hwritten hheader hlaid (by simp) (by simp)
    (linesFit_ofList (by decide +kernel))
  refine ⟨d, hd, hdescription, ?_⟩
  rw [hdescription]
  decide +kernel

end JavaOutline
