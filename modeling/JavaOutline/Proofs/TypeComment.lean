import JavaOutline.Proofs.CommentText
import JavaOutline.Proofs.Growth
import JavaOutline.Proofs.Recovery
import JavaOutline.Proofs.Totality

/-! # The doc comment of a type

    A doc comment before the header of a file's type describes the type, whatever
    stands before the comment, in the header and in the body
    (`outline_typeComment`).

    1. Before the comment a walk is outside any type and between two statements
       (`IsPreamble`), so the comment starts a statement of its own.
    2. The words of a header leave its comment alone (`Standing.GoesOn`), and the
       word of the type makes the statement a header.
    3. The brace takes the description from the comment, and nothing after it
       changes the description (`Walk.PastHeader.steps`). -/

namespace JavaOutline

section

variable {extra : List String}

/-! ## Before the comment -/

/-- A text before a comment: after its tokens a walk stands outside any type and
    between two statements. -/
def IsPreamble (extra : List String) (p : List Char) : Prop :=
  ∃ us x, Takes {} us x ∧ x.statement = {} ∧ x.draft.kind = none
    ∧ ∀ cs, cs.head? = some '/' → ∃ r, Spells extra 0 {} p cs us r

/-- A package and imports, laid out in any way. -/
theorem isPreamble_file (packageName : Option (Word extra)) (imports : List (Word extra))
    {p : List Char}
    (hp : Laid false ((packageName.toList.flatMap fun n =>
          [.word "package", n.lexeme, .mark .semicolon])
        ++ imports.flatMap fun n => [.word "import", n.lexeme, .mark .semicolon]) p) :
    IsPreamble extra p := by
  refine ⟨_, _, takes_file packageName imports, rfl, rfl, fun cs hcs => ?_⟩
  refine hp.spells extra (by decide) (fun hblock => ?_) (by simp [hcs])
    ⟨rfl, rfl, rfl⟩ fun _ => rfl
  simp [Word.lexeme] at hblock

/-! ## The header -/

/-- A comma, or a word that opens neither a type nor a statement. -/
def Lexeme.inHeader : Lexeme → Bool
  | .word w => !Keyword.isTypeWord w && !Keyword.isStatementWord w && w != "package"
  | .mark m => m == .comma
  | .block => false

/-- The lexemes of a header: the word of one type and such lexemes around it. -/
def IsTypeHeader (ls : List Lexeme) : Prop :=
  ∃ (before after : List Lexeme) (k : TypeKind), ls = before ++ .word k.word :: after
    ∧ ∀ l ∈ before ++ after, l.inHeader = true

theorem Laid.formed {b : Bool} {ls : List Lexeme} {cs : List Char} (h : Laid b ls cs) :
    ∀ l ∈ ls, l.Formed := by
  induction h with
  | nil => simp
  | gap _ _ ih => exact ih
  | @word w ls cs hw _ ih =>
      refine List.forall_mem_cons.mpr ⟨?_, ih⟩
      rintro _ ⟨⟩
      rwa [String.toList_ofList]
  | mark _ ih => exact List.forall_mem_cons.mpr ⟨formed_mark _, ih⟩
  | block _ _ ih => exact List.forall_mem_cons.mpr ⟨formed_block, ih⟩

theorem IsTypeHeader.block_not_mem {ls : List Lexeme} (h : IsTypeHeader ls) :
    Lexeme.block ∉ ls := by
  obtain ⟨before, after, k, rfl, hall⟩ := h
  intro hmem
  have hmem : Lexeme.block ∈ before ++ after := by simpa using hmem
  cases hall _ hmem

/-- The statement has gone on, with the same comment before it. -/
structure Standing.GoesOn (x y : Standing) : Prop where
  draft : y.draft = x.draft
  doc : y.statement.doc = x.statement.doc
  header : y.statement.isHeader = x.statement.isHeader
  nested : y.statement.isNested = x.statement.isNested
  executable : y.statement.isExecutable = x.statement.isExecutable
  parts : x.statement.parts ≠ [] → y.statement.parts ≠ []

namespace Standing.GoesOn

variable {x y z : Standing}

theorem refl (x : Standing) : x.GoesOn x := ⟨rfl, rfl, rfl, rfl, rfl, id⟩

theorem trans (h1 : x.GoesOn y) (h2 : y.GoesOn z) : x.GoesOn z :=
  ⟨h2.draft.trans h1.draft, h2.doc.trans h1.doc, h2.header.trans h1.header,
    h2.nested.trans h1.nested, h2.executable.trans h1.executable, h2.parts ∘ h1.parts⟩

theorem flush (x : Standing) : x.GoesOn { x with statement := x.statement.flush } :=
  ⟨rfl, rfl, rfl, rfl, rfl, fun h => List.append_ne_nil_of_left_ne_nil h _⟩

end Standing.GoesOn

variable {x : Standing}

/-- A keyword of a header. -/
theorem takes_headerKeyword {w : String} (hw : (Lexeme.word w).inHeader = true)
    (hplain : PlainText w) :
    ∃ y, Takes x [⟨.keyword, w, 0⟩] y ∧ x.GoesOn y := by
  obtain ⟨⟨htype, hstatement⟩, hpackage⟩ : (Keyword.isTypeWord w = false
      ∧ Keyword.isStatementWord w = false) ∧ w ≠ "package" := by
    simpa [Lexeme.inHeader] using hw
  cases hs : Keyword.isStructural w with
  | true =>
      obtain ⟨p, hp⟩ := Part.exists_ofKeyword? hs
      refine ⟨_, .partWord htype hs hp fun h => absurd h hpackage,
        (Standing.GoesOn.flush x).trans ⟨rfl, rfl, rfl, rfl, rfl, fun h => ?_⟩⟩
      exact List.append_ne_nil_of_left_ne_nil h _
  | false =>
      have hat : Text.startsWith '@' w = false := by
        rw [Text.startsWith, beq_eq_false_iff_ne]
        intro hhead
        exact (hplain.head '@' hhead).2 rfl
      refine ⟨_, .keyword fun v n h => ?_, .flush x⟩
      rw [Walk.codeKeyword, htype, hs, hat, hstatement]
      exact h

/-- **One lexeme of a header** leaves the comment before it alone. -/
theorem takes_inHeader {l : Lexeme} (hl : l.inHeader = true) (hform : l.Formed) :
    ∃ y, Takes x [l.token extra] y ∧ x.GoesOn y := by
  cases l with
  | block => cases hl
  | mark m =>
      obtain rfl : m = .comma := by simpa [Lexeme.inHeader] using hl
      exact ⟨_, .comma, .flush x⟩
  | word w =>
      have hplain := (hform w rfl).plainText
      cases hk : Keyword.isKeyword extra w with
      | true =>
          rw [Lexeme.token, Token.ofWord, hk]
          exact takes_headerKeyword hl hplain
      | false =>
          rw [token_word hk]
          exact ⟨_, .symbol hplain, rfl, rfl, rfl, rfl, rfl, id⟩

theorem takes_allInHeader (extra : List String) {ls : List Lexeme} (hls : ∀ l ∈ ls, l.inHeader = true)
    (hform : ∀ l ∈ ls, l.Formed) :
    ∃ y, Takes x (ls.map (Lexeme.token extra)) y ∧ x.GoesOn y := by
  induction ls generalizing x with
  | nil => exact ⟨x, .nil, .refl x⟩
  | cons l ls ih =>
      obtain ⟨y, hy, hxy⟩ := takes_inHeader (x := x) (hls l (by simp)) (hform l (by simp))
      obtain ⟨z, hz, hyz⟩ := ih (x := y) (fun k hk => hls k (by simp [hk]))
        fun k hk => hform k (by simp [hk])
      exact ⟨z, hy.cons hz, hxy.trans hyz⟩

/-- **A header with its brace** describes the type by the comment before it. -/
theorem takes_typeHeader (extra : List String) {ls : List Lexeme} (hls : IsTypeHeader ls)
    (hform : ∀ l ∈ ls, l.Formed) {doc : Doc} (hx : x.statement = { doc })
    (hk : x.draft.kind = none) :
    ∃ y, Takes x (ls.map (Lexeme.token extra) ++ [Token.brace]) y
      ∧ y.statement = {} ∧ y.draft.kind.isSome = true
      ∧ y.draft.description = doc.description := by
  obtain ⟨before, after, k, rfl, hall⟩ := hls
  simp only [List.forall_mem_append, List.forall_mem_cons] at hall hform
  obtain ⟨y, hy, hxy⟩ := takes_allInHeader extra (x := x) hall.1 hform.1
  have htype := Takes.typeWord (x := y) k (hxy.draft ▸ hk)
  obtain ⟨z, hz, hyz⟩ := takes_allInHeader extra (x := { y with
    draft := { y.draft with kind := some k }
    statement := { y.statement.flush with isHeader := true }.add ⟨.typeWord, k.word⟩ })
    hall.2 hform.2.2
  have hkept : z.statement.flush.Kept := by
    refine ⟨?_, ?_, ?_⟩
    · refine List.append_ne_nil_of_left_ne_nil (hyz.parts ?_) _
      exact List.append_ne_nil_of_right_ne_nil _ (by simp)
    · refine hyz.nested.trans (hxy.nested.trans ?_)
      rw [hx]
    · refine hyz.executable.trans (hxy.executable.trans ?_)
      rw [hx]
  have hbrace := Takes.brace_header hkept hyz.header
  have hdoc : z.statement.doc = doc := by
    refine hyz.doc.trans (hxy.doc.trans ?_)
    rw [hx]
  obtain ⟨_, _, _, _, _, hframe⟩ := Draft.applyHeader_frame z.draft
    z.flush.statement.parts z.flush.statement.doc ""
  refine ⟨z.next z.flush.withHeader, ?_, rfl, ?_, ?_⟩
  · rw [List.map_append, List.map_cons, token_keyword (by cases k <;> decide)]
    exact (hy.append (htype.cons hz)).append hbrace
  · have hsome : z.flush.withHeader.kind = z.draft.kind := (congrArg Draft.kind hframe :)
    show z.flush.withHeader.kind.isSome = true
    rw [hsome, hyz.draft]
    rfl
  · have hdescribed : z.flush.withHeader.description = z.statement.doc.description :=
      (congrArg Draft.description hframe :)
    show z.flush.withHeader.description = _
    rw [hdescribed, hdoc]

end

/-! ## After the header -/

theorem Walk.finish_description (w : Walk) :
    w.finish.value.description = w.draft.description := by
  rw [finish, Logged.value_bind, finishConstants_draft, Draft.finish_value]
  rfl

/-- What follows the header leaves the description alone. -/
theorem Walk.StandsAt.description_finish {w : Walk} {x : Standing} (hw : w.StandsAt x)
    (hx : x.statement = {}) (hk : x.draft.kind.isSome = true) (ts : List Token) :
    (w.steps ts).finish.value.description = x.draft.description := by
  have hpast : w.PastHeader := by
    refine ⟨hw.inType.trans hk, ?_⟩
    rw [hw.statement, hx]
  obtain ⟨_, _, _, _, hgrows⟩ := (hpast.steps ts).draft
  rw [Walk.finish_description, hgrows, ← hw.draft]
  rfl

/-- The tokens of a source up to the brace after a doc comment and a header. -/
theorem tokenize_typeComment {extra : List String} {p c h : List Char} {us : List Token}
    {ls : List Lexeme} (q : List Char)
    (hp : ∃ r, Spells extra 0 {} p (docComment c ++ (h ++ '{' :: q)) us r)
    (hc : IsDocText c) (hh : Laid false ls h) (hb : .block ∉ ls)
    (hopen : "/**" ∉ extra) (hclose : "*/" ∉ extra) :
    ∃ ts ts', tokenize (String.ofList (p ++ (docComment c ++ (h ++ '{' :: q)))) extra
        = ts ++ ts'
      ∧ bareTokens ts
        = us ++ (docTokens 0 ((commentWords c).map (Token.ofWord extra 0)) 0
          ++ (ls.map (Lexeme.token extra) ++ [Token.brace])) := by
  obtain ⟨r1, h1⟩ := hp
  obtain ⟨r2, hword, h2⟩ := Spells.docComment hc (by decide) h1.level (h ++ '{' :: q)
  obtain ⟨r3, h3⟩ := hh.spells extra (by decide) (fun hm => absurd hm hb)
    (t := '{' :: q) (by simp) h2.level fun _ => hword
  rw [← docTokens_commentWords hopen hclose] at h2
  rw [← List.append_assoc (docComment c)] at h1
  obtain ⟨ts, hread, hbare⟩ := (h1.trans (h2.trans h3)).tokens
  rw [Spells.read_opened h3.level.mode (by rw [h3.level.depth]; decide) q,
    prepend_prepend] at hread
  refine ⟨Token.lineNumber 1 :: (ts ++ (r3.gather.wordToken extra r3.line
    ++ [⟨.statementEnd, "\x7b", r3.line⟩])), r3.opened.tokens extra q, ?_, ?_⟩
  · rw [tokenize_eq_read, String.toList_ofList, ← List.append_assoc (docComment c),
      ← List.append_assoc p, Reader.tokens_of_read hread]
    rfl
  · -- the word before the brace is counted in with the lexemes
    rw [bareTokens_cons_line rfl, bareTokens_append, bareTokens_append, bareTokens_cons rfl,
      ← List.append_assoc, ← List.append_assoc (docTokens _ _ _), ← List.append_assoc us]
    exact congrArg (· ++ [Token.brace]) hbare

/-- **A doc comment before the header of a type describes the type**: the
    description of the outline is the one of the comment, whatever stands before
    the comment and in the body. -/
theorem outline_typeComment (settings : Settings) {p c h q : List Char}
    (hp : IsPreamble settings.ignoredKeywords p) (hc : IsDocText c)
    {ls : List Lexeme} (hls : IsTypeHeader ls) (hh : Laid false ls h)
    (hopen : "/**" ∉ settings.ignoredKeywords)
    (hclose : "*/" ∉ settings.ignoredKeywords)
    (hlines : LinesFit (String.ofList (p ++ (docComment c ++ (h ++ '{' :: q))))) :
    ∃ d, (outline (String.ofList (p ++ (docComment c ++ (h ++ '{' :: q)))) settings).value
        = .ok d
      ∧ d.description
        = (Doc.ofWords ((commentWords c).map DocWord.ofWord)).value.description := by
  obtain ⟨us, x, hpreamble, hstatement, hkind, hspells⟩ := hp
  have hawaits : x.awaitsConstants = false := by
    rw [Standing.awaitsConstants, hkind]
    rfl
  have hcomment := Takes.commentWords hawaits hc settings.ignoredKeywords
  generalize (Doc.ofWords ((commentWords c).map DocWord.ofWord)).value = doc at hcomment ⊢
  rw [hstatement] at hcomment
  obtain ⟨y, hheader, hy, hinType, hdescription⟩ := takes_typeHeader
    settings.ignoredKeywords (x := { x with statement := { doc } }) hls hh.formed rfl hkind
  obtain ⟨ts, ts', htokens, hts⟩ := tokenize_typeComment q (hspells _ rfl) hc hh
    hls.block_not_mem hopen hclose
  obtain ⟨ix, hix⟩ := outline_value settings hlines
  rw [htokens, Walk.steps_append] at hix
  have hstands := (hpreamble.append (hcomment.append hheader))
    { cursor := { lines := ix } } ts ⟨rfl, rfl, rfl, rfl, rfl, rfl⟩ hts
  refine ⟨_, hix, ?_⟩
  rw [hstands.description_finish hy hinType, hdescription]

end JavaOutline
