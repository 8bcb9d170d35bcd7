import JavaOutline.Proofs.CommentText

/-! # Sources without code

    A source of blanks and comments declares nothing, whatever its comments
    hold.  The proof has two halves that know nothing of each other.

    * Reading: in ordinary text such a source has only blanks and openers, so
      every word that is made there is an opener (`Reader.Codeless.mute`).
    * Walking: reader and walk agree on what is comment (`Agrees`), so a walk
      over such words opens comments, gathers their words and closes them, and
      otherwise stays where it started (`Walk.Idle.run`). -/

namespace JavaOutline

open Source

/-! ## Texts without code -/

/-- Text without code: blanks and line ends, line comments with the line ends
    after them, block comments, and at the end perhaps a comment that is not
    closed.  A block comment whose text starts with a star is a doc comment. -/
inductive Codeless : List Char → Prop where
  | nil : Codeless []
  | gap {c : Char} {cs : List Char} (hc : isGap c = true) :
      Codeless cs → Codeless (c :: cs)
  | lineComment {t cs : List Char} (ht : '\n' ∉ t) :
      Codeless cs → Codeless ('/' :: '/' :: (t ++ '\n' :: cs))
  | blockComment {t cs : List Char} (ht : ¬ ['*', '/'] <:+: t) :
      Codeless cs → Codeless ('/' :: '*' :: (t ++ '*' :: '/' :: cs))
  | openLine {t : List Char} (ht : '\n' ∉ t) : Codeless ('/' :: '/' :: t)
  | openBlock {t : List Char} (ht : ¬ ['*', '/'] <:+: t) :
      Codeless ('/' :: '*' :: t)

/-- Doc comments among them. -/
theorem Codeless.docComment {t cs : List Char} (ht : IsDocText t)
    (h : Codeless cs) : Codeless (docComment t ++ cs) := by
  have hstar : ¬ ['*', '/'] <:+: '*' :: t := by
    rw [List.infix_cons_iff]
    rintro (hpre | hin)
    · obtain ⟨s, hs⟩ := hpre
      cases t with
      | nil => cases hs
      | cons c t =>
          cases hs
          exact ht.opens rfl
    · exact ht.lasts hin
  have hblock := Codeless.blockComment hstar h
  simpa [JavaOutline.docComment] using hblock

/-- The same texts character by character, from each mode that can be met. -/
inductive CodelessFrom : Mode → List Char → Prop where
  | done {m : Mode} (hm : m.isLiteral = false) : CodelessFrom m []
  | gap {c : Char} {cs : List Char} (hc : isGap c = true) :
      CodelessFrom .code cs → CodelessFrom .code (c :: cs)
  | lineOpener {cs : List Char} :
      CodelessFrom .lineComment cs → CodelessFrom .code ('/' :: '/' :: cs)
  | blockOpener {cs : List Char} :
      CodelessFrom .blockComment cs → CodelessFrom .code ('/' :: '*' :: cs)
  | lineChar {c : Char} {cs : List Char} (hc : c ≠ '\n') :
      CodelessFrom .lineComment cs → CodelessFrom .lineComment (c :: cs)
  | lineEnd {cs : List Char} :
      CodelessFrom .code cs → CodelessFrom .lineComment ('\n' :: cs)
  | blockChar {c : Char} {cs : List Char} (hc : c = '*' → cs.head? ≠ some '/') :
      CodelessFrom .blockComment cs → CodelessFrom .blockComment (c :: cs)
  | closer {cs : List Char} :
      CodelessFrom .code cs → CodelessFrom .blockComment ('*' :: '/' :: cs)

/-- The text of a line comment. -/
theorem CodelessFrom.lineText {t cs : List Char} (ht : '\n' ∉ t)
    (h : CodelessFrom .lineComment cs) : CodelessFrom .lineComment (t ++ cs) := by
  induction t with
  | nil => exact h
  | cons c t ih =>
      obtain ⟨hc, ht⟩ := List.ne_and_not_mem_of_not_mem_cons ht
      exact .lineChar (Ne.symm hc) (ih ht)

/-- The text of a block comment. -/
theorem CodelessFrom.blockText {t cs : List Char} (ht : ¬ ['*', '/'] <:+: t)
    (hcs : cs.head? ≠ some '/') (h : CodelessFrom .blockComment cs) :
    CodelessFrom .blockComment (t ++ cs) := by
  induction t with
  | nil => exact h
  | cons c t ih =>
      have hrest : ¬ ['*', '/'] <:+: t := fun hin =>
        ht (hin.trans (List.suffix_cons c t).isInfix)
      refine .blockChar ?_ (ih hrest)
      -- what follows a star is the rest of the text, or what comes after it
      rintro rfl hslash
      cases t with
      | nil => exact hcs hslash
      | cons d t =>
          have hd : d = '/' := by simpa using hslash
          subst hd
          exact ht ⟨[], t, rfl⟩

theorem Codeless.from {cs : List Char} (h : Codeless cs) :
    CodelessFrom .code cs := by
  induction h with
  | nil => exact .done rfl
  | gap hc _ ih => exact .gap hc ih
  | lineComment ht _ ih => exact .lineOpener (.lineText ht (.lineEnd ih))
  | blockComment ht _ ih =>
      exact .blockOpener (.blockText ht (by simp) (.closer ih))
  | @openLine t ht =>
      have htext := CodelessFrom.lineText ht (.done rfl)
      rw [List.append_nil] at htext
      exact .lineOpener htext
  | @openBlock t ht =>
      have htext := CodelessFrom.blockText ht (by simp) (.done rfl)
      rw [List.append_nil] at htext
      exact .blockOpener htext

/-! ## Reading -/

/-- The pieces of such a text, with the modes before and after them. -/
inductive QuietPiece : Mode → Piece → Mode → Prop where
  | blank {c : Char} (hc : isSeparator c = true) : QuietPiece .code (.code c) .code
  | opener (o : Opener) : QuietPiece .code (.opener o) o.mode
  | lineChar (c : Char) : QuietPiece .lineComment (.comment c) .lineComment
  | blockChar (c : Char) : QuietPiece .blockComment (.comment c) .blockComment
  | closer : QuietPiece .blockComment .closer .code

/-- An opener takes the star after it, unless that star closes the comment. -/
theorem CodelessFrom.bite_blockOpener {cs : List Char}
    (h : CodelessFrom .blockComment cs) :
    ∃ (p : Piece) (m' : Mode) (rest : List Char),
      bite .code '/' ('*' :: cs) = ⟨[p], m', rest⟩ ∧ QuietPiece .code p m'
        ∧ CodelessFrom m' rest := by
  by_cases hstar : cs.head? = some '*'
  · obtain ⟨r, rfl⟩ := List.head?_eq_some_iff.mp hstar
    by_cases hslash : r.head? = some '/'
    · obtain ⟨r, rfl⟩ := List.head?_eq_some_iff.mp hslash
      exact ⟨_, _, _, rfl, .opener .block, h⟩
    · refine ⟨_, _, _, bite_doc hslash, .opener .doc, ?_⟩
      cases h with
      | blockChar _ h => exact h
      | closer _ => exact absurd rfl hslash
  · exact ⟨_, _, _, bite_block hstar, .opener .block, h⟩

/-- A step inside a line reads one such piece. -/
theorem CodelessFrom.bite {m : Mode} {c : Char} {cs : List Char}
    (h : CodelessFrom m (c :: cs)) (hc : c ≠ '\n') :
    ∃ (p : Piece) (m' : Mode) (rest : List Char),
      Source.bite m c cs = ⟨[p], m', rest⟩ ∧ QuietPiece m p m'
        ∧ CodelessFrom m' rest := by
  cases h with
  | gap hgap h =>
      have hsep : isSeparator c = true := by simpa [isGap, hc] using hgap
      have hne : c ≠ '/' ∧ c ≠ '"' ∧ c ≠ '\'' := by
        refine ⟨?_, ?_, ?_⟩ <;>
        · rintro rfl
          cases hsep
      exact ⟨_, _, _, bite_code hne.1 hne.2.1 hne.2.2 cs, .blank hsep, h⟩
  | lineOpener h => exact ⟨_, _, _, rfl, .opener .line, h⟩
  | blockOpener h => exact h.bite_blockOpener
  | lineChar hne h => exact ⟨_, _, _, bite_lineComment c cs, .lineChar c, h⟩
  | lineEnd h => exact absurd rfl hc
  | blockChar hstar h => exact ⟨_, _, _, bite_blockComment hstar, .blockChar c, h⟩
  | @closer cs h => exact ⟨_, _, _, bite_closer cs, .closer, h⟩

/-- A token that is no code: it keeps track of lines, or it is a word, and if the
    walk is to be in ordinary code it is an opener. -/
def Emission.Mute (extra : List String) (e : Emission) : Prop :=
  e.token.kind.isLine = true
    ∨ ∃ (n : Nat) (word : String), e.token = Token.ofWord extra n word
      ∧ (e.span = .code → ∃ o : Opener, word = String.ofList o.text)

theorem Source.Mode.span_comment {m : Mode} (h : m = .lineComment ∨ m = .blockComment)
    (o : Opener) : m.span o ≠ .code := by
  rcases h with rfl | rfl
  · exact Span.noConfusion
  · cases o <;> exact Span.noConfusion

namespace Gather

variable {g : Gather} {m : Mode} {extra : List String}

/-- The word under construction in a comment, or in ordinary text where there is
    none. -/
theorem wordToken_mute (extra : List String) (hw : m = .code → g.word = [])
    (hm : m.isLiteral = false) (n : Nat) (o : Opener) :
    ∀ t ∈ g.wordToken extra n, Emission.Mute extra ⟨t, m, o⟩ := by
  intro t ht
  rw [wordToken] at ht
  split at ht
  · cases ht
  · next hne =>
      have hcomment : m = .lineComment ∨ m = .blockComment := by
        cases m with
        | code =>
            rw [hw rfl] at hne
            exact absurd rfl hne
        | lineComment => exact .inl rfl
        | blockComment => exact .inr rfl
        | _ => cases hm
      rw [List.mem_singleton.mp ht]
      exact .inr ⟨n, _, rfl, fun hs => absurd hs (Mode.span_comment hcomment o)⟩

/-- What a quiet piece gives, and where it leaves the gathering: in ordinary text
    with no word begun. -/
structure Hush (extra : List String) (m m' : Mode) (o : Opener) (g : Gather)
    (x : Gather × List Token) : Prop where
  depth : x.1.depth = g.depth
  angle : x.1.angle = g.angle
  word : m' = .code → x.1.word = []
  tokens : ∀ t ∈ x.2, Emission.Mute extra ⟨t, m, o⟩

/-- A character of a comment ends the word or joins it. -/
theorem step_comment (hcap : g.capturing = true) (hm : m ≠ .code) (n : Nat)
    (o : Opener) (c : Char)
    (hword : ∀ t ∈ g.wordToken extra n, Emission.Mute extra ⟨t, m, o⟩) :
    Hush extra m m o g (g.step extra n (.comment c)) := by
  rw [step]
  split
  · exact ⟨rfl, rfl, fun _ => rfl, hword⟩
  · rw [take_capturing hcap]
    exact ⟨rfl, rfl, fun h => absurd h hm, List.forall_mem_nil _⟩

/-- A mark ends the word and is a word of its own. -/
theorem mark_hush (hcap : g.capturing = true) (m' : Mode) (n : Nat) (o : Opener)
    (hword : ∀ t ∈ g.wordToken extra n, Emission.Mute extra ⟨t, m, o⟩)
    {u : List Char}
    (hu : m.span o = .code → ∃ o' : Opener, String.ofList u = String.ofList o'.text) :
    Hush extra m m' o g (g.mark extra n u) := by
  rw [mark_capturing hcap]
  refine ⟨rfl, rfl, fun _ => rfl, ?_⟩
  rw [List.forall_mem_append, List.forall_mem_singleton]
  exact ⟨hword, .inr ⟨n, _, rfl, hu⟩⟩

theorem step_quiet (extra : List String) {p : Piece} {m' : Mode}
    (hp : QuietPiece m p m') (hcap : g.capturing = true) (ha : g.angle = 0)
    (hw : m = .code → g.word = []) (n : Nat) (o : Opener) :
    Hush extra m m' o g (g.step extra n p) := by
  have hword := wordToken_mute extra hw (by cases hp <;> rfl) n o
  cases hp with
  | @blank c hc =>
      have hrole : CodeRole.of c = .blank := by
        have hne : c ≠ '<' ∧ c ≠ '>' := by
          refine ⟨?_, ?_⟩ <;>
          · rintro rfl
            cases hc
        simp [CodeRole.of, hne, hc]
      show Hush extra .code .code o g (g.code extra n c)
      simp only [code, hrole, if_pos ha]
      exact ⟨rfl, rfl, fun _ => rfl, hword⟩
  | opener o' => exact mark_hush hcap o'.mode n o hword fun _ => ⟨o', rfl⟩
  | lineChar c => exact step_comment hcap Mode.noConfusion n o c hword
  | blockChar c => exact step_comment hcap Mode.noConfusion n o c hword
  | closer =>
      exact mark_hush hcap .code n o hword fun hs =>
        absurd hs (Mode.span_comment (.inr rfl) o)

end Gather

/-- The reader has a text without code before it, and no word begun in ordinary
    text. -/
structure Reader.Codeless (r : Reader) (cs : List Char) : Prop where
  text : CodelessFrom r.mode cs
  depth : r.gather.depth = 0
  angle : r.gather.angle = 0
  word : r.mode = .code → r.gather.word = []

namespace Reader.Codeless

variable {extra : List String} {r : Reader} {cs : List Char}

theorem capturing (h : r.Codeless cs) : r.gather.capturing = true := by
  rw [Gather.capturing, h.depth]
  rfl

theorem not_literal (h : r.Codeless cs) : r.mode.isLiteral = false := by
  have htext := h.text
  generalize r.mode = m at htext
  cases htext with
  | done hm => exact hm
  | _ => rfl

/-- A line end leads to such a text again. -/
theorem nextLine (h : r.Codeless ('\n' :: cs)) : r.nextLine.Codeless cs := by
  have htext : CodelessFrom r.mode.nextLine cs := by
    have htext := h.text
    generalize r.mode = m at htext
    cases htext with
    | gap _ h => exact h
    | lineChar hne _ => exact absurd rfl hne
    | lineEnd h => exact h
    | blockChar _ h => exact h
  exact ⟨htext, h.depth, rfl, fun _ => rfl⟩

/-- A step inside a line leads to such a text again, and its tokens are no
    code. -/
theorem take {c : Char} (h : r.Codeless (c :: cs)) (hc : c ≠ '\n')
    (extra : List String) (o : Opener) :
    (r.take extra (bite r.mode c cs)).Codeless (bite r.mode c cs).rest
      ∧ ∀ t ∈ (r.gather.steps extra r.line (bite r.mode c cs).pieces).2,
          Emission.Mute extra ⟨t, r.mode, o⟩ := by
  obtain ⟨p, m, rest, hbite, hp, hrest⟩ := h.text.bite hc
  have hstep := Gather.step_quiet extra hp h.capturing h.angle h.word
    r.line o
  rw [hbite, Gather.steps_singleton]
  refine ⟨⟨hrest, ?_, ?_, ?_⟩, hstep.tokens⟩
  · rw [Reader.take_singleton, hstep.depth, h.depth]
  · rw [Reader.take_singleton, hstep.angle, h.angle]
  · rw [Reader.take_singleton]
    exact hstep.word

theorem close_mute (h : r.Codeless cs) (o : Opener) :
    ∀ t ∈ r.close extra, Emission.Mute extra ⟨t, r.mode, o⟩ := by
  rw [close, List.forall_mem_append, List.forall_mem_singleton]
  exact ⟨Gather.wordToken_mute extra h.word h.not_literal r.line o, .inl rfl⟩

/-- **In ordinary text there are only openers**: no token of the text is code. -/
theorem mute {o : Opener} (h : r.Codeless cs) :
    ∀ e ∈ r.emissions extra o cs, e.Mute extra := by
  fun_induction Reader.emissions extra r o cs with
  | case1 r o => exact List.forall_mem_map.mpr (h.close_mute o)
  | case2 r o cs ih =>
      rw [List.forall_mem_append, List.forall_mem_map, lineEnd,
        List.forall_mem_append, List.forall_mem_singleton]
      exact ⟨⟨h.close_mute o, .inl rfl⟩, ih h.nextLine⟩
  | case3 r o c cs hc k ih =>
      obtain ⟨hnext, htokens⟩ := h.take hc extra o
      rw [List.forall_mem_append, List.forall_mem_map]
      exact ⟨htokens, ih hnext⟩

/-- Reader and walk agree on such a text: it has no text block. -/
theorem agrees {o : Opener} (hextra : ∀ m ∈ commentMarks, m ∉ extra)
    (h : r.Codeless cs) :
    ∀ {w : Walk}, Synced r o cs w → Agrees w (r.emissions extra o cs) := by
  fun_induction Reader.emissions extra r o cs with
  | case1 r o =>
      intro w hw
      exact (hw.close extra).agrees
  | case2 r o cs ih =>
      intro w hw
      have hblock : r.mode = .textBlock → bodyDepth ≤ r.gather.depth := by
        intro hm
        have hliteral := h.not_literal
        rw [hm] at hliteral
        cases hliteral
      exact (hw.lineEnd extra).agrees.append (ih h.nextLine (hw.newline hblock))
  | case3 r o c cs hc k ih =>
      intro w hw
      obtain ⟨hagrees, hsynced⟩ := hw.step hextra
      exact hagrees.append (ih (h.take hc extra o).1 hsynced)

end Reader.Codeless

/-! ## Walking -/

/-- A doc comment reports only what it has read. -/
theorem Doc.ofWords_log (ws : List DocWord) :
    ∀ e ∈ (Doc.ofWords ws).log, e.origin = .comment := by
  have hstep : ∀ (r : DocReading) (word : DocWord),
      ∀ e ∈ (r.step word).log, e.origin = .comment := by
    intro r word e he
    cases word with
    | text w => cases he
    | tag t =>
        rw [DocReading.step] at he
        split at he
        · cases he
        · cases he
        · rw [List.mem_singleton.mp he]
          rfl
  have hfold : ∀ r : DocReading,
      ∀ e ∈ (Logged.fold DocReading.step r ws).log, e.origin = .comment := by
    induction ws with
    | nil =>
        intro r e he
        cases he
    | cons word ws ih =>
        intro r
        rw [Logged.fold, Logged.log_bind, List.forall_mem_append]
        exact ⟨hstep r word, ih _⟩
  rw [Doc.ofWords, Logged.log_bind, Logged.log_pure, List.append_nil]
  exact hfold {}

namespace Walk

/-- The walk has read no code. -/
structure Idle (w : Walk) : Prop where
  draft : w.draft = {}
  statement : w.statement = { doc := w.statement.doc }
  annotation : w.annotation = .absent

variable {w : Walk}

/-- A step that keeps the walk idle, and reports nothing but what a doc comment
    holds. -/
structure StaysIdle (x : Logged Walk) : Prop where
  idle : x.value.Idle
  log : ∀ e ∈ x.log, e.origin = .comment

theorem Idle.pure (h : w.Idle) : StaysIdle (Pure.pure w) :=
  ⟨h, List.forall_mem_nil _⟩

theorem Idle.closeDoc (h : w.Idle) : StaysIdle w.closeDoc := by
  have hin : w.inConstants = false := by
    rw [inConstants, awaitsConstants, h.draft]
    rfl
  refine ⟨⟨?_, ?_, ?_⟩, ?_⟩
  · simp only [Walk.closeDoc, Logged.value_bind, Logged.value_pure, hin]
    exact h.draft
  · simp only [Walk.closeDoc, Logged.value_bind, Logged.value_pure, hin]
    rw [h.statement]
    rfl
  · simp only [Walk.closeDoc, Logged.value_bind, Logged.value_pure, hin]
    exact h.annotation
  · rw [Walk.closeDoc, Logged.log_bind, Logged.log_pure, List.append_nil]
    exact Doc.ofWords_log w.docWords

/-- The end of a comment that is open. -/
theorem Idle.closeComment (h : w.Idle) (hs : w.span ≠ .code) :
    StaysIdle w.closeComment := by
  rw [Walk.closeComment]
  cases hspan : w.span with
  | code => exact absurd hspan hs
  | doc =>
      obtain ⟨⟨hdraft, hstatement, hannotation⟩, hlog⟩ := h.closeDoc
      refine ⟨⟨hdraft, hstatement, hannotation⟩, ?_⟩
      rw [Logged.log_bind, Logged.log_pure, List.append_nil]
      exact hlog
  | blockComment =>
      exact ⟨⟨h.draft, h.statement, h.annotation⟩, List.forall_mem_nil _⟩
  | lineComment =>
      exact ⟨⟨h.draft, h.statement, h.annotation⟩, List.forall_mem_nil _⟩

/-- Inside a comment a keyword is a word like any other. -/
theorem Idle.keyword (h : w.Idle) (hs : w.span ≠ .code) (word : String)
    (line : Int) : StaysIdle (w.keyword word line) := by
  rw [Walk.keyword]
  cases hspan : w.span with
  | code => exact absurd hspan hs
  | _ => exact Idle.pure ⟨h.draft, h.statement, h.annotation⟩

/-- Inside a comment a symbol closes it or is a word of it. -/
theorem Idle.symbol (h : w.Idle) (hs : w.span ≠ .code) (word : String) :
    StaysIdle (w.symbol word) := by
  by_cases hl : w.span = .lineComment
  · rw [Walk.symbol, if_pos hl]
    exact Idle.pure ⟨h.draft, h.statement, rfl⟩
  rw [Walk.symbol, if_neg hl]
  split
  · obtain ⟨hidle, hlog⟩ := h.closeComment hs
    refine ⟨⟨hidle.draft, hidle.statement, rfl⟩, ?_⟩
    rw [Logged.log_bind, Logged.log_pure, List.append_nil]
    exact hlog
  · cases hspan : w.span with
    | code => exact absurd hspan hs
    | lineComment => exact absurd hspan hl
    | doc | blockComment => exact Idle.pure ⟨h.draft, h.statement, rfl⟩

/-- In ordinary code an opener opens a comment. -/
theorem Idle.opener (h : w.Idle) (hs : w.span = .code) (o : Opener) :
    StaysIdle (w.symbol (String.ofList o.text)) := by
  have hsymbol : w.symbol (String.ofList o.text)
      = Pure.pure (w.codeSymbol (String.ofList o.text)) := by
    rw [Walk.symbol, hs]
    cases o <;> rfl
  rw [hsymbol]
  cases o <;> exact Idle.pure ⟨h.draft, h.statement, rfl⟩

/-- A token that is no code leaves the walk idle. -/
theorem Idle.step {extra : List String} {e : Emission} (h : w.Idle)
    (hextra : ∀ m ∈ commentMarks, m ∉ extra) (hmute : e.Mute extra)
    (hfits : e.token.kind.isLine = false → e.Fits w) :
    StaysIdle (w.step e.token) := by
  have hstep : w.step e.token = w.plainStep e.token := by
    rw [Walk.step, h.annotation]
  rw [hstep, plainStep]
  rcases hmute with hline | ⟨n, word, htoken, hopener⟩
  · cases hk : e.token.kind with
    | sign => exact h.pure
    | lineNumber => exact Idle.pure ⟨h.draft, h.statement, h.annotation⟩
    | _ =>
        rw [hk] at hline
        cases hline
  · have hline := (Token.inLine_ofWord extra n word).not_line
    rw [← htoken] at hline
    -- no argument of an annotation is passed over, so the spans are the same
    have hspan : w.span = e.span :=
      (hfits hline).span.span_of_not_inArguments (by rw [inArguments, h.annotation])
    rw [htoken, Token.ofWord]
    by_cases hs : w.span = .code
    · obtain ⟨o, rfl⟩ := hopener (hspan ▸ hs)
      have hmark := o.text_mem_commentMarks
      rw [isKeyword_of_commentMark hmark (hextra _ hmark)]
      exact h.opener hs o
    · cases Keyword.isKeyword extra word with
      | true => exact h.keyword hs word n
      | false => exact h.symbol hs word

/-- **A walk over tokens that are no code stays idle**, and reports nothing but
    what doc comments hold. -/
theorem Idle.run {extra : List String} (hextra : ∀ m ∈ commentMarks, m ∉ extra)
    {es : List Emission} (hmute : ∀ e ∈ es, e.Mute extra)
    (haccept : ∀ e ∈ es, e.token.Accepted) :
    ∀ {w : Walk}, w.Idle → Agrees w es →
      ∃ v : Walk, (w.run (es.map Emission.token)).value = .ok v ∧ v.Idle
        ∧ ∀ e ∈ (w.run (es.map Emission.token)).log, e.origin = .comment := by
  induction es with
  | nil =>
      intro w h _
      exact ⟨w, rfl, h, List.forall_mem_nil _⟩
  | cons e es ih =>
      intro w h hagrees
      have hstep := h.step hextra (hmute e (by simp)) hagrees.1
      obtain ⟨v, hv, hidle, hlog⟩ := ih (fun e he => hmute e (by simp [he]))
        (fun e he => haccept e (by simp [he])) hstep.idle hagrees.2
      rw [List.map_cons, Walk.run, (haccept e (by simp)).refusal? w]
      refine ⟨v, hv, hidle, ?_⟩
      rw [Logged.log_bind, List.forall_mem_append]
      exact ⟨hstep.log, hlog⟩

/-- An idle walk ends with a declaration that says nothing, and reports that
    there is no type. -/
theorem Idle.finish (h : w.Idle) : w.finish = ⟨{}, [.noType]⟩ := by
  have hawaits : w.awaitsConstants = false := by
    rw [awaitsConstants, h.draft]
    rfl
  rw [Walk.finish, finishConstants, hawaits]
  show w.draft.finish = _
  rw [h.draft]
  rfl

end Walk

/-! ## Whole sources -/

/-- **A source without code declares nothing.**  Its outline is the empty class,
    and apart from what doc comments hold it reports one thing, that there is no
    type. -/
theorem outline_codeless {source : String} {settings : Settings}
    (h : Codeless source.toList)
    (hmarks : ∀ m ∈ commentMarks, m ∉ settings.ignoredKeywords)
    (hlines : LinesFit source) :
    (outline source settings).value = .ok {}
      ∧ ∃ log, (outline source settings).log = log ++ [.noType]
        ∧ ∀ e ∈ log, e.origin = .comment := by
  have haccept := tokenize_accepted hlines settings.ignoredKeywords
  obtain ⟨ix, hix⟩ := LineIndex.gather_of_accepted haccept 1 []
  let w : Walk := { cursor := { lines := ix } }
  have hw : w.Idle := ⟨rfl, rfl, rfl⟩
  have hreader : Reader.Codeless {} source.toList := ⟨h.from, rfl, rfl, fun _ => rfl⟩
  -- the walk takes the number of the first line before the reader starts
  have hstart : Synced {} .line source.toList (w.step (Token.lineNumber 1)).value := by
    refine ⟨?_, fun _ => rfl, fun _ => wordSafe_nil rfl _⟩
    rw [Walk.step_lineNumber]
    rfl
  have hagrees : Agrees w (emissions source settings.ignoredKeywords) :=
    ⟨fun hl => absurd hl Bool.noConfusion, hreader.agrees hmarks hstart⟩
  have hmute : ∀ e ∈ emissions source settings.ignoredKeywords,
      e.Mute settings.ignoredKeywords := by
    rw [emissions, List.forall_mem_cons]
    exact ⟨.inl rfl, hreader.mute⟩
  rw [← map_token_emissions, List.forall_mem_map] at haccept
  obtain ⟨v, hrun, hidle, hlog⟩ := hw.run hmarks hmute haccept hagrees
  rw [map_token_emissions] at hrun hlog
  have hfinish := hidle.finish
  rw [outline, Declaration.ofTokens, LineIndex.ofTokens, hix]
  refine ⟨?_, _, ?_, hlog⟩
  · simp only [Logged.value_bind]
    rw [hrun]
    simp only [Logged.value_bind, hfinish, Logged.value_pure]
  · simp only [Logged.log_bind]
    rw [hrun]
    simp only [Logged.log_bind, hfinish, Logged.log_pure, List.append_nil]
    rfl

/-- Comments with keywords, braces, quotes and closers in them, one with a tag that
    is unknown, and one that is not closed. -/
def codelessText : List Char :=
  "\t/***/// class A\x7b ; */ \"\r\n/** @odd package p; */\x0c/**/ /* enum E\x7b 'x".toList

theorem outline_codelessText :
    (outline (String.ofList codelessText) {}).value = .ok {}
      ∧ ∃ log, (outline (String.ofList codelessText) {}).log = log ++ [.noType]
        ∧ ∀ e ∈ log, e.origin = .comment := by
  have htext : Codeless codelessText :=
    .gap rfl (.blockComment (t := ['*']) (by decide +kernel)
      (.lineComment (t := " class A\x7b ; */ \"\r".toList) (by decide +kernel)
        (.docComment (t := " @odd package p; ".toList)
          ⟨by decide +kernel, by decide +kernel⟩
          (.gap rfl (.blockComment (t := []) (by decide +kernel) (.gap rfl
            (.openBlock (t := " enum E\x7b 'x".toList) (by decide +kernel))))))))
  rw [← String.toList_ofList (l := codelessText)] at htext
  exact outline_codeless htext (by decide) (linesFit_ofList (by decide +kernel))

end JavaOutline
