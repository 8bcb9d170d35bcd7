import JavaOutline.Proofs.CommentAgreement
import JavaOutline.Proofs.DocEffect

/-! # Doc comments in a source

    A doc comment is its opener, a text and its closer.  The reader gives the
    words of the text, parted by blanks and line ends, between the two marks
    (`Spells.docComment`), and a walk in ordinary code that takes them has read
    the words into one record, whatever lines the comment stands on
    (`Takes.docComment`). -/

namespace JavaOutline

open Source

/-! ## The words of a comment -/

/-- The words of a comment: what stands between blanks and line ends. -/
def commentWords (cs : List Char) : List String :=
  ((cs.splitOnP isGap).filter fun w => !w.isEmpty).map String.ofList

/-- A text that can stand between the marks of a doc comment: it does not close
    the comment, and it does not make the opener an empty comment. -/
structure IsDocText (cs : List Char) : Prop where
  opens : cs.head? ≠ some '/'
  lasts : ¬ ['*', '/'] <:+: cs

theorem commentWords_append_gap (u cs : List Char) {c : Char}
    (hc : isGap c = true) :
    commentWords (u ++ c :: cs) = commentWords u ++ commentWords cs := by
  rw [commentWords, List.splitOnP_append_cons u cs hc, List.filter_append,
    List.map_append]
  rfl

theorem commentWords_of_not_gap {u : List Char} (h : ∀ c ∈ u, isGap c = false) :
    commentWords u = if u.isEmpty then [] else [String.ofList u] := by
  rw [commentWords, List.splitOnP_eq_singleton h]
  cases u <;> rfl

/-- What stands between two gaps stands in the text, and the first such piece at
    its start. -/
theorem infix_of_mem_splitOnP {p : Char → Bool} (cs : List Char) :
    (∀ w ∈ (cs.splitOnP p).head?, w <+: cs) ∧ ∀ w ∈ cs.splitOnP p, w <:+: cs := by
  induction cs with
  | nil => simp
  | cons c cs ih =>
      have hcons : ∀ w, w <:+: cs → w <:+: c :: cs := fun w h =>
        h.trans (List.suffix_cons c cs).isInfix
      obtain ⟨hfirst, hmem⟩ := ih
      rw [List.splitOnP_cons_eq_if_modifyHead]
      split
      · refine ⟨by simp, fun w hw => ?_⟩
        rcases List.mem_cons.mp hw with rfl | hw
        · exact List.nil_infix
        · exact hcons w (hmem w hw)
      · cases hs : cs.splitOnP p with
        | nil => simp
        | cons v vs =>
            rw [hs] at hfirst hmem
            have hv : c :: v <+: c :: cs :=
              (List.prefix_cons_inj c).mpr (hfirst v rfl)
            refine ⟨fun w hw => ?_, fun w hw => ?_⟩
            · cases hw
              exact hv
            · rcases List.mem_cons.mp hw with rfl | hw
              · exact hv.isInfix
              · exact hcons w (hmem w (List.mem_cons_of_mem v hw))

/-- No word of a comment closes it. -/
theorem ne_closer_of_mem_commentWords {cs : List Char} (h : ¬ ['*', '/'] <:+: cs) :
    ∀ w ∈ commentWords cs, w ≠ "*/" := by
  rintro w hw rfl
  obtain ⟨u, hu, hcloser⟩ := List.mem_map.mp hw
  have hchars : u = ['*', '/'] := by
    rw [← String.toList_ofList (l := u), hcloser]
    rfl
  rw [hchars] at hu
  exact h ((infix_of_mem_splitOnP cs).2 _ (List.mem_filter.mp hu).1)

/-! ## Reading a comment -/

theorem Source.bite_closer (cs : List Char) :
    bite .blockComment '*' ('/' :: cs) = ⟨[.closer], .code, cs⟩ := by
  rw [bite_eq_cut (fun _ h => by cases h) (by simp)]
  rfl

/-- A step that reads one piece. -/
theorem Reader.read_piece (extra : List String) (r : Reader) {c : Char}
    (hc : c ≠ '\n') {cs rest : List Char} {p : Piece} {m : Mode}
    (hbite : bite r.mode c cs = ⟨[p], m, rest⟩) {g : Gather} {ts : List Token}
    (hstep : r.gather.step extra r.line p = (g, ts)) :
    r.read extra (c :: cs)
      = prepend ts (Reader.read extra
          { r with text := p.text.reverse ++ r.text, mode := m, gather := g }
          rest) := by
  rw [read_cons extra r hc, hbite, take, Gather.steps_singleton, hstep]
  simp

/-- A mark of a comment ends the word and is a token. -/
theorem Gather.mark_capturing {g : Gather} (h : g.capturing = true)
    (extra : List String) (n : Nat) (w : List Char) :
    g.mark extra n w
      = (g.clear, g.wordToken extra n ++ [Token.ofWord extra n (String.ofList w)]) := by
  rw [mark, if_pos h]

theorem Reader.bareTokens_mark (extra : List String) (r : Reader) (w : String) :
    bareTokens (r.gather.wordToken extra r.line ++ [Token.ofWord extra r.line w])
      = r.pending extra ++ [Token.ofWord extra 0 w] := by
  rw [bareTokens_append, bareTokens_cons (Token.inLine_ofWord extra _ _).not_line]
  rfl

/-- Inside a block comment at depth `d`. -/
structure Reader.InComment (d : Nat) (r : Reader) : Prop where
  mode : r.mode = .blockComment
  depth : r.gather.depth = d
  angle : r.gather.angle = 0
  word : ∀ c ∈ r.gather.word, isGap c = false

namespace Reader.InComment

variable {d : Nat} {r : Reader} (extra : List String)

theorem capturing (h : r.InComment d) (hd : d < bodyDepth) :
    r.gather.capturing = true :=
  decide_eq_true (h.depth ▸ hd)

theorem pending (h : r.InComment d) :
    r.pending extra
      = (commentWords r.gather.word.reverse).map (Token.ofWord extra 0) := by
  have hword : ∀ c ∈ r.gather.word.reverse, isGap c = false := by
    simpa using h.word
  rw [commentWords_of_not_gap hword, Reader.pending, Gather.wordToken,
    List.isEmpty_reverse]
  split
  · rfl
  · exact bareTokens_cons (Token.inLine_ofWord extra _ _).not_line []

/-- A blank or a line end ends the word. -/
theorem read_gap (h : r.InComment d) {c : Char} (hc : isGap c = true)
    (cs : List Char) :
    ∃ (r' : Reader) (ts : List Token), r'.InComment d ∧ r'.gather.word = []
      ∧ r.read extra (c :: cs) = prepend ts (r'.read extra cs)
      ∧ bareTokens ts = r.pending extra := by
  by_cases hn : c = '\n'
  · subst hn
    refine ⟨r.nextLine, r.lineEnd extra, ⟨?_, h.depth, rfl, by simp [Reader.nextLine, Reader.atLine]⟩, rfl,
      read_newline extra r cs, bareTokens_lineEnd extra r⟩
    rw [Reader.nextLine, h.mode]
    rfl
  · have hsep : isSeparator c = true := by simpa [isGap, hn] using hc
    have hbite : bite r.mode c cs = ⟨[.comment c], .blockComment, cs⟩ := by
      rw [h.mode]
      refine bite_blockComment ?_
      rintro rfl
      cases hc
    have hstep : r.gather.step extra r.line (.comment c)
        = (r.gather.clear, r.gather.wordToken extra r.line) := by
      rw [Gather.step, if_pos hsep]
    refine ⟨_, _, ?_, ?_, read_piece extra r hn hbite hstep, rfl⟩
    · exact ⟨rfl, h.depth, h.angle, by simp [Gather.clear]⟩
    · rfl

/-- Any other character that does not close the comment joins the word. -/
theorem read_char (h : r.InComment d) (hd : d < bodyDepth) {c : Char}
    (hc : isGap c = false) {cs : List Char} (hstar : c = '*' → cs.head? ≠ some '/') :
    (r.spell .blockComment [c]).InComment d
      ∧ r.read extra (c :: cs) = (r.spell .blockComment [c]).read extra cs := by
  have hgap : isSeparator c = false ∧ c ≠ '\n' := by
    simpa [isGap] using hc
  have hbite : bite r.mode c cs = ⟨[.comment c], .blockComment, cs⟩ := by
    rw [h.mode]
    exact bite_blockComment hstar
  have hstep : r.gather.step extra r.line (.comment c)
      = ({ r.gather with word := c :: r.gather.word }, []) := by
    rw [Gather.step, hgap.1, Gather.take_capturing (h.capturing hd)]
    rfl
  refine ⟨⟨rfl, h.depth, h.angle, ?_⟩, read_piece extra r hgap.2 hbite hstep⟩
  intro e he
  rcases List.mem_cons.mp he with rfl | he
  · exact hc
  · exact h.word e he

/-- The closer ends the word and is a token. -/
theorem read_closer (h : r.InComment d) (hd : d < bodyDepth) (cs : List Char) :
    ∃ (r' : Reader) (ts : List Token), r'.Level d ∧ r'.gather.word = []
      ∧ r.read extra ('*' :: '/' :: cs) = prepend ts (r'.read extra cs)
      ∧ bareTokens ts = r.pending extra ++ [Token.ofWord extra 0 "*/"] := by
  have hbite : bite r.mode '*' ('/' :: cs) = ⟨[.closer], .code, cs⟩ := by
    rw [h.mode]
    exact bite_closer cs
  refine ⟨_, _, ?_, ?_, read_piece extra r (by decide) hbite
    (Gather.mark_capturing (h.capturing hd) _ _ _), bareTokens_mark extra r "*/"⟩
  · exact ⟨rfl, h.depth, h.angle⟩
  · rfl

/-- **The reader gets the words of a comment back**, and after them the
    closer. -/
theorem read_text {c : List Char} (hc : ¬ ['*', '/'] <:+: c)
    (hd : d < bodyDepth) (cs : List Char) :
    ∀ {r : Reader}, r.InComment d →
      ∃ (r' : Reader) (ts : List Token), r'.Level d ∧ r'.gather.word = []
        ∧ r.read extra (c ++ '*' :: '/' :: cs) = prepend ts (r'.read extra cs)
        ∧ bareTokens ts
          = (commentWords (r.gather.word.reverse ++ c)).map (Token.ofWord extra 0)
            ++ [Token.ofWord extra 0 "*/"] := by
  induction c with
  | nil =>
      intro r h
      rw [List.append_nil, ← h.pending]
      exact h.read_closer extra hd cs
  | cons x c ih =>
      intro r h
      have hrest : ¬ ['*', '/'] <:+: c := fun hin =>
        hc (hin.trans (List.suffix_cons x c).isInfix)
      cases hx : isGap x with
      | true =>
          obtain ⟨r1, ts1, h1, hword1, hread1, hbare1⟩ :=
            h.read_gap extra hx (c ++ '*' :: '/' :: cs)
          obtain ⟨r2, ts2, h2, hword2, hread2, hbare2⟩ := ih hrest h1
          refine ⟨r2, ts1 ++ ts2, h2, hword2, ?_, ?_⟩
          · rw [List.cons_append, hread1, hread2, prepend_prepend]
          · rw [bareTokens_append, hbare1, hbare2, hword1, h.pending,
              commentWords_append_gap _ _ hx, List.map_append, List.append_assoc]
            rfl
      | false =>
          -- a star does not stand before a slash
          have hstar : x = '*' → (c ++ '*' :: '/' :: cs).head? ≠ some '/' := by
            rintro rfl hslash
            cases c with
            | nil => exact absurd hslash (by simp)
            | cons y c =>
                have hy : y = '/' := by simpa using hslash
                subst hy
                exact hc ⟨[], c, rfl⟩
          obtain ⟨h1, hread1⟩ := h.read_char extra hd hx hstar
          obtain ⟨r2, ts2, h2, hword2, hread2, hbare2⟩ := ih hrest h1
          refine ⟨r2, ts2, h2, hword2, ?_, ?_⟩
          · rw [List.cons_append, hread1, hread2]
          · rw [hbare2]
            simp [Reader.spell]

end Reader.InComment

/-- The text of a doc comment with its marks. -/
def docComment (c : List Char) : List Char :=
  '/' :: '*' :: '*' :: (c ++ ['*', '/'])

/-- A doc comment where words count. -/
theorem Spells.docComment {extra : List String} {d : Nat} {r : Reader}
    {c : List Char} (hc : IsDocText c) (hd : d < bodyDepth) (h : r.Level d)
    (cs : List Char) :
    ∃ r' : Reader, r'.gather.word = []
      ∧ Spells extra d r (JavaOutline.docComment c) cs
          (Token.ofWord extra 0 "/**"
            :: ((commentWords c).map (Token.ofWord extra 0)
              ++ [Token.ofWord extra 0 "*/"])) r' := by
  have hhead : (c ++ '*' :: '/' :: cs).head? ≠ some '/' := by
    rw [List.head?_append]
    cases hc' : c.head? with
    | none => simp
    | some x =>
        rw [← hc']
        have := hc.opens
        simpa [hc'] using this
  have hbite : bite r.mode '/' ('*' :: '*' :: (c ++ '*' :: '/' :: cs))
      = ⟨[.opener .doc], .blockComment, c ++ '*' :: '/' :: cs⟩ := by
    rw [h.mode]
    exact bite_doc hhead
  -- the opener ends the pending word, and the comment starts with none
  have hopen := Reader.read_piece extra r (by decide) hbite
    (Gather.mark_capturing (h.capturing hd) extra r.line _)
  obtain ⟨r2, ts, h2, hword2, hread2, hbare2⟩ := Reader.InComment.read_text
    extra hc.lasts hd cs (r := { r with
      text := (Piece.opener .doc).text.reverse ++ r.text
      mode := .blockComment, gather := r.gather.clear })
    ⟨rfl, h.depth, h.angle, nofun⟩
  rw [hread2, prepend_prepend] at hopen
  have htext : JavaOutline.docComment c ++ cs
      = '/' :: '*' :: '*' :: (c ++ '*' :: '/' :: cs) := by
    simp [JavaOutline.docComment]
  refine ⟨r2, hword2, h2, _, htext ▸ hopen, ?_⟩
  have hmark := Reader.bareTokens_mark extra r "/**"
  rw [Reader.pending_of_nil hword2, List.append_nil, bareTokens_append, hbare2]
  show bareTokens (_ ++ [Token.ofWord extra r.line "/**"]) ++ _ = _
  rw [hmark, List.append_assoc]
  rfl

/-! ## Walking over a comment -/

/-- Inside a doc comment the tokens of lines move only the cursor. -/
theorem Walk.step_inDoc_line (w : Walk) (ws : List DocWord) {t : Token}
    (ht : t.kind.isLine = true) :
    ((w.inDoc ws).step t).value = (w.step t).value.inDoc ws := by
  rw [step_of_isLine ht, step_of_isLine ht, plainStep, plainStep]
  cases hk : t.kind with
  | sign => rfl
  | lineNumber => rfl
  | _ =>
      rw [hk] at ht
      cases ht

/-- Inside a doc comment words are gathered, whatever lines they stand on. -/
theorem Walk.StandsAt.steps_inDoc {x : Standing} {ts : List Token}
    (hts : ∀ u ∈ bareTokens ts, u.inDoc = true) :
    ∀ {w : Walk}, w.StandsAt x → ∀ ws,
      ∃ w' : Walk, w'.StandsAt x ∧ (w.inDoc ws).steps ts
        = w'.inDoc (ws ++ (bareTokens ts).map (DocWord.ofWord ·.text)) := by
  induction ts with
  | nil =>
      intro w hw ws
      refine ⟨w, hw, ?_⟩
      rw [bareTokens_nil, List.map_nil, List.append_nil]
      rfl
  | cons t ts ih =>
      intro w hw ws
      cases ht : t.kind.isLine with
      | true =>
          rw [bareTokens_cons_line ht] at hts ⊢
          obtain ⟨w', hw', hsteps⟩ := ih hts (hw.line ht) ws
          refine ⟨w', hw', ?_⟩
          rw [← hsteps, ← w.step_inDoc_line ws ht]
          rfl
      | false =>
          rw [bareTokens_cons ht] at hts ⊢
          obtain ⟨w', hw', hsteps⟩ := ih (fun u hu => hts u (by simp [hu])) hw
            (ws ++ [DocWord.ofWord t.text])
          have hdoc : t.inDoc = true := hts t.bare (by simp)
          have hstep := (Walk.step_inDoc (w := w) ws hdoc).2
          refine ⟨w', hw', ?_⟩
          rw [← hstep, List.append_assoc] at hsteps
          exact hsteps

/-- Where the walk stands once the comment is closed. -/
theorem Walk.StandsAt.afterDoc {w : Walk} {x : Standing} (hw : w.StandsAt x)
    (hx : x.awaitsConstants = false) (ws : List DocWord) :
    (w.afterDoc ws).StandsAt
      { x with
        statement := { x.statement with
          doc := (Doc.ofWords ws).value
          parts := []
          isHeader := false } } := by
  have hin : (w.inDoc ws).inConstants = false := by
    have hawaits : (w.inDoc ws).awaitsConstants = false :=
      hw.awaitsConstants.trans hx
    rw [inConstants, hawaits]
    rfl
  have hclose : (w.inDoc ws).closeDoc.value.draft = w.draft
      ∧ (w.inDoc ws).closeDoc.value.constantsDone = w.constantsDone
      ∧ (w.inDoc ws).closeDoc.value.headerComment = w.headerComment
      ∧ (w.inDoc ws).closeDoc.value.statement = { w.statement with
          doc := (Doc.ofWords ws).value, parts := [], isHeader := false } := by
    simp only [closeDoc, Logged.value_bind, Logged.value_pure, hin]
    exact ⟨rfl, rfl, rfl, rfl⟩
  obtain ⟨hdraft, hdone, hcomment, hstatement⟩ := hclose
  refine ⟨?_, hdone.trans hw.constantsDone, hcomment.trans hw.headerComment, ?_,
    rfl, rfl⟩
  · rw [← hw.draft, ← hdraft]
    rfl
  · rw [← hw.statement]
    exact hstatement

/-- **A doc comment is read into one record**, and what was read of a statement
    before it is dropped. -/
theorem Takes.docComment {x : Standing} (hx : x.awaitsConstants = false)
    {D : List Token} (hD : ∀ t ∈ D, t.inDoc = true) :
    Takes x (docTokens 0 D 0)
      { x with
        statement := { x.statement with
          doc := (Doc.ofWords (D.map (DocWord.ofWord ·.text))).value
          parts := []
          isHeader := false } } := by
  intro w ts hw hts
  obtain ⟨ts1, t, ts2, rfl, hlines, ht, h2⟩ := exists_of_bareTokens_cons hts
  obtain ⟨ts3, ts4, rfl, h3, h4⟩ := exists_of_bareTokens_append h2
  obtain ⟨ts5, u, ts6, rfl, hlines5, hu, h6⟩ := exists_of_bareTokens_cons h4
  obtain ⟨tk, tt, n⟩ := t
  obtain ⟨uk, ut, m⟩ := u
  cases ht
  cases hu
  -- the opener
  have hw1 := hw.lines hlines
  have hcode : (w.steps ts1).readsCode = true :=
    (Walk.readsCode_iff _).mpr ⟨hw1.span, by rw [Walk.inArguments, hw1.annotation]⟩
  have hopen := Walk.step_openDoc hcode n
  -- the words, and the lines before the closer
  have hwords : bareTokens (ts3 ++ ts5) = D := by
    rw [bareTokens_append, h3, bareTokens_eq_nil_iff.mpr hlines5, List.append_nil]
  rw [← hwords] at hD
  obtain ⟨w2, hw2, hsteps⟩ := hw1.steps_inDoc hD []
  rw [List.nil_append, hwords] at hsteps
  have hall : w.steps (ts1 ++ ⟨.symbol, "/**", n⟩
      :: (ts3 ++ (ts5 ++ ⟨.symbol, "*/", m⟩ :: ts6)))
        = (w2.afterDoc (D.map (DocWord.ofWord ·.text))).steps ts6 := by
    rw [Walk.steps_append, ← List.append_assoc ts3]
    show (((w.steps ts1).step ⟨.symbol, "/**", n⟩).value.steps _) = _
    rw [hopen, Walk.steps_append, hsteps]
    rfl
  rw [hall]
  exact (hw2.afterDoc hx _).lines (bareTokens_eq_nil_iff.mp h6)

/-! ## The comment of a source -/

/-- The tokens of a comment, with its marks as the reader gives them. -/
theorem docTokens_commentWords {extra : List String} (hopen : "/**" ∉ extra)
    (hclose : "*/" ∉ extra) (c : List Char) :
    docTokens 0 ((commentWords c).map (Token.ofWord extra 0)) 0
      = Token.ofWord extra 0 "/**"
        :: ((commentWords c).map (Token.ofWord extra 0)
          ++ [Token.ofWord extra 0 "*/"]) := by
  rw [Token.ofWord, Token.ofWord,
    isKeyword_of_commentMark (by decide : "/**" ∈ commentMarks) hopen,
    isKeyword_of_commentMark (by decide : "*/" ∈ commentMarks) hclose]
  rfl

/-- The words of a comment are read into one record. -/
theorem Takes.commentWords {x : Standing} (hx : x.awaitsConstants = false)
    {c : List Char} (hc : IsDocText c) (extra : List String) :
    Takes x (docTokens 0 ((JavaOutline.commentWords c).map (Token.ofWord extra 0)) 0)
      { x with
        statement := { x.statement with
          doc := (Doc.ofWords ((JavaOutline.commentWords c).map DocWord.ofWord)).value
          parts := []
          isHeader := false } } := by
  have hwords : ∀ t ∈ (JavaOutline.commentWords c).map (Token.ofWord extra 0),
      t.inDoc = true := by
    intro t ht
    obtain ⟨w, hw, rfl⟩ := List.mem_map.mp ht
    have hne := ne_closer_of_mem_commentWords hc.lasts w hw
    rw [Token.ofWord, Token.inDoc]
    split
    · rfl
    · simpa using hne
  have htexts : ((JavaOutline.commentWords c).map (Token.ofWord extra 0)).map
      (DocWord.ofWord ·.text) = (JavaOutline.commentWords c).map DocWord.ofWord := by
    simp only [List.map_map, Function.comp_def, Token.ofWord]
  have hcomment := Takes.docComment hx hwords
  rwa [htexts] at hcomment

end JavaOutline
