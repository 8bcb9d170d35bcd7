import JavaOutline.Proofs.CommentSpans

/-! # Reading and walking together

    `Synced` relates a reader to the walk over the tokens it has made so far.
    Each reading step keeps it (`Synced.step`, `Synced.newline`), and every
    token of the step finds the walk in the span that belongs to the mode in
    which the token was made (`Agrees`). -/

namespace JavaOutline

open Source

/-! ## The agreement -/

/-- The span that belongs to the mode in which a token was made. -/
def Emission.span (e : Emission) : Span := e.mode.span e.opener

/-- The walk is in the span of the emission, and at a delimiter that is
    ordinary code. -/
structure Emission.Fits (e : Emission) (w : Walk) : Prop where
  span : w.Expects e.span
  code : e.token.kind.isDelimiter = true → e.span = .code

/-- Each word and each delimiter finds the walk in its span. -/
def Agrees (w : Walk) : List Emission → Prop
  | [] => True
  | e :: es =>
    (e.token.kind.isLine = false → e.Fits w)
      ∧ Agrees (w.step e.token).value es

theorem Agrees.append {w : Walk} {ts : List Token} {m : Mode} {o : Opener}
    {es : List Emission} (h1 : Agrees w (ts.map (⟨·, m, o⟩)))
    (h2 : Agrees (w.steps ts) es) : Agrees w (ts.map (⟨·, m, o⟩) ++ es) := by
  induction ts generalizing w with
  | nil => exact h2
  | cons t ts ih => exact ⟨h1.1, ih h1.2 h2⟩

/-- The span that the walk should be in; where words do not count, comments
    are not seen. -/
def Reader.span (r : Reader) (o : Opener) : Span :=
  if r.gather.capturing then r.mode.span o else .code

/-- The walk `w` has taken the tokens that led to `r`, and `cs` comes next. -/
structure Synced (r : Reader) (o : Opener) (cs : List Char) (w : Walk) : Prop where
  span : w.Expects (r.span o)
  settled : r.gather.Settled
  word : r.gather.capturing = true → WordSafe r.mode r.gather.word cs

variable {extra : List String} {r : Reader} {o : Opener} {cs : List Char}
  {w : Walk}

/-- What a list of tokens does: they find the walk in their span, and lead it
    to span `s`. -/
structure Leads (w : Walk) (m : Mode) (o : Opener) (ts : List Token)
    (s : Span) : Prop where
  agrees : Agrees w (ts.map (⟨·, m, o⟩))
  expects : (w.steps ts).Expects s

theorem Leads.nil {m : Mode} {s : Span} (h : w.Expects s) :
    Leads w m o [] s := ⟨trivial, h⟩

theorem Leads.append {m : Mode} {ts us : List Token} {s s' : Span}
    (h1 : Leads w m o ts s) (h2 : (w.steps ts).Expects s →
      Leads (w.steps ts) m o us s') : Leads w m o (ts ++ us) s' := by
  obtain ⟨h3, h4⟩ := h2 h1.expects
  refine ⟨?_, ?_⟩
  · rw [List.map_append]
    exact h1.agrees.append h3
  · rw [Walk.steps_append]
    exact h4

/-- A word that was made in mode `m`. -/
theorem Leads.ofWord {m : Mode} {s : Span} {word : String}
    (h : w.Expects (m.span o)) (extra : List String) (n : Nat)
    (hs : (m.span o).after word = s)
    (hk : Keyword.isKeyword extra word = true → s = m.span o) :
    Leads w m o [Token.ofWord extra n word] s := by
  refine ⟨⟨fun _ => ⟨h, fun hd => ?_⟩, trivial⟩, ?_⟩
  · have hword : (Token.ofWord extra n word).kind.isDelimiter = false := by
      rw [Token.ofWord]
      dsimp only
      split <;> rfl
    rw [hword] at hd
    cases hd
  · subst hs
    exact h.ofWord extra n hk

/-- The word under construction, if there is one. -/
theorem Synced.wordToken (h : Synced r o cs w) (extra : List String) :
    Leads w r.mode o (r.gather.wordToken extra r.line) (r.span o) := by
  cases hcap : r.gather.capturing with
  | false =>
      have hword := h.settled (Nat.not_lt.mp (of_decide_eq_false hcap))
      rw [Gather.wordToken, hword]
      exact .nil h.span
  | true =>
      have hspan : r.span o = r.mode.span o := by rw [Reader.span, hcap]; rfl
      have hexp := h.span
      rw [hspan] at hexp ⊢
      rw [Gather.wordToken]
      split
      · exact .nil hexp
      · exact .ofWord hexp extra r.line ((h.word hcap).after o) fun _ => rfl

/-! ## The end of a line -/

theorem Synced.close (h : Synced r o cs w) (extra : List String) :
    Leads w r.mode o (r.close extra) (r.span o) := by
  refine (h.wordToken extra).append fun hexp => ?_
  exact ⟨⟨(fun hl => nomatch hl), trivial⟩, hexp.sign _ _⟩

theorem Synced.lineEnd (h : Synced r o cs w) (extra : List String) :
    Leads w r.mode o (r.lineEnd extra) (r.span o).nextLine := by
  refine (h.close extra).append fun hexp => ?_
  exact ⟨⟨(fun hl => nomatch hl), trivial⟩, hexp.lineNumber _⟩

theorem Reader.span_nextLine (r : Reader) (o : Opener) :
    r.nextLine.span o = (r.span o).nextLine := by
  show (if r.gather.capturing then r.mode.nextLine.span o else .code) = _
  rw [Reader.span]
  split
  · exact r.mode.span_nextLine o
  · rfl

/-- A line end keeps reader and walk together, unless it stands in a text
    block where words count. -/
theorem Synced.newline (h : Synced r o ('\n' :: cs) w)
    (hb : r.mode = .textBlock → bodyDepth ≤ r.gather.depth) :
    Synced r.nextLine o cs (w.steps (r.lineEnd extra)) := by
  refine ⟨?_, fun _ => rfl, fun hcap => wordSafe_nil ?_ cs⟩
  · rw [r.span_nextLine]
    exact (h.lineEnd extra).expects
  · cases hm : r.mode with
    | textBlock =>
        have hlt : r.gather.depth < bodyDepth := of_decide_eq_true hcap
        exact absurd (hb hm) (Nat.not_le.mpr hlt)
    | _ => simp only [Reader.nextLine, Reader.atLine, hm]; rfl

/-! ## Steps inside a line -/

theorem isKeyword_of_commentMark {extra : List String} {m : String}
    (hm : m ∈ commentMarks) (hextra : m ∉ extra) :
    Keyword.isKeyword extra m = false := by
  have hfixed : ∀ m ∈ commentMarks, Keyword.isKeyword [] m = false := by decide
  have hm' := hfixed m hm
  simp only [Keyword.isKeyword, List.contains_nil, Bool.or_false] at hm' ⊢
  rw [hm']
  simpa using hextra

theorem Source.Opener.text_mem_commentMarks (o : Opener) :
    String.ofList o.text ∈ commentMarks := by
  cases o <;> decide

/-- Where words do not count, no step makes a token. -/
theorem Gather.Deep.code_silent {g : Gather} (h : g.Deep)
    (extra : List String) (n : Nat) (c : Char) :
    (g.code extra n c).2 = [] ∧ (g.code extra n c).1.word = [] := by
  cases hb : isBracePiece (.code c) with
  | false =>
      obtain ⟨a, ha⟩ := h.code extra n hb
      rw [ha]
      exact ⟨rfl, h.word⟩
  | true =>
      have hc : c = '{' ∨ c = '}' := by simpa [isBracePiece] using hb
      rcases hc with rfl | rfl
      · have hs : g.Settled := fun _ => h.word
        show (g.step extra n (.code '{')).2 = [] ∧ _
        rw [hs.openBrace, h.delimiter]
        exact ⟨rfl, hs.brace extra n (p := .code '{') rfl⟩
      · exact ⟨h.wordToken extra n, rfl⟩

/-- Literals are ordinary code to a walk. -/
theorem Reader.span_eq_code (hm : r.mode.isLiteral = true ∨ r.mode = .code)
    (o : Opener) : r.span o = .code := by
  have hspan : r.mode.span o = .code := by
    rcases hm with hm | hm
    · cases hr : r.mode <;> rw [hr] at hm <;> first | rfl | exact nomatch hm
    · rw [hm]
      rfl
  rw [Reader.span, hspan]
  exact ite_self _

/-- Ordinary text. -/
theorem Synced.code {c : Char} (h : Synced r o (c :: cs) w)
    (hm : r.mode = .code)
    (hc : c = '/' → cs.head? ≠ some '/' ∧ cs.head? ≠ some '*')
    (extra : List String) :
    Leads w .code o (r.gather.code extra r.line c).2 .code
      ∧ WordSafe .code (r.gather.code extra r.line c).1.word cs := by
  have hexp : w.Expects .code := by
    rw [← Reader.span_eq_code (.inr hm) o]
    exact h.span
  have hword : Leads w .code o (r.gather.wordToken extra r.line) .code := by
    have hl := h.wordToken extra
    rw [Reader.span_eq_code (.inr hm) o, hm] at hl
    exact hl
  have hnil := wordSafe_nil (m := .code) rfl cs
  cases hcap : r.gather.capturing with
  | false =>
      -- inside a body no token is made and no word begun
      have hd := Nat.not_lt.mp (of_decide_eq_false hcap)
      obtain ⟨ht, hw⟩ :=
        Gather.Deep.code_silent ⟨hd, h.settled hd⟩ extra r.line c
      rw [ht, hw]
      exact ⟨.nil hexp, hnil⟩
  | true =>
      have hsafe := h.word hcap
      rw [hm] at hsafe
      rcases Gather.code_capturing hcap extra r.line c
        with ⟨ht, hg⟩ | ⟨ht, hw⟩ | ⟨t, hd, ht, hw⟩
      · rw [ht]
        exact ⟨.nil hexp, hg.wordSafe hsafe hc⟩
      · rw [ht, hw]
        exact ⟨hword, hnil⟩
      · rw [ht, hw]
        refine ⟨hword.append fun hexp => ?_, hnil⟩
        exact ⟨⟨fun _ => ⟨hexp, fun _ => rfl⟩, trivial⟩, hexp.delimiter hd⟩

/-- An opener or a closer, where words count. -/
theorem Synced.mark (h : Synced r o cs w)
    (hextra : ∀ m ∈ commentMarks, m ∉ extra)
    (hcap : r.gather.capturing = true) {u : List Char} {s : Span}
    (hu : String.ofList u ∈ commentMarks)
    (hs : (r.mode.span o).after (String.ofList u) = s) :
    Leads w r.mode o (r.gather.mark extra r.line u).2 s := by
  have hspan : r.span o = r.mode.span o := by rw [Reader.span, hcap]; rfl
  rw [Gather.mark, hcap]
  refine (h.wordToken extra).append fun hexp => ?_
  rw [hspan] at hexp
  refine .ofWord hexp extra r.line hs fun hk => ?_
  rw [isKeyword_of_commentMark hu (hextra _ hu)] at hk
  cases hk

/-- A step that makes no brace, where words do not count. -/
theorem Synced.deep {k : Cut} (h : Synced r o cs w)
    (hcap : r.gather.capturing = false)
    (hp : ∀ p ∈ k.pieces, Gather.isBracePiece p = false) :
    Leads w r.mode o (r.gather.steps extra r.line k.pieces).2
        ((r.take extra k).span (lastOpener o k.pieces))
      ∧ ((r.take extra k).gather.capturing = true →
          WordSafe k.mode (r.take extra k).gather.word k.rest) := by
  have hd := Nat.not_lt.mp (of_decide_eq_false hcap)
  obtain ⟨a, ha⟩ := Gather.Deep.steps ⟨hd, h.settled hd⟩ extra r.line hp
  have hcap' : (r.take extra k).gather.capturing = false := by
    rw [Reader.take, ha]
    exact hcap
  have hexp := h.span
  rw [Reader.span, hcap] at hexp
  rw [ha, Reader.span, hcap']
  refine ⟨.nil hexp, ?_⟩
  intro hc
  cases hc

theorem Reader.take_singleton (extra : List String) (r : Reader) (p : Piece)
    (m : Mode) (rest : List Char) :
    (r.take extra ⟨[p], m, rest⟩).gather
      = (r.gather.step extra r.line p).1 :=
  congrArg Prod.fst (Gather.steps_singleton extra r.line r.gather p)

theorem Reader.span_of_capturing (h : r.gather.capturing = true) (o : Opener) :
    r.span o = r.mode.span o := by
  rw [Reader.span, h]
  rfl

/-- A character of a comment, where words count. -/
theorem Synced.comment {c : Char} (h : Synced r o (c :: cs) w)
    (hcap : r.gather.capturing = true) (extra : List String)
    (hm : r.mode.isLiteral = false)
    (hc : WordSafe r.mode (c :: r.gather.word) cs) :
    Leads w r.mode o (r.gather.steps extra r.line [.comment c]).2
        ((r.take extra ⟨[.comment c], r.mode, cs⟩).span o)
      ∧ WordSafe r.mode
          (r.take extra ⟨[.comment c], r.mode, cs⟩).gather.word cs := by
  have hdepth := Gather.step_depth extra r.line r.gather (p := .comment c) rfl
  have hspan : (r.take extra ⟨[.comment c], r.mode, cs⟩).span o = r.span o := by
    rw [Reader.span, Reader.take_singleton, Gather.capturing, hdepth]
    rfl
  rw [hspan, Gather.steps_singleton, Reader.take_singleton, Gather.step]
  split
  · exact ⟨h.wordToken extra, wordSafe_nil hm cs⟩
  · rw [Gather.take_capturing hcap]
    exact ⟨.nil h.span, hc⟩

/-- What a step does where words count, by its shape. -/
theorem Synced.shape (hextra : ∀ m ∈ commentMarks, m ∉ extra) {c : Char}
    {k : Cut} (h : Synced r o (c :: k.rest) w)
    (hcap : r.gather.capturing = true) {m : Mode} (hm : r.mode = m)
    (hk : BiteShape m c k) :
    Leads w r.mode o (r.gather.steps extra r.line k.pieces).2
        ((r.take extra k).span (lastOpener o k.pieces))
      ∧ WordSafe k.mode (r.take extra k).gather.word k.rest := by
  have hsafe := h.word hcap
  cases hk with
  | opener o' rest =>
      have hspan : (r.mode.span o).after (String.ofList o'.text)
          = o'.mode.span o' := by
        rw [hm]
        show Span.code.after _ = _
        cases o' <;> decide
      have hl := h.mark hextra hcap o'.text_mem_commentMarks hspan
      rw [Gather.steps_singleton, Reader.take_singleton,
        Reader.span_of_capturing]
      · exact ⟨hl, wordSafe_nil (by cases o' <;> rfl) rest⟩
      · rw [Reader.take_singleton]
        exact hcap
  | code c rest hc =>
      obtain ⟨hl, hw⟩ := h.code hm hc extra
      rw [Gather.steps_singleton, Reader.take_singleton,
        Reader.span_eq_code (.inr rfl), hm]
      exact ⟨hl, hw⟩
  | quote q ds rest hq hlit =>
      rw [hm] at hsafe
      have hquote := (hsafe.quote hq).append ds.reverse
      have hspan := h.span
      rw [Reader.span_eq_code (.inr hm)] at hspan
      rw [Reader.span_eq_code (.inl hlit), Reader.take,
        Gather.steps_literal hcap, List.reverse_cons, List.append_assoc]
      exact ⟨.nil hspan, hquote.wordSafe (.inl hlit) rest⟩
  | @literal m m' c ds rest hlit hm' =>
      have hquote := (hsafe.quoteSafe (by rw [hm]; exact hlit)).append ds.reverse
      have hspan := h.span
      rw [Reader.span_eq_code (.inl (by rw [hm]; exact hlit))] at hspan
      have hmode : m'.isLiteral = true ∨ m' = .code := by
        rcases hm' with rfl | hm'
        · exact .inl hlit
        · exact .inr hm'
      rw [Reader.span_eq_code hmode, Reader.take, Gather.steps_literal hcap]
      exact ⟨.nil hspan, hquote.wordSafe hmode rest⟩
  | lineComment c rest =>
      rw [← hm]
      exact h.comment hcap extra (by rw [hm]; rfl) (by rw [hm]; trivial)
  | blockComment c rest hc =>
      rw [hm] at hsafe
      rw [← hm]
      exact h.comment hcap extra (by rw [hm]; rfl)
        (by rw [hm]; exact hsafe.comment hc)
  | closer rest =>
      have hspan : (r.mode.span o).after (String.ofList Piece.closer.text)
          = .code := by
        rw [hm]
        cases o <;> decide
      have hl := h.mark hextra hcap (u := Piece.closer.text) (by decide) hspan
      rw [Gather.steps_singleton, Reader.take_singleton,
        Reader.span_eq_code (.inr rfl)]
      exact ⟨hl, wordSafe_nil rfl rest⟩

/-- What a step does where words do not count. -/
theorem Synced.shape_deep {c : Char} {k : Cut} (h : Synced r o (c :: k.rest) w)
    (hcap : r.gather.capturing = false) {m : Mode} (hm : r.mode = m)
    (hk : BiteShape m c k) :
    Leads w r.mode o (r.gather.steps extra r.line k.pieces).2
        ((r.take extra k).span (lastOpener o k.pieces))
      ∧ ((r.take extra k).gather.capturing = true →
          WordSafe k.mode (r.take extra k).gather.word k.rest) := by
  cases hk with
  | code c rest hc =>
      -- a brace may lead back to where words count
      obtain ⟨hl, hw⟩ := h.code hm hc extra
      rw [Gather.steps_singleton, Reader.take_singleton,
        Reader.span_eq_code (.inr rfl), hm]
      exact ⟨hl, fun _ => hw⟩
  | _ => exact h.deep hcap (by simp [Gather.isBracePiece])

/-- **A reading step keeps reader and walk together**, and its tokens find the
    walk in the span of the mode in which it starts. -/
theorem Synced.step (hextra : ∀ m ∈ commentMarks, m ∉ extra) {c : Char}
    (h : Synced r o (c :: cs) w) :
    Agrees w ((r.gather.steps extra r.line (bite r.mode c cs).pieces).2.map
        (⟨·, r.mode, o⟩))
      ∧ Synced (r.take extra (bite r.mode c cs))
          (lastOpener o (bite r.mode c cs).pieces) (bite r.mode c cs).rest
          (w.steps
            (r.gather.steps extra r.line (bite r.mode c cs).pieces).2) := by
  have hk := bite_shape r.mode c cs
  have h' : Synced r o (c :: (bite r.mode c cs).rest) w :=
    ⟨h.span, h.settled, h.word⟩
  have hsettled := h.settled.steps extra r.line (bite r.mode c cs).pieces
  cases hcap : r.gather.capturing with
  | true =>
      obtain ⟨hl, hw⟩ := h'.shape hextra hcap rfl hk
      exact ⟨hl.agrees, hl.expects, hsettled, fun _ => hw⟩
  | false =>
      obtain ⟨hl, hw⟩ := h'.shape_deep hcap rfl hk
      exact ⟨hl.agrees, hl.expects, hsettled, hw⟩

/-! ## Whole sources -/

/-- No line end of `cs`, read from `r` on, stands in a text block where words
    count. -/
def Reader.BlocksHidden (r : Reader) (cs : List Char) : Prop :=
  ∀ a b, cs = a ++ '\n' :: b → (r.read [] a).1.mode = .textBlock →
    bodyDepth ≤ (r.read [] a).1.gather.depth

theorem Reader.BlocksHidden.nextLine (h : r.BlocksHidden ('\n' :: cs)) :
    r.nextLine.BlocksHidden cs := by
  intro a b hcs
  have hread := h ('\n' :: a) b (by rw [hcs]; rfl)
  rw [Reader.read_newline] at hread
  exact hread

/-- What a step takes stands before the rest, so it is the same step on a
    text that is cut off at a later line end. -/
theorem Source.bite_before_newline {m : Mode} {c : Char} {cs a b : List Char}
    (h : (bite m c cs).rest = a ++ '\n' :: b) :
    ∃ x, c :: cs = c :: x ++ '\n' :: b
      ∧ bite m c x = { bite m c cs with rest := a } := by
  have htext := bite_text m c cs
  have hlen := bite_rest_length m c cs
  -- the step takes at least its first character
  obtain ⟨y, hy⟩ : ∃ y, (bite m c cs).pieces.flatMap Piece.text = c :: y := by
    cases hp : (bite m c cs).pieces.flatMap Piece.text with
    | nil =>
        rw [hp, List.nil_append] at htext
        rw [htext, List.length_cons] at hlen
        exact absurd hlen (Nat.not_succ_le_self _)
    | cons d y =>
        rw [hp, List.cons_append] at htext
        exact ⟨y, by rw [(List.cons.inj htext).1]⟩
  have hcs : cs = (y ++ a) ++ '\n' :: b := by
    rw [hy, h] at htext
    rw [List.append_assoc]
    exact (List.cons.inj htext).2.symm
  have happ := bite_append m c (y ++ a) ('\n' :: b)
    (inert_cons (by decide) (by decide) (by decide)) (fun _ _ _ => .inr rfl)
  rw [← hcs] at happ
  refine ⟨y ++ a, by rw [hcs]; rfl, ?_⟩
  have hrest : (bite m c (y ++ a)).rest = a := by
    rw [happ] at h
    exact List.append_cancel_right h
  rw [happ]
  generalize bite m c (y ++ a) = k at hrest
  rw [← hrest]

theorem Reader.BlocksHidden.take {c : Char} (hc : c ≠ '\n')
    (h : r.BlocksHidden (c :: cs)) (extra : List String) :
    (r.take extra (bite r.mode c cs)).BlocksHidden (bite r.mode c cs).rest := by
  intro a b hrest
  obtain ⟨x, hx, hbite⟩ := bite_before_newline hrest
  have hread := h (c :: x) b hx
  rw [Reader.read_cons [] r hc, hbite] at hread
  rw [Reader.take, Gather.steps_fst extra [] r.line r.line]
  exact hread

/-- Reader and walk agree from any point on at which they are together. -/
theorem agrees_emissions (hextra : ∀ m ∈ commentMarks, m ∉ extra)
    (r : Reader) (o : Opener) (cs : List Char) :
    ∀ w : Walk, Synced r o cs w → r.BlocksHidden cs →
      Agrees w (r.emissions extra o cs) := by
  fun_induction Reader.emissions extra r o cs with
  | case1 r o =>
      intro w h _
      exact (h.close extra).agrees
  | case2 r o cs ih =>
      intro w h hb
      have hread := hb [] cs rfl
      rw [Reader.read_nil] at hread
      exact (h.lineEnd extra).agrees.append
        (ih _ (h.newline hread) hb.nextLine)
  | case3 r o c cs hc k ih =>
      intro w h hb
      obtain ⟨hagrees, hsynced⟩ := h.step hextra
      exact hagrees.append (ih _ hsynced (hb.take hc extra))

/-- What the agreement says about each single token. -/
theorem Agrees.fits {e : Emission} {pre post : List Emission}
    (h : Agrees w (pre ++ e :: post)) (he : e.token.kind.isLine = false) :
    e.Fits (w.steps (pre.map Emission.token)) := by
  induction pre generalizing w with
  | nil => exact h.1 he
  | cons d pre ih => exact ih h.2

/-- No text block that is opened where words count holds a line end. -/
def TextBlocksHidden (source : String) : Prop :=
  Reader.BlocksHidden {} source.toList

/-- **Reader and walk agree on what is comment and what is code.**  When the
    walk over the tokens of a source reaches a word or a delimiter, and is not
    passing over the arguments of an annotation, it is in the span of the mode
    in which the token was made; and it reaches every delimiter in ordinary
    code. -/
theorem walk_span_eq_emission_span (source : String) (extra : List String)
    (hblocks : TextBlocksHidden source)
    (hextra : ∀ m ∈ commentMarks, m ∉ extra) :
    (emissions source extra).map Emission.token = tokenize source extra
      ∧ ∀ (ix : LineIndex) (pre post : List Emission) (e : Emission)
          (w : Walk),
        emissions source extra = pre ++ e :: post →
        e.token.kind.isLine = false →
        (Walk.run { cursor := { lines := ix } }
          (pre.map Emission.token)).value = .ok w →
        (w.inArguments = false → w.span = e.span)
          ∧ (e.token.kind.isDelimiter = true → w.span = .code) := by
  refine ⟨map_token_emissions source extra, ?_⟩
  intro ix pre post e w hsplit he hrun
  -- the walk takes the number of the first line before the reader starts
  have hstart : Synced {} .line source.toList
      ((Walk.mk {} { lines := ix } .code .absent false false [] [] "" {}).step
        (Token.lineNumber 1)).value := by
    refine ⟨?_, fun _ => rfl, fun _ => wordSafe_nil rfl _⟩
    rw [Walk.step_lineNumber]
    rfl
  have hagrees : Agrees { cursor := { lines := ix } }
      (emissions source extra) :=
    ⟨(fun hl => nomatch hl), agrees_emissions hextra {} .line _ _ hstart hblocks⟩
  rw [hsplit] at hagrees
  have hfits := hagrees.fits he
  rw [← Walk.eq_steps_of_run hrun] at hfits
  refine ⟨hfits.span.span_of_not_inArguments, fun hd => ?_⟩
  rw [← Walk.expects_code, ← hfits.code hd]
  exact hfits.span

/-- After a doc comment, and after a body with a text block that holds what
    looks like an opener, the word of a line comment finds the walk in a line
    comment. -/
theorem walk_span_after_textBlock :
    ∃ w, (Walk.run { cursor := { lines := [] } } (((emissions
        "/** d */ class C\x7b void f()\x7b\"\"\"\n/*\"\"\"; \x7d // x"
        []).take 15).map Emission.token)).value = .ok w
      ∧ w.span = .lineComment := by
  let source := "/** d */ class C\x7b void f()\x7b\"\"\"\n/*\"\"\"; \x7d // x"
  have hblocks : TextBlocksHidden source := by
    have hprefixes : ∀ n < 50,
        (Reader.read [] {} (source.toList.take n)).1.mode = .textBlock →
        bodyDepth
          ≤ (Reader.read [] {} (source.toList.take n)).1.gather.depth := by
      decide +kernel
    intro a b h
    have hlen : a.length < 50 := by
      have hsource : source.toList.length ≤ 50 := by decide
      rw [h, List.length_append, List.length_cons] at hsource
      omega
    have htake : source.toList.take a.length = a := by
      rw [h]
      exact List.take_left
    rw [← htake]
    exact hprefixes a.length hlen
  have hsplit : emissions source [] = (emissions source []).take 15
      ++ ⟨⟨.symbol, "x", 2⟩, .lineComment, .line⟩
        :: (emissions source []).drop 16 := by
    decide +kernel
  have hready : (match (Walk.run { cursor := { lines := [] } }
      (((emissions source []).take 15).map Emission.token)).value with
      | .ok v => v.inArguments
      | .error _ => true) = false := by
    decide +kernel
  cases hrun : (Walk.run { cursor := { lines := [] } }
      (((emissions source []).take 15).map Emission.token)).value with
  | error f =>
      rw [hrun] at hready
      exact nomatch hready
  | ok w =>
      rw [hrun] at hready
      exact ⟨w, rfl, ((walk_span_eq_emission_span source [] hblocks
        (by decide)).2 [] _ _ _ w hsplit rfl hrun).1 hready⟩

end JavaOutline
