import JavaOutline.Proofs.Moves

/-! # Where a token stands

    Whether a token is in ordinary code, in a comment or among the arguments of an
    annotation is decided by the span and the annotation that a walk has got to.
    These two follow the tokens on their own (`Walk.context_step`): no statement and
    no draft has a say in them. -/

namespace JavaOutline

open Text

/-- The span after a symbol. -/
def Span.after (s : Span) (word : String) : Span :=
  if s = .lineComment then s
  else if word = "*/" then .code
  else if s ≠ .code then s
  else if word = "/**" then .doc
  else if word = "/*" then .blockComment
  else if word = "//" then .lineComment
  else .code

/-- The span at the start of the next line. -/
def Span.nextLine (s : Span) : Span :=
  if s = .lineComment then .code else s

/-- The part of a walk that tells ordinary code from the rest. -/
structure Context where
  span : Span := .code
  annotation : Annotation := .absent
  deriving DecidableEq, Repr

/-- A keyword that names an annotation. -/
def Keyword.isAnnotation (word : String) : Bool := startsWith '@' word && !isDocTag word

namespace Context

/-- What a token does outside the arguments of an annotation. -/
def plain (c : Context) (t : Token) : Context :=
  match t.kind with
  | .keyword =>
    if c.span = .code then
      { c with annotation := if Keyword.isAnnotation t.text then .named else .absent }
    else c
  | .symbol =>
    { span := c.span.after t.text
      annotation := if c.span = .code ∧ startsWith '@' t.text then .named else .absent }
  | .paramStart =>
    if c.span = .code ∧ c.annotation = .named then { c with annotation := .arguments 1 }
    else c
  | .lineNumber => { c with span := c.span.nextLine }
  | _ => c

/-- What a token does among the arguments: only parentheses count. -/
def argument (c : Context) (depth : Int) : TokenKind → Context
  | .paramStart => { c with annotation := .arguments (depth + 1) }
  | .paramEnd =>
    { c with annotation := if depth = 1 then .absent else .arguments (depth - 1) }
  | _ => c

/-- What one token does. -/
def next (c : Context) (t : Token) : Context :=
  match c.annotation with
  | .arguments depth => if t.kind.isLine then c.plain t else c.argument depth t.kind
  | _ => c.plain t

/-- The context after some tokens. -/
def after (ts : List Token) : Context := ts.foldl next {}

/-- Neither inside a comment nor among the arguments of an annotation. -/
def readsCode (c : Context) : Bool :=
  c.span == .code
    && (match c.annotation with
        | .arguments _ => false
        | _ => true)

/-- Only symbols and the ends of lines lead in or out of a comment. -/
theorem span_next (c : Context) {t : Token} (hsymbol : t.kind ≠ .symbol)
    (hline : t.kind ≠ .lineNumber) : (c.next t).span = c.span := by
  have hplain : (c.plain t).span = c.span := by
    rw [plain]
    cases hk : t.kind with
    | symbol => exact absurd hk hsymbol
    | lineNumber => exact absurd hk hline
    | keyword | paramStart =>
        dsimp only
        split <;> rfl
    | _ => rfl
  rw [next]
  split
  · split
    · exact hplain
    · cases t.kind <;> rfl
  · exact hplain

end Context

/-- No word with a place in a declaration is an annotation. -/
theorem Keyword.not_startsWith_of_isStructural {word : String}
    (h : isStructural word = true) : startsWith '@' word = false := by
  have hwords : ∀ w ∈ typeWords ++ accessWords ++ modifierWords ++ markerWords,
      startsWith '@' w = false := by decide
  refine hwords word ?_
  simpa only [isStructural, Bool.or_eq_true, List.contains_iff_mem, List.mem_append] using h

/-- Where the next token stands after a move. -/
def Move.context (c : Context) : Move → Context
  | .aside span a _ _ => ⟨span, a⟩
  | .line _ span => { c with span }
  | .gather _ a _ => { c with annotation := a }
  | .license _ | .type _ => { c with annotation := .absent }
  | .closeDoc .. => {}
  | .ends _ => c

namespace Walk

/-- Where the next token stands. -/
def context (w : Walk) : Context := ⟨w.span, w.annotation⟩

theorem take_context (w : Walk) (m : Move) :
    (w.take m).value.context = m.context w.context := by
  cases m with
  | aside | line | gather | license | type | closeDoc => rfl
  | ends c =>
      obtain ⟨d, hd⟩ := w.flush.close_frame c
      rw [take, Logged.value_bind, hd]
      rfl

namespace View

def context (v : View) : Context := ⟨v.span, v.annotation⟩

theorem codeKeyword_context (v : View) (word : String) (line : Int) (c : Context) :
    (v.codeKeyword word line).context c
      = { c with annotation := if Keyword.isAnnotation word then .named else .absent } := by
  have hplain : startsWith '@' word = false → Keyword.isAnnotation word = false :=
    fun hat => by rw [Keyword.isAnnotation, hat, Bool.false_and]
  rw [codeKeyword]
  split
  · next htype =>
      have hstructural : Keyword.isStructural word = true := by
        have hword : Keyword.typeWords.contains word = true := htype
        rw [Keyword.isStructural, hword]
        rfl
      rw [hplain (Keyword.not_startsWith_of_isStructural hstructural)]
      split <;> rfl
  · split
    · next hstructural =>
        rw [hplain (Keyword.not_startsWith_of_isStructural hstructural)]
        split <;> rfl
    · split
      · next hat =>
          split
          · next htag =>
              rw [Keyword.isAnnotation, htag, Bool.not_true, Bool.and_false]
              rfl
          · next htag =>
              rw [Keyword.isAnnotation, hat, Bool.eq_false_iff.mpr htag]
              rfl
      · next hat =>
          rw [hplain (Bool.eq_false_iff.mpr hat)]
          rfl

theorem keyword_context (v : View) (word : String) (line : Int) :
    (v.keyword word line).context v.context
      = if v.span = .code then
          { v.context with
            annotation := if Keyword.isAnnotation word then .named else .absent }
        else v.context := by
  by_cases hs : v.span = .code
  · rw [if_pos hs, keyword, hs]
    exact v.codeKeyword_context word line v.context
  · rw [if_neg hs, keyword]
    split
    · rfl
    · rfl
    · rfl
    · next hcode => exact absurd hcode hs

theorem codeSymbol_context {v : View} (hs : v.span = .code) (word : String) :
    (v.codeSymbol word).context v.context
      = { span :=
            if word = "/**" then .doc
            else if word = "/*" then .blockComment
            else if word = "//" then .lineComment
            else .code
          annotation :=
            if Span.code = .code ∧ startsWith '@' word then .named else .absent } := by
  rw [codeSymbol]
  by_cases hdoc : word = "/**"
  · rw [hdoc]
    rfl
  by_cases hblock : word = "/*"
  · rw [hblock]
    rfl
  by_cases hline : word = "//"
  · rw [hline]
    rfl
  rw [if_neg hdoc, if_neg hblock, if_neg hline, if_neg hdoc, if_neg hblock, if_neg hline]
  cases hat : startsWith '@' word with
  | true => rw [if_pos rfl, if_pos ⟨rfl, rfl⟩, Move.context, hs]
  | false =>
      rw [if_neg Bool.false_ne_true, if_neg fun h => Bool.false_ne_true h.2, Move.context,
        context, hs]

theorem symbol_context (v : View) (word : String) :
    (v.symbol word).context v.context
      = { span := v.span.after word
          annotation :=
            if v.span = .code ∧ startsWith '@' word then .named else .absent } := by
  have hcode : ∀ s : Span, s ≠ .code → ¬(s = .code ∧ startsWith '@' word = true) :=
    fun s hs h => hs h.1
  rw [symbol, Span.after]
  cases hs : v.span with
  | lineComment => rfl
  | doc | blockComment =>
      rw [if_neg (hcode _ (by decide))]
      by_cases hclose : word = "*/"
      · rw [if_pos hclose, if_pos hclose, closeComment, hs]
        rfl
      · rw [if_neg hclose, if_neg hclose]
        rfl
  | code =>
      by_cases hclose : word = "*/"
      · rw [hclose, closeComment, hs]
        rfl
      · rw [if_neg hclose, if_neg hclose]
        exact codeSymbol_context hs word

theorem plainMove_context (v : View) (t : Token) :
    (v.plainMove t).context v.context = v.context.plain t := by
  rw [plainMove, Context.plain]
  cases t.kind with
  | keyword => exact v.keyword_context t.text t.line
  | symbol => exact v.symbol_context t.text
  | join =>
      dsimp only
      split <;> rfl
  | paramStart =>
      show (v.paramStart).context v.context
        = if v.span = .code ∧ v.annotation = .named then _ else _
      rw [paramStart]
      by_cases hs : v.span = .code
      · by_cases hn : v.annotation = .named
        · rw [if_neg (not_not_intro hs), if_pos hn, if_pos ⟨hs, hn⟩]
          rfl
        · rw [if_neg (not_not_intro hs), if_neg hn, if_neg fun h => hn h.2]
          rfl
      · rw [if_pos hs, if_neg fun h => hs h.1]
        rfl
  | paramEnd =>
      dsimp only
      rw [paramEnd]
      split
      · rfl
      · split <;> rfl
  | statementEnd =>
      dsimp only
      rw [statementEnd]
      split <;> rfl
  | lineNumber | sign => rfl

theorem move_context (v : View) (t : Token) :
    (v.move t).context v.context = v.context.next t := by
  have hpassing : v.context.annotation = v.annotation := rfl
  rw [move, Context.next, hpassing]
  cases ha : v.annotation with
  | absent | named => exact v.plainMove_context t
  | arguments depth =>
      dsimp only
      split
      · exact v.plainMove_context t
      · cases t.kind with
        | paramStart | paramEnd => rfl
        | _ =>
            show Context.mk v.span (.arguments depth) = v.context
            rw [← ha]
            rfl

end View

/-- **The context follows the tokens on its own.** -/
theorem context_step (w : Walk) (t : Token) :
    (w.step t).value.context = w.context.next t := by
  rw [step_eq, take_context]
  exact w.view.move_context t

theorem span_step (w : Walk) {t : Token} (hsymbol : t.kind ≠ .symbol)
    (hline : t.kind ≠ .lineNumber) : (w.step t).value.span = w.span :=
  (congrArg Context.span (w.context_step t)).trans (w.context.span_next hsymbol hline)

theorem context_steps (w : Walk) (ts : List Token) :
    (w.steps ts).context = ts.foldl Context.next w.context := by
  induction ts generalizing w with
  | nil => rfl
  | cons t ts ih =>
      show ((w.step t).value.steps ts).context = ts.foldl Context.next (w.context.next t)
      rw [ih, context_step]

end Walk

end JavaOutline
