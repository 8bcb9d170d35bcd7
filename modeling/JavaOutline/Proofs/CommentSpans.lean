import JavaOutline.Proofs.Contexts
import JavaOutline.Proofs.Emission

/-! # Reader and walk agree on comments

    The reader knows from the characters whether it is inside a comment; the
    walk has to find it out from the tokens.  This file proves that the two
    agree at every word and at every delimiter, unless the walk is passing
    over the arguments of an annotation, which it does without looking.

    * `Walk.Expects` is the agreement, and the lemmas after it say how a token
      moves it;
    * `WordSafe` says why no word of ordinary text or of a comment is taken
      for an opener or a closer: the characters of a mark would have been
      read as that mark;
    * `Synced` is the invariant of reading and walking together. -/

namespace JavaOutline

open Source

namespace Walk

/-- The walk is passing over the arguments of an annotation. -/
def inArguments (w : Walk) : Bool :=
  match w.annotation with
  | .arguments _ => true
  | _ => false

/-- A walk reads code outside comments and outside the arguments of an
    annotation. -/
theorem readsCode_iff (w : Walk) :
    w.readsCode = true ↔ w.span = .code ∧ w.inArguments = false := by
  rw [readsCode, Bool.and_eq_true, beq_iff_eq, inArguments]
  cases w.annotation <;> simp

theorem span_of_readsCode (w : Walk) (h : w.readsCode = true) : w.span = .code :=
  (w.readsCode_iff.mp h).1

theorem not_inArguments_of_readsCode (w : Walk) (h : w.readsCode = true) :
    w.inArguments = false :=
  (w.readsCode_iff.mp h).2

/-- The walk is in span `s`, or it passes over the arguments of an
    annotation, where it stays in ordinary code. -/
def Expects (w : Walk) (s : Span) : Prop :=
  w.span = if w.inArguments then .code else s

variable {w : Walk} {s : Span}

theorem Expects.of_span (h : w.span = s) (ha : w.inArguments = false) :
    w.Expects s := by
  rw [Expects, ha]
  exact h

theorem expects_code : w.Expects .code ↔ w.span = .code := by
  rw [Expects, ite_self]

/-- Outside arguments every token is taken as it stands. -/
theorem step_of_not_inArguments (h : w.inArguments = false) (t : Token) :
    w.step t = w.plainStep t := by
  rw [step]
  cases ha : w.annotation with
  | arguments d =>
      rw [inArguments, ha] at h
      cases h
  | absent => rfl
  | named => rfl

/-- The tokens that keep track of lines are taken as they stand everywhere. -/
theorem step_of_isLine {t : Token} (ht : t.kind.isLine = true) :
    w.step t = w.plainStep t := by
  rw [step]
  cases w.annotation with
  | arguments d => exact if_pos ht
  | absent => rfl
  | named => rfl

/-- Among arguments only parentheses are looked at. -/
theorem step_of_inArguments (h : w.inArguments = true) {t : Token}
    (ht : t.kind.isLine = false) :
    ∃ d, (w.step t).value = w.annotationArgument d t.kind := by
  cases ha : w.annotation with
  | arguments d => exact ⟨d, by simp only [step, ha, ht]; rfl⟩
  | absent | named =>
      rw [inArguments, ha] at h
      cases h

/-- A word does not end the arguments of an annotation. -/
theorem step_ofWord_of_inArguments (h : w.inArguments = true)
    (extra : List String) (n : Nat) (word : String) :
    (w.step (Token.ofWord extra n word)).value = w := by
  obtain ⟨d, hd⟩ := step_of_inArguments h (Token.inLine_ofWord extra n word).not_line
  rw [hd, Token.ofWord]
  dsimp only
  split <;> rfl

/-- Outside arguments the context follows every token as it stands. -/
theorem context_step_of_not_inArguments (h : w.inArguments = false) (t : Token) :
    (w.step t).value.context = w.context.plain t := by
  have hpassing : w.context.annotation = w.annotation := rfl
  rw [context_step, Context.next, hpassing]
  cases ha : w.annotation with
  | arguments d =>
      rw [inArguments, ha] at h
      cases h
  | absent | named => rfl

/-- Only an opening parenthesis begins the arguments of an annotation. -/
theorem inArguments_step (h : w.inArguments = false) {t : Token}
    (ht : t.kind ≠ .paramStart) : (w.step t).value.inArguments = false := by
  have hnext : Walk.annotation (w.step t).value = Context.annotation (w.context.plain t) :=
    congrArg Context.annotation (context_step_of_not_inArguments h t)
  rw [inArguments, hnext, Context.plain]
  cases hk : t.kind with
  | keyword =>
      by_cases hs : w.context.span = .code
      · simp only [if_pos hs]
        cases Keyword.isAnnotation t.text <;> rfl
      · simp only [if_neg hs]
        exact h
  | symbol =>
      by_cases hat : w.context.span = .code ∧ Text.startsWith '@' t.text = true
      · simp only [if_pos hat]
      · simp only [if_neg hat]
  | paramStart => exact absurd hk ht
  | _ => exact h

/-! ## How a token moves the agreement -/

theorem Expects.span_of_inArguments (h : w.Expects s)
    (ha : w.inArguments = true) : w.span = .code := by
  rw [Expects, ha] at h
  exact h

theorem Expects.span_of_not_inArguments (h : w.Expects s)
    (ha : w.inArguments = false) : w.span = s := by
  rw [Expects, ha] at h
  exact h

/-- A word, provided that no keyword is an opener or a closer. -/
theorem Expects.ofWord (h : w.Expects s) (extra : List String) (n : Nat)
    {word : String}
    (hk : Keyword.isKeyword extra word = true → s.after word = s) :
    (w.step (Token.ofWord extra n word)).value.Expects (s.after word) := by
  cases ha : w.inArguments with
  | true =>
      rw [step_ofWord_of_inArguments ha, Expects, ha]
      exact h.span_of_inArguments ha
  | false =>
      have hs := h.span_of_not_inArguments ha
      rw [Token.ofWord]
      cases hw : Keyword.isKeyword extra word with
      | true =>
          refine .of_span ?_ (inArguments_step ha (by simp))
          rw [hk hw, ← hs]
          exact w.span_step (by simp) (by simp)
      | false =>
          refine .of_span ?_ (inArguments_step ha (by simp))
          rw [← hs]
          exact congrArg Context.span (context_step_of_not_inArguments ha _)

/-- A delimiter of ordinary code. -/
theorem Expects.delimiter (h : w.Expects .code) {t : Token}
    (ht : t.kind.isDelimiter = true) : (w.step t).value.Expects .code := by
  rw [expects_code] at h ⊢
  have hkind : ∀ k : TokenKind, k.isDelimiter = false → t.kind ≠ k := by
    rintro k hk rfl
    exact Bool.false_ne_true (hk.symm.trans ht)
  exact (w.span_step (hkind _ rfl) (hkind _ rfl)).trans h

theorem Expects.sign (h : w.Expects s) (n : Nat) (l : List Char) :
    (w.step (Token.sign n l)).value.Expects s := by
  rw [step_sign]
  exact h

theorem Expects.lineNumber (h : w.Expects s) (n : Nat) :
    (w.step (Token.lineNumber n)).value.Expects s.nextLine := by
  rw [step_lineNumber]
  show (if w.span = .lineComment then .code else w.span)
    = if w.inArguments then .code else s.nextLine
  cases ha : w.inArguments with
  | true =>
      rw [h.span_of_inArguments ha]
      rfl
  | false =>
      rw [h.span_of_not_inArguments ha]
      rfl

end Walk

/-! ## Words that are no marks -/

/-- A word, its last character first, that begins like an opener. -/
def opensMark (u : List Char) : Prop :=
  ['/', '/'] <+: u.reverse ∨ ['/', '*'] <+: u.reverse

/-- Why the word under construction is no mark: `cs` is the text that
    follows. -/
def WordSafe (m : Mode) (u cs : List Char) : Prop :=
  match m with
  | .code =>
      ¬ opensMark u
        ∧ (u = ['/'] → cs.head? ≠ some '/' ∧ cs.head? ≠ some '*')
  | .lineComment => True
  | .blockComment =>
      u ≠ ['/', '*'] ∧ (u = ['*'] → cs.head? ≠ some '/')
  | _ => ¬ opensMark u ∧ u ≠ [] ∧ u ≠ ['/']

theorem opensMark_cons {c : Char} {u : List Char} (h : opensMark (c :: u)) :
    opensMark u ∨ (u = ['/'] ∧ (c = '/' ∨ c = '*')) := by
  have hlast : ∀ d, ['/', d] <+: (c :: u).reverse →
      ['/', d] <+: u.reverse ∨ (u = ['/'] ∧ c = d) := by
    intro d hd
    rw [List.reverse_cons, List.prefix_concat_iff] at hd
    rcases hd with heq | hpre
    · have heq : ['/'] ++ [d] = u.reverse ++ [c] := heq
      obtain ⟨hu, hc⟩ := List.append_inj' heq rfl
      refine .inr ⟨?_, (List.cons.inj hc).1.symm⟩
      rw [← List.reverse_reverse u, ← hu]
      rfl
    · exact .inl hpre
  rcases h with h | h
  · rcases hlast '/' h with h | ⟨hu, hc⟩
    · exact .inl (.inl h)
    · exact .inr ⟨hu, .inl hc⟩
  · rcases hlast '*' h with h | ⟨hu, hc⟩
    · exact .inl (.inr h)
    · exact .inr ⟨hu, .inr hc⟩

theorem opensMark_tail {c : Char} {u : List Char} (h : opensMark u) :
    opensMark (c :: u) := by
  have hpre : u.reverse <+: (c :: u).reverse := by
    rw [List.reverse_cons]
    exact List.prefix_append _ _
  rcases h with h | h
  · exact .inl (h.trans hpre)
  · exact .inr (h.trans hpre)

/-- The span that the walk is in while the reader is in a mode. -/
def Source.Mode.span (m : Mode) (o : Opener) : Span :=
  match m with
  | .lineComment => .lineComment
  | .blockComment => if o = .doc then .doc else .blockComment
  | _ => .code

theorem Source.Mode.span_nextLine (m : Mode) (o : Opener) :
    m.nextLine.span o = (m.span o).nextLine := by
  cases m <;> cases o <;> rfl

theorem after_of_not_opensMark {u : List Char} (h : ¬ opensMark u) :
    Span.code.after (String.ofList u.reverse) = .code := by
  have hne : ∀ w : List Char, ['/', '/'] <+: w ∨ ['/', '*'] <+: w →
      String.ofList u.reverse ≠ String.ofList w := by
    intro w hw heq
    rw [opensMark, String.ofList_injective heq] at h
    exact h hw
  have hdoc : String.ofList u.reverse ≠ "/**" :=
    hne ['/', '*', '*'] (.inr ⟨['*'], rfl⟩)
  have hblock : String.ofList u.reverse ≠ "/*" :=
    hne ['/', '*'] (.inr ⟨[], rfl⟩)
  have hline : String.ofList u.reverse ≠ "//" :=
    hne ['/', '/'] (.inl ⟨[], rfl⟩)
  simp [Span.after, hdoc, hblock, hline]

/-- A safe word leaves the span alone. -/
theorem WordSafe.after {m : Mode} {u cs : List Char} (h : WordSafe m u cs)
    (o : Opener) :
    (m.span o).after (String.ofList u.reverse) = m.span o := by
  cases m with
  | code => exact after_of_not_opensMark h.1
  | string | character | textBlock => exact after_of_not_opensMark h.1
  | lineComment => rfl
  | blockComment =>
      have hne : String.ofList u.reverse ≠ "*/" := by
        intro heq
        have hu : u.reverse = ['*', '/'] := String.ofList_injective heq
        exact h.1 (by rw [← List.reverse_reverse u, hu]; rfl)
      cases o <;> simp [Mode.span, Span.after, hne]

theorem not_opensMark_nil : ¬ opensMark [] := by
  rintro (⟨t, h⟩ | ⟨t, h⟩) <;> exact nomatch h

/-- No word has been begun. -/
theorem wordSafe_nil {m : Mode} (hm : m.isLiteral = false) (cs : List Char) :
    WordSafe m [] cs := by
  cases m with
  | code => exact ⟨not_opensMark_nil, fun h => nomatch h⟩
  | lineComment => trivial
  | blockComment => exact ⟨(fun h => nomatch h), (fun h => nomatch h)⟩
  | string | character | textBlock => exact nomatch hm

/-- What a word inside a literal is safe by: its quote. -/
structure QuoteSafe (u : List Char) : Prop where
  noMark : ¬ opensMark u
  ne_nil : u ≠ []
  ne_slash : u ≠ ['/']

theorem QuoteSafe.wordSafe {u : List Char} (h : QuoteSafe u) {m : Mode}
    (hm : m.isLiteral = true ∨ m = .code) (cs : List Char) :
    WordSafe m u cs := by
  rcases hm with hm | rfl
  · cases m <;>
      first | exact ⟨h.noMark, h.ne_nil, h.ne_slash⟩ | exact nomatch hm
  · exact ⟨h.noMark, fun hu => absurd hu h.ne_slash⟩

theorem WordSafe.quoteSafe {m : Mode} (hm : m.isLiteral = true)
    {u cs : List Char} (h : WordSafe m u cs) : QuoteSafe u := by
  cases m <;> first | exact ⟨h.1, h.2.1, h.2.2⟩ | exact nomatch hm

theorem QuoteSafe.append {u : List Char} (h : QuoteSafe u) (cs : List Char) :
    QuoteSafe (cs ++ u) := by
  induction cs with
  | nil => exact h
  | cons c cs ih =>
      refine ⟨fun hm => ?_, List.cons_ne_nil _ _, fun hn => ?_⟩
      · rcases opensMark_cons hm with hm | ⟨hu, -⟩
        · exact ih.noMark hm
        · exact ih.ne_slash hu
      · exact ih.ne_nil (List.cons.inj hn).2

/-- A quote after ordinary text. -/
theorem WordSafe.quote {u cs : List Char} (h : WordSafe .code u cs) {q : Char}
    (hq : q = '"' ∨ q = '\'') : QuoteSafe (q :: u) := by
  have hne : q ≠ '/' ∧ q ≠ '*' := by
    rcases hq with rfl | rfl <;> decide
  refine ⟨fun hm => ?_, List.cons_ne_nil _ _, fun hn => ?_⟩
  · rcases opensMark_cons hm with hm | ⟨-, hc | hc⟩
    · exact h.1 hm
    · exact hne.1 hc
    · exact hne.2 hc
  · exact hne.1 (List.cons.inj hn).1

/-- A character of a block comment. -/
theorem WordSafe.comment {c : Char} {u cs : List Char}
    (h : WordSafe .blockComment u (c :: cs))
    (hc : c = '*' → cs.head? ≠ some '/') :
    WordSafe .blockComment (c :: u) cs := by
  refine ⟨fun hu => ?_, fun hu => hc (List.cons.inj hu).1⟩
  obtain ⟨rfl, htail⟩ := List.cons.inj hu
  exact h.2 htail rfl

/-! ## How ordinary text grows a word -/

namespace Gather

/-- What ordinary text can make of the word `u` at the character `c` without
    ending it. -/
inductive Regrown (c : Char) (u : List Char) : List Char → Prop where
  | take : Regrown c u (c :: u)
  | keep (h : u ≠ ['/']) : Regrown c u u
  /-- A blank among type arguments. -/
  | space : Regrown c u (' ' :: u)
  /-- The space before a comma or a closing bracket is dropped. -/
  | dropSpace {v : List Char} (hu : u = ' ' :: v) (hc : c ≠ '/' ∧ c ≠ '*') :
      Regrown c u (c :: v)

/-- A word regrown from a safe one is safe. -/
theorem Regrown.wordSafe {c : Char} {u v cs : List Char}
    (hg : Regrown c u v) (h : WordSafe .code u (c :: cs))
    (hc : c = '/' → cs.head? ≠ some '/' ∧ cs.head? ≠ some '*') :
    WordSafe .code v cs := by
  cases hg with
  | take =>
      -- a mark that now starts the word either did so before, or the word was a
      -- lone slash, and then the text would not have been ordinary
      refine ⟨fun hm => ?_, fun hu => hc (List.cons.inj hu).1⟩
      rcases opensMark_cons hm with hm | ⟨hu, rfl | rfl⟩
      · exact h.1 hm
      · exact (h.2 hu).1 rfl
      · exact (h.2 hu).2 rfl
  | keep hne => exact ⟨h.1, fun hu => absurd hu hne⟩
  | space =>
      refine ⟨fun hm => ?_, fun hu => nomatch hu⟩
      rcases opensMark_cons hm with hm | ⟨-, hc | hc⟩
      · exact h.1 hm
      · exact nomatch hc
      · exact nomatch hc
  | dropSpace hu hne =>
      subst hu
      refine ⟨fun hm => ?_, fun hu => absurd (List.cons.inj hu).1 hne.1⟩
      rcases opensMark_cons hm with hm | ⟨-, hc | hc⟩
      · exact h.1 (opensMark_tail hm)
      · exact hne.1 hc
      · exact hne.2 hc

variable {g : Gather}

/-- A space that may be dropped, and the character that drops it. -/
theorem regrown_dropSpace (h : g.capturing = true) {c : Char}
    (hc : c ≠ '/' ∧ c ≠ '*') :
    Regrown c g.word (g.dropSpace.take c).word := by
  rw [Gather.dropSpace]
  split
  · next v hv =>
      have hcap : ({ g with word := v } : Gather).capturing = true := h
      rw [take_capturing hcap]
      exact .dropSpace hv hc
  · rw [take_capturing h]
    exact .take

theorem regrown_closeAngle (h : g.capturing = true) :
    Regrown '>' g.word (g.closeAngle.take '>').word := by
  rw [Gather.closeAngle]
  split
  · rw [take_capturing h]
    exact .take
  · have hcap : ({ g with angle := g.angle - 1 } : Gather).capturing = true := h
    exact regrown_dropSpace hcap ⟨by decide, by decide⟩

theorem regrown_argumentBlank (h : g.capturing = true) (c : Char) :
    Regrown c g.word g.argumentBlank.word := by
  rw [Gather.argumentBlank]
  split
  · next hw => exact .keep (by rw [hw]; decide)
  · next hw =>
      refine .keep (fun hu => ?_)
      rw [hw] at hu
      exact absurd (List.cons.inj hu).1 (by decide)
  · next hw =>
      refine .keep (fun hu => ?_)
      rw [hw] at hu
      exact absurd (List.cons.inj hu).1 (by decide)
  · rw [take_capturing h]
    exact .space

/-- A character of ordinary text grows the word, ends it, or ends it and is a
    delimiter. -/
theorem code_capturing (h : g.capturing = true) (extra : List String)
    (n : Nat) (c : Char) :
    ((g.code extra n c).2 = [] ∧ Regrown c g.word (g.code extra n c).1.word)
      ∨ ((g.code extra n c).2 = g.wordToken extra n
          ∧ (g.code extra n c).1.word = [])
      ∨ ∃ t : Token, t.kind.isDelimiter = true
          ∧ (g.code extra n c).2 = g.wordToken extra n ++ [t]
          ∧ (g.code extra n c).1.word = [] := by
  simp only [code]
  cases hr : CodeRole.of c with
  | openAngle =>
      have hcap : ({ g with angle := g.angle + 1 } : Gather).capturing = true := h
      refine .inl ⟨rfl, ?_⟩
      simp only [take_capturing hcap]
      exact .take
  | closeAngle =>
      have hc : c = '>' := by grind [CodeRole.of]
      subst hc
      exact .inl ⟨rfl, regrown_closeAngle h⟩
  | blank =>
      by_cases ha : g.angle = 0
      · simp only [if_pos ha]
        exact .inr (.inl ⟨trivial, rfl⟩)
      · simp only [if_neg ha]
        exact .inl ⟨trivial, regrown_argumentBlank h c⟩
  | comma =>
      have hc : c = ',' := by grind [CodeRole.of]
      subst hc
      by_cases ha : g.angle = 0
      · simp only [if_pos ha, delimiter_capturing h]
        exact .inr (.inr ⟨_, rfl, rfl, rfl⟩)
      · simp only [if_neg ha, argumentComma, h]
        exact .inl ⟨trivial, regrown_dropSpace h ⟨by decide, by decide⟩⟩
  | delimiter kind =>
      simp only [delimiter_capturing h]
      exact .inr (.inr ⟨_, isDelimiter_of_delimiterKind?
        (CodeRole.delimiterKind?_of_delimiter hr), rfl, rfl⟩)
  | openBrace =>
      simp only [delimiter_capturing h]
      exact .inr (.inr ⟨_, rfl, rfl, rfl⟩)
  | closeBrace => exact .inr (.inl ⟨rfl, rfl⟩)
  | plain =>
      simp only [take_capturing h]
      exact .inl ⟨trivial, .take⟩

end Gather

end JavaOutline
