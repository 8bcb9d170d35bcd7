import JavaOutline.Token.Line

/-! # Reading character by character

    The tokens of a source are defined line by line.  This file reads the same
    tokens in one pass over the characters, with the whole state of the
    reading in one record, `Reader`, so that a text can be read in parts:

    * `bite` is one reading step on a text that may hold line ends, and every
      token of a step is made in the mode in which the step starts;
    * `Reader.read` goes through a text and gives the tokens on the way;
    * `tokenize_eq_read` says that it gives the tokens of the source;
    * `Reader.read_append` says when reading two texts one after the other is
      reading both at once: the second must not complete a mark that the
      first leaves open. -/

namespace JavaOutline

open Source

/-! ## Steps that stay inside a line -/

namespace Source

/-- The modes of literals. -/
def Mode.isLiteral : Mode → Bool
  | .string => true
  | .character => true
  | .textBlock => true
  | _ => false

/-- A text whose first character does not complete a mark begun before it. -/
def Inert (t : List Char) : Prop :=
  ∀ d ∈ t.head?, d ≠ '/' ∧ d ≠ '*' ∧ d ≠ '"'

theorem inert_cons {d : Char} {t : List Char} (h1 : d ≠ '/') (h2 : d ≠ '*')
    (h3 : d ≠ '"') : Inert (d :: t) := by
  intro e he
  cases he
  exact ⟨h1, h2, h3⟩

theorem Inert.not_quote {t : List Char} (h : Inert t) : t.head? ≠ some '"' := by
  intro ht
  exact (h '"' ht).2.2 rfl

/-- A character that completes a mark stands before an inert text. -/
theorem Inert.before {l t r : List Char} {d : Char} (ht : Inert t)
    (hd : d = '/' ∨ d = '*' ∨ d = '"') (h : l ++ t = d :: r) :
    ∃ l', l = d :: l' ∧ l' ++ t = r := by
  cases l with
  | nil =>
      have hne := ht d (by rw [show t = d :: r from h]; rfl)
      rcases hd with rfl | rfl | rfl
      · exact absurd rfl hne.1
      · exact absurd rfl hne.2.1
      · exact absurd rfl hne.2.2
  | cons e l =>
      obtain ⟨he, hl⟩ := List.cons.inj h
      exact ⟨l, by rw [he], hl⟩

/-- An inert text after a line leaves each step on the line as it is, unless
    it follows a backslash that escapes the next character. -/
theorem cut_append (m : Mode) (c : Char) (l t : List Char) (ht : Inert t)
    (hesc : l = [] → c = '\\' → m.isLiteral = true → t = []) :
    cut m c (l ++ t) = { cut m c l with rest := (cut m c l).rest ++ t } := by
  have hlit : m.isLiteral = true → ∀ d r, c = '\\' → l ++ t = d :: r →
      (∀ d r, c = '\\' → l = d :: r → False) → False := by
    intro hm d r hc h hno
    cases l with
    | nil => rw [hesc rfl hc hm] at h; exact nomatch h
    | cons e l => exact hno e l hc rfl
  -- in the other cases the characters that decide are there already
  fun_cases cut m c l with
  | case3 r hr =>
      rw [List.cons_append, List.cons_append, cut.eq_3]
      intro r' h
      obtain ⟨r'', rfl, -⟩ := ht.before (.inl rfl) h
      exact hr r'' rfl
  | case4 r hr1 hr2 =>
      have hstar : ∀ r', r ++ t = '*' :: r' → False := by
        intro r' h
        obtain ⟨r'', rfl, -⟩ := ht.before (.inr (.inl rfl)) h
        exact hr2 r'' rfl
      rw [List.cons_append, cut.eq_4]
      · intro r' h
        exact hstar _ h
      · exact hstar
  | case6 l hr =>
      rw [cut.eq_6]
      intro r h
      obtain ⟨r', rfl, h'⟩ := ht.before (.inr (.inr rfl)) h
      obtain ⟨r'', rfl, -⟩ := ht.before (.inr (.inr rfl)) h'
      exact hr r'' rfl
  | case8 c l h1 h2 h3 h4 h5 h6 h7 =>
      have hstar : ∀ r, c = '/' → l ++ t = '*' :: r → False := by
        intro r hc h
        obtain ⟨r', rfl, -⟩ := ht.before (.inr (.inl rfl)) h
        exact h4 r' hc rfl
      rw [cut.eq_8 _ _ h6 h7]
      · intro r hc h
        obtain ⟨r', rfl, -⟩ := ht.before (.inl rfl) h
        exact h1 r' hc rfl
      · intro r hc h
        exact hstar _ hc h
      · intro r hc h
        exact hstar _ hc h
      · exact hstar
      · intro r hc
        exact absurd hc h6
  | case11 c l hr =>
      rw [cut.eq_11]
      intro r hc h
      obtain ⟨r', rfl, -⟩ := ht.before (.inl rfl) h
      exact hr r' hc rfl
  | case14 c l h1 h2 =>
      rw [cut.eq_14 _ _ h2]
      intro d r hc h
      exact hlit rfl d r hc h h1
  | case17 c l h1 h2 =>
      rw [cut.eq_17 _ _ h2]
      intro d r hc h
      exact hlit rfl d r hc h h1
  | case20 c l h1 h2 =>
      rw [cut.eq_20]
      · intro d r hc h
        exact hlit rfl d r hc h h1
      · intro r hc h
        obtain ⟨r', rfl, h'⟩ := ht.before (.inr (.inr rfl)) h
        obtain ⟨r'', rfl, -⟩ := ht.before (.inr (.inr rfl)) h'
        exact h2 r'' hc rfl
  | _ => rfl

/-- One reading step on a text `c :: cs` that may hold line ends.  It does not
    look beyond its line, and it takes an opener without the closer after
    it. -/
def bite (m : Mode) (c : Char) (cs : List Char) : Cut :=
  match m, c, cs with
  | .code, '/', '*' :: '*' :: '/' :: r =>
    ⟨[.opener .block], .blockComment, '*' :: '/' :: r⟩
  | m, c, '\n' :: r => { cut m c [] with rest := '\n' :: r }
  | m, c, cs => cut m c cs

/-- A single character is a step of its own. -/
theorem cut_nil_rest (m : Mode) (c : Char) : (cut m c []).rest = [] :=
  List.length_eq_zero_iff.mp (Nat.le_zero.mp (cut_rest_length m c []))

/-- A step takes at least one character. -/
theorem bite_rest_length (m : Mode) (c : Char) (cs : List Char) :
    (bite m c cs).rest.length ≤ cs.length := by
  fun_cases bite m c cs with
  | case1 r => simp
  | case2 => exact Nat.le_refl _
  | case3 => exact cut_rest_length _ _ _

/-- A step loses no character. -/
theorem bite_text (m : Mode) (c : Char) (cs : List Char) :
    (bite m c cs).pieces.flatMap Piece.text ++ (bite m c cs).rest
      = c :: cs := by
  fun_cases bite m c cs with
  | case1 r => rfl
  | case2 m c r =>
      have h := cut_text m c []
      rw [cut_nil_rest, List.append_nil] at h
      show (cut m c []).pieces.flatMap Piece.text ++ '\n' :: r = c :: '\n' :: r
      rw [h]
      rfl
  | case3 => exact cut_text _ _ _

theorem cut_no_newline {m : Mode} {c : Char} {cs : List Char}
    (hc : c ≠ '\n') (hcs : cs.head? ≠ some '\n') :
    '\n' ∉ (cut m c cs).pieces.flatMap Piece.text := by
  fun_cases cut m c cs <;>
    simp_all [Piece.text, Opener.text, textBlockQuotes, eq_comm]

/-- A step takes no line end. -/
theorem bite_no_newline {m : Mode} {c : Char} (hc : c ≠ '\n')
    (cs : List Char) : '\n' ∉ (bite m c cs).pieces.flatMap Piece.text := by
  fun_cases bite m c cs with
  | case1 r => exact (by decide : '\n' ∉ ['/', '*'])
  | case2 m c r => exact cut_no_newline hc (by simp)
  | case3 m c cs _ h =>
      apply cut_no_newline hc
      intro hcs
      obtain ⟨r, rfl⟩ := List.head?_eq_some_iff.mp hcs
      exact h r rfl

/-- Before a line end a step takes one character. -/
theorem bite_newline (m : Mode) (c : Char) (r : List Char) :
    bite m c ('\n' :: r) = { cut m c [] with rest := '\n' :: r } :=
  bite.eq_2 m c r

/-- Before a character that is no line end, and unless an empty comment
    starts here, a step is a step on the line. -/
theorem bite_eq_cut {m : Mode} {c : Char} {cs : List Char}
    (h1 : ∀ r, m = .code → c = '/' → cs = '*' :: '*' :: '/' :: r → False)
    (h2 : cs.head? ≠ some '\n') : bite m c cs = cut m c cs := by
  fun_cases bite m c cs with
  | case1 r => exact (h1 r rfl rfl rfl).elim
  | case2 => exact absurd rfl h2
  | case3 => rfl

/-- An inert text after another one leaves each step on the latter as it is,
    unless it follows a backslash that escapes the next character. -/
theorem bite_append (m : Mode) (c : Char) (cs t : List Char) (ht : Inert t)
    (hesc : cs = [] → c = '\\' → m.isLiteral = true →
      t = [] ∨ t.head? = some '\n') :
    bite m c (cs ++ t)
      = { bite m c cs with rest := (bite m c cs).rest ++ t } := by
  fun_cases bite m c cs with
  | case1 r => rfl
  | case2 m c r => rw [List.cons_append, bite_newline]
  | case3 m c cs h1 h2 =>
      -- a step that ends the first text may now see a line end
      by_cases hnl : cs = [] ∧ t.head? = some '\n'
      · obtain ⟨rfl, hnl⟩ := hnl
        obtain ⟨r, rfl⟩ := List.head?_eq_some_iff.mp hnl
        rw [List.nil_append, bite_newline, cut_nil_rest]
        rfl
      · rw [bite_eq_cut]
        · apply cut_append m c cs t ht
          intro hcs hc hm
          rcases hesc hcs hc hm with h | h
          · exact h
          · exact absurd ⟨hcs, h⟩ hnl
        · -- an empty comment that starts here would end in the first text
          intro r hm hc h
          obtain ⟨r1, rfl, e1⟩ := ht.before (.inr (.inl rfl)) h
          obtain ⟨r2, rfl, e2⟩ := ht.before (.inr (.inl rfl)) e1
          obtain ⟨r3, rfl, -⟩ := ht.before (.inl rfl) e2
          exact h1 r3 hm hc rfl
        · cases cs with
          | nil => exact fun h => hnl ⟨rfl, h⟩
          | cons d cs =>
              intro h
              cases h
              exact h2 cs rfl

/-- The pieces of a line, step by step. -/
theorem pieces_bite (m : Mode) (c : Char) {l : List Char} (hl : '\n' ∉ l) :
    pieces m (c :: l)
      = ((bite m c l).pieces ++ (pieces (bite m c l).mode (bite m c l).rest).1,
          (pieces (bite m c l).mode (bite m c l).rest).2) := by
  fun_cases bite m c l with
  | case1 r =>
      -- the line reader takes an empty comment in one step
      rw [pieces, pieces]
      rfl
  | case2 m c r => exact absurd (by simp) hl
  | case3 => rw [pieces]

/-! ### Steps by what they read -/

/-- A step that takes one character and looks at no other. -/
theorem bite_single {m m' : Mode} {c : Char} {p : Piece}
    (h : ∀ cs, cs.head? ≠ some '\n' → cut m c cs = ⟨[p], m', cs⟩)
    (hc : m ≠ .code ∨ c ≠ '/') (cs : List Char) :
    bite m c cs = ⟨[p], m', cs⟩ := by
  by_cases hnl : cs.head? = some '\n'
  · obtain ⟨r, rfl⟩ := List.head?_eq_some_iff.mp hnl
    rw [bite_newline, h [] (by simp)]
  · rw [bite_eq_cut _ hnl, h cs hnl]
    intro r hm hc' _
    rcases hc with h | h
    · exact h hm
    · exact h hc'

/-- Ordinary text. -/
theorem bite_code {c : Char} (h1 : c ≠ '/') (h2 : c ≠ '"') (h3 : c ≠ '\'')
    (cs : List Char) : bite .code c cs = ⟨[.code c], .code, cs⟩ := by
  refine bite_single (fun cs _ => ?_) (.inr h1) cs
  rw [cut.eq_8 c cs h2 h3]
  · intro r hc; exact absurd hc h1
  · intro r hc; exact absurd hc h1
  · intro r hc; exact absurd hc h1
  · intro r hc; exact absurd hc h1
  · intro r hc; exact absurd hc h2

/-- A slash that opens no comment. -/
theorem bite_slash {cs : List Char} (h1 : cs.head? ≠ some '/')
    (h2 : cs.head? ≠ some '*') :
    bite .code '/' cs = ⟨[.code '/'], .code, cs⟩ := by
  have hcut : ∀ r : List Char, r.head? ≠ some '/' → r.head? ≠ some '*' →
      cut .code '/' r = ⟨[.code '/'], .code, r⟩ := by
    intro r h1 h2
    rw [cut.eq_8 '/' r (by decide) (by decide)]
    · rintro r _ rfl; exact h1 rfl
    · rintro r _ rfl; exact h2 rfl
    · rintro r _ rfl; exact h2 rfl
    · rintro r _ rfl; exact h2 rfl
    · intro r hc; exact absurd hc (by decide)
  by_cases hnl : cs.head? = some '\n'
  · obtain ⟨r, rfl⟩ := List.head?_eq_some_iff.mp hnl
    rw [bite_newline, hcut [] (by simp) (by simp)]
  · rw [bite_eq_cut _ hnl, hcut cs h1 h2]
    rintro r _ _ rfl
    exact h2 rfl

/-- The opener of a doc comment. -/
theorem bite_doc {r : List Char} (h : r.head? ≠ some '/') :
    bite .code '/' ('*' :: '*' :: r) = ⟨[.opener .doc], .blockComment, r⟩ := by
  rw [bite_eq_cut]
  · apply cut.eq_3
    rintro t rfl
    exact h rfl
  · rintro t _ _ ht
    cases ht
    exact h rfl
  · simp

/-- The opener of a block comment that does not start with a star. -/
theorem bite_block {r : List Char} (h : r.head? ≠ some '*') :
    bite .code '/' ('*' :: r) = ⟨[.opener .block], .blockComment, r⟩ := by
  rw [bite_eq_cut]
  · apply cut.eq_4
    · rintro t rfl
      exact h rfl
    · rintro t rfl
      exact h rfl
  · rintro t _ _ ht
    cases ht
    exact h rfl
  · simp

theorem bite_apostrophe (cs : List Char) :
    bite .code '\'' cs = ⟨[.literal '\''], .character, cs⟩ :=
  bite_single (fun _ _ => rfl) (.inr (by decide)) cs

/-- A quote that opens a string. -/
theorem bite_quote {cs : List Char} (h : ∀ r, cs ≠ '"' :: '"' :: r) :
    bite .code '"' cs = ⟨[.literal '"'], .string, cs⟩ := by
  by_cases hnl : cs.head? = some '\n'
  · obtain ⟨r, rfl⟩ := List.head?_eq_some_iff.mp hnl
    rw [bite_newline]
    rfl
  · rw [bite_eq_cut (fun _ _ h _ => absurd h (by decide)) hnl,
      cut.eq_6 cs (fun r => h r)]

theorem bite_lineComment (c : Char) (cs : List Char) :
    bite .lineComment c cs = ⟨[.comment c], .lineComment, cs⟩ :=
  bite_single (fun _ _ => rfl) (.inl (by decide)) cs

/-- A character of a block comment that does not close it. -/
theorem bite_blockComment {c : Char} {cs : List Char}
    (h : c = '*' → cs.head? ≠ some '/') :
    bite .blockComment c cs = ⟨[.comment c], .blockComment, cs⟩ := by
  by_cases hnl : cs.head? = some '\n'
  · obtain ⟨r, rfl⟩ := List.head?_eq_some_iff.mp hnl
    rw [bite_newline, cut.eq_11 c [] (fun r _ h => nomatch h)]
  · rw [bite_eq_cut (fun _ h => by cases h) hnl, cut.eq_11]
    rintro r hc rfl
    exact h hc rfl

/-- The quote that closes a literal on one line. -/
inductive Quotes : Mode → Char → Prop where
  | string : Quotes .string '"'
  | character : Quotes .character '\''

theorem Quotes.isLiteral {m : Mode} {q : Char} (h : Quotes m q) :
    m.isLiteral = true := by
  cases h <;> rfl

/-- A character of a literal that neither closes it nor escapes another. -/
theorem Quotes.bite_char {m : Mode} {q c : Char} (h : Quotes m q) (h1 : c ≠ q)
    (h2 : c ≠ '\\') (cs : List Char) : bite m c cs = ⟨[.literal c], m, cs⟩ := by
  cases h with
  | string =>
      refine bite_single (fun cs _ => ?_) (.inl (by decide)) cs
      rw [cut.eq_14 c cs h1]
      intro d r hc
      exact absurd hc h2
  | character =>
      refine bite_single (fun cs _ => ?_) (.inl (by decide)) cs
      rw [cut.eq_17 c cs h1]
      intro d r hc
      exact absurd hc h2

theorem Quotes.bite_quote {m : Mode} {q : Char} (h : Quotes m q)
    (cs : List Char) : bite m q cs = ⟨[.literal q], .code, cs⟩ := by
  cases h with
  | string => exact bite_single (fun _ _ => rfl) (.inl (by decide)) cs
  | character => exact bite_single (fun _ _ => rfl) (.inl (by decide)) cs

theorem bite_textBlock {c : Char} (h1 : c ≠ '"') (h2 : c ≠ '\\')
    (cs : List Char) :
    bite .textBlock c cs = ⟨[.literal c], .textBlock, cs⟩ := by
  refine bite_single (fun cs _ => ?_) (.inl (by decide)) cs
  rw [cut.eq_20 c cs]
  · intro d r hc; exact absurd hc h2
  · intro r hc; exact absurd hc h1

/-- A backslash in a literal takes the next character of the line with it. -/
theorem bite_escape {m : Mode} (hm : m.isLiteral = true) {d : Char}
    (hd : d ≠ '\n') (cs : List Char) :
    bite m '\\' (d :: cs) = ⟨[.literal '\\', .literal d], m, cs⟩ := by
  have hnl : (d :: cs).head? ≠ some '\n' := fun h => hd (Option.some.inj h)
  rw [bite_eq_cut (fun _ _ h _ => absurd h (by decide)) hnl]
  cases m <;> first | rfl | exact nomatch hm

/-- A backslash at the end of a line of a text block. -/
theorem bite_escape_newline (cs : List Char) :
    bite .textBlock '\\' ('\n' :: cs)
      = ⟨[.literal '\\'], .textBlock, '\n' :: cs⟩ := by
  rw [bite_newline]
  rfl

/-! ## The lines of a text -/

/-- A text without a line end is one line. -/
theorem lines_of_not_mem {l : List Char} (h : '\n' ∉ l) : lines l = [l] := by
  induction l with
  | nil => rfl
  | cons c l ih =>
      rw [List.mem_cons, not_or] at h
      rw [lines, if_neg (fun hc => h.1 hc.symm), ih h.2]

/-- The first line ends at the first line end. -/
theorem lines_append_newline {l : List Char} (h : '\n' ∉ l) (r : List Char) :
    lines (l ++ '\n' :: r) = l :: lines r := by
  induction l with
  | nil => rfl
  | cons c l ih =>
      rw [List.mem_cons, not_or] at h
      rw [List.cons_append, lines, if_neg (fun hc => h.1 hc.symm), ih h.2]

/-- Every text is one line, or a line, a line end and a shorter text. -/
theorem exists_first_line (cs : List Char) :
    ∃ l t, cs = l ++ t ∧ '\n' ∉ l ∧ (t = [] ∨ ∃ r, t = '\n' :: r) := by
  induction cs with
  | nil => exact ⟨[], [], rfl, by simp, .inl rfl⟩
  | cons c cs ih =>
      by_cases hc : c = '\n'
      · exact ⟨[], c :: cs, rfl, by simp, .inr ⟨cs, by rw [hc]⟩⟩
      · obtain ⟨l, t, rfl, hl, ht⟩ := ih
        refine ⟨c :: l, t, rfl, ?_, ht⟩
        rw [List.mem_cons, not_or]
        exact ⟨fun h => hc h.symm, hl⟩

end Source

/-! ## The reader -/

namespace Gather

/-- Going through pieces of line `n` without ending the last word. -/
def steps (extra : List String) (n : Nat) (g : Gather) :
    List Piece → Gather × List Token
  | [] => (g, [])
  | p :: ps =>
    let s := steps extra n (g.step extra n p).1 ps
    (s.1, (g.step extra n p).2 ++ s.2)

theorem steps_singleton (extra : List String) (n : Nat) (g : Gather)
    (p : Piece) : g.steps extra n [p] = g.step extra n p := by
  simp only [steps, List.append_nil]

theorem steps_append (extra : List String) (n : Nat) (g : Gather)
    (ps qs : List Piece) :
    g.steps extra n (ps ++ qs)
      = (((g.steps extra n ps).1.steps extra n qs).1,
          (g.steps extra n ps).2 ++ ((g.steps extra n ps).1.steps extra n qs).2) := by
  induction ps generalizing g with
  | nil => rfl
  | cons p ps ih =>
      rw [List.cons_append, steps, ih, steps]
      simp only [List.append_assoc]

/-- The whole line is its steps and the word at its end. -/
theorem run_eq_steps (extra : List String) (n : Nat) (g : Gather)
    (ps : List Piece) :
    g.run extra n ps
      = ((g.steps extra n ps).1.depth,
          (g.steps extra n ps).2
            ++ (g.steps extra n ps).1.wordToken extra n) := by
  induction ps generalizing g with
  | nil => rfl
  | cons p ps ih =>
      rw [show g.run extra n (p :: ps)
        = (((g.step extra n p).1.run extra n ps).1,
            (g.step extra n p).2 ++ ((g.step extra n p).1.run extra n ps).2)
        from rfl, ih, steps]
      simp only [List.append_assoc]

/-! ### Where words count -/

theorem take_capturing {g : Gather} (h : g.capturing = true) (c : Char) :
    g.take c = { g with word := c :: g.word } := by
  rw [take, h]
  rfl

theorem delimiter_capturing {g : Gather} (h : g.capturing = true)
    (extra : List String) (n : Nat) (kind : TokenKind) (text : String) :
    g.delimiter extra n kind text
      = (g.closeAngles.clear, g.wordToken extra n ++ [⟨kind, text, n⟩]) := by
  rw [delimiter, h]
  rfl

/-- The characters of a literal join the word. -/
theorem steps_literal {g : Gather} (h : g.capturing = true)
    (extra : List String) (n : Nat) (cs : List Char) :
    g.steps extra n (cs.map .literal)
      = ({ g with word := cs.reverse ++ g.word }, []) := by
  induction cs generalizing g with
  | nil => rfl
  | cons c cs ih =>
      have hcap : ({ g with word := c :: g.word } : Gather).capturing = true := h
      rw [List.map_cons, steps, step, take_capturing h, ih hcap,
        List.reverse_cons, List.append_assoc]
      rfl

/-! ### Where a step leads -/

theorem delimiter_fst (extra extra' : List String) (n n' : Nat) (g : Gather)
    (kind : TokenKind) (text : String) :
    (g.delimiter extra n kind text).1 = (g.delimiter extra' n' kind text).1 := by
  simp only [delimiter]
  split <;> rfl

/-- Where a step leads does not depend on which words are keywords, nor on
    the number of the line. -/
theorem step_fst (extra extra' : List String) (n n' : Nat) (g : Gather)
    (p : Piece) : (g.step extra n p).1 = (g.step extra' n' p).1 := by
  cases p with
  | opener o => rfl
  | closer => rfl
  | literal c => rfl
  | comment c =>
      simp only [step]
      split <;> rfl
  | code c =>
      simp only [step, code]
      cases CodeRole.of c with
      | openAngle => rfl
      | closeAngle => rfl
      | closeBrace => rfl
      | plain => rfl
      | blank =>
          by_cases h : g.angle = 0
          · simp only [if_pos h]
          · simp only [if_neg h]
      | comma =>
          by_cases h : g.angle = 0
          · simp only [if_pos h]
            exact delimiter_fst extra extra' n n' g .join ","
          · simp only [if_neg h]
      | delimiter kind => exact delimiter_fst extra extra' n n' g kind _
      | openBrace =>
          have h := delimiter_fst extra extra' n n' g .statementEnd
            (String.singleton c)
          simp only [h]

theorem steps_fst (extra extra' : List String) (n n' : Nat) (g : Gather)
    (ps : List Piece) :
    (g.steps extra n ps).1 = (g.steps extra' n' ps).1 := by
  induction ps generalizing g with
  | nil => rfl
  | cons p ps ih =>
      rw [steps, steps]
      show ((g.step extra n p).1.steps extra n ps).1 = _
      rw [step_fst extra extra' n n', ih]

end Gather

/-- Where the reading of a source stands. -/
structure Reader where
  /-- The number of the line. -/
  line : Nat := 1
  /-- The line up to here, its last character first. -/
  text : List Char := []
  mode : Mode := .code
  gather : Gather := { depth := 0 }
  deriving DecidableEq, Repr

/-- What a reading gives when the tokens `ts` come before it. -/
def prepend (ts : List Token) (x : Reader × List Token) :
    Reader × List Token :=
  (x.1, ts ++ x.2)

@[simp] theorem prepend_nil (x : Reader × List Token) : prepend [] x = x := rfl

@[simp] theorem prepend_prepend (ts us : List Token) (x : Reader × List Token) :
    prepend ts (prepend us x) = prepend (ts ++ us) x := by
  simp only [prepend, List.append_assoc]

@[simp] theorem prepend_fst (ts : List Token) (x : Reader × List Token) :
    (prepend ts x).1 = x.1 := rfl

@[simp] theorem prepend_snd (ts : List Token) (x : Reader × List Token) :
    (prepend ts x).2 = ts ++ x.2 := rfl

namespace Reader

/-- The start of line `n`. -/
def atLine (n : Nat) (s : LineStart) : Reader where
  line := n
  mode := s.mode
  gather := { depth := s.depth }

/-- The reader after a step on its line. -/
def take (extra : List String) (r : Reader) (k : Cut) : Reader :=
  { r with
    text := (k.pieces.flatMap Piece.text).reverse ++ r.text
    mode := k.mode
    gather := (r.gather.steps extra r.line k.pieces).1 }

/-- The reader after the end of its line. -/
def nextLine (r : Reader) : Reader :=
  atLine (r.line + 1) ⟨r.mode.nextLine, r.gather.depth⟩

/-- The tokens at the end of the text. -/
def close (extra : List String) (r : Reader) : List Token :=
  r.gather.wordToken extra r.line ++ [Token.sign r.line r.text.reverse]

/-- The tokens at the end of a line. -/
def lineEnd (extra : List String) (r : Reader) : List Token :=
  r.close extra ++ [Token.lineNumber (r.line + 1)]

/-- Read a text: where the reader stands after it, and the tokens on the
    way. -/
def read (extra : List String) (r : Reader) : List Char → Reader × List Token
  | [] => (r, [])
  | c :: cs =>
    if c = '\n' then prepend (r.lineEnd extra) (read extra r.nextLine cs)
    else
      let k := bite r.mode c cs
      prepend (r.gather.steps extra r.line k.pieces).2
        (read extra (r.take extra k) k.rest)
termination_by cs => cs.length
decreasing_by
  · simp
  · have := bite_rest_length r.mode c cs
    simp only [List.length_cons]
    omega

theorem read_nil (extra : List String) (r : Reader) :
    r.read extra [] = (r, []) := by
  rw [read]

theorem read_newline (extra : List String) (r : Reader) (cs : List Char) :
    r.read extra ('\n' :: cs)
      = prepend (r.lineEnd extra) (r.nextLine.read extra cs) := by
  rw [read, if_pos rfl]

theorem read_cons (extra : List String) (r : Reader) {c : Char}
    (hc : c ≠ '\n') (cs : List Char) :
    r.read extra (c :: cs)
      = prepend
          (r.gather.steps extra r.line (bite r.mode c cs).pieces).2
          ((r.take extra (bite r.mode c cs)).read extra
            (bite r.mode c cs).rest) := by
  rw [read, if_neg hc]

/-- Each line end counts. -/
theorem read_line (extra : List String) (r : Reader) (cs : List Char) :
    (r.read extra cs).1.line = r.line + cs.count '\n' := by
  fun_induction read extra r cs with
  | case1 r => rfl
  | case2 r cs ih =>
      rw [prepend_fst, ih, List.count_cons_self]
      show r.line + 1 + _ = _
      omega
  | case3 r c cs hc k ih =>
      have hcount : (c :: cs).count '\n' = k.rest.count '\n' := by
        rw [← bite_text r.mode c cs, List.count_append,
          List.count_eq_zero.mpr (bite_no_newline hc cs), Nat.zero_add]
      rw [prepend_fst, ih, hcount]
      rfl

/-- Where the reader gets to does not depend on which words are keywords. -/
theorem read_fst (extra extra' : List String) (r : Reader) (cs : List Char) :
    (r.read extra cs).1 = (r.read extra' cs).1 := by
  fun_induction read extra r cs with
  | case1 r => rw [read_nil]
  | case2 r cs ih => rw [read_newline, prepend_fst, prepend_fst, ih]
  | case3 r c cs hc k ih =>
      rw [read_cons extra' r hc, prepend_fst, prepend_fst, ih, take, take,
        Gather.steps_fst extra extra' r.line r.line]

/-- Reading two texts one after the other.  The second must not complete a
    mark that the first leaves open, nor be escaped by it. -/
theorem read_append (extra : List String) (r : Reader) (a b : List Char)
    (hb : Inert b)
    (hm : b = [] ∨ b.head? = some '\n' ∨
      (r.read extra a).1.mode.isLiteral = false) :
    r.read extra (a ++ b)
      = prepend (r.read extra a).2 ((r.read extra a).1.read extra b) := by
  fun_induction read extra r a with
  | case1 r => rfl
  | case2 r cs ih =>
      rw [List.cons_append, read_newline, ih hm, prepend_prepend]
      rfl
  | case3 r c cs hc k ih =>
      have hbite : bite r.mode c (cs ++ b)
          = { bite r.mode c cs with rest := (bite r.mode c cs).rest ++ b } := by
        apply bite_append r.mode c cs b hb
        intro hcs hbs hlit
        rcases hm with h | h | h
        · exact .inl h
        · exact .inr h
        · -- a lone backslash would leave the reader inside the literal
          exfalso
          subst hcs hbs
          have hk : k = cut r.mode '\\' [] :=
            bite_eq_cut (fun _ _ _ h => nomatch h) (by simp)
          have hmode : k.mode = r.mode := by
            rw [hk]
            cases r.mode <;> rfl
          have hrest : k.rest = [] := by rw [hk, cut_nil_rest]
          rw [prepend_fst, hrest, read_nil] at h
          have : k.mode.isLiteral = false := h
          rw [hmode, hlit] at this
          exact nomatch this
      have ih' := ih hm
      rw [List.cons_append, read_cons extra r hc, hbite]
      show prepend _ ((r.take extra k).read extra (k.rest ++ b)) = _
      rw [ih', prepend_prepend]
      rfl

/-- Reading up to a line end and on. -/
theorem read_append_newline (extra : List String) (r : Reader)
    (a b : List Char) :
    r.read extra (a ++ '\n' :: b)
      = prepend ((r.read extra a).2 ++ (r.read extra a).1.lineEnd extra)
          ((r.read extra a).1.nextLine.read extra b) := by
  rw [read_append extra r a ('\n' :: b)
    (inert_cons (by decide) (by decide) (by decide)) (.inr (.inl rfl)),
    read_newline, prepend_prepend]

/-- The tokens of a text up to the end of the source. -/
def tokens (extra : List String) (r : Reader) (cs : List Char) : List Token :=
  (r.read extra cs).2 ++ (r.read extra cs).1.close extra

theorem tokens_of_read {extra : List String} {r r' : Reader}
    {cs ds : List Char} {ts : List Token}
    (h : r.read extra cs = prepend ts (r'.read extra ds)) :
    r.tokens extra cs = ts ++ r'.tokens extra ds := by
  rw [tokens, h, prepend_fst, prepend_snd, List.append_assoc, tokens]

/-- Reading a line is going through its pieces. -/
theorem read_of_not_mem (extra : List String) (r : Reader) {l : List Char}
    (hl : '\n' ∉ l) :
    r.read extra l
      = ({ r with
            text := l.reverse ++ r.text
            mode := (pieces r.mode l).2
            gather := (r.gather.steps extra r.line (pieces r.mode l).1).1 },
          (r.gather.steps extra r.line (pieces r.mode l).1).2) := by
  fun_induction read extra r l with
  | case1 r =>
      rw [pieces]
      rfl
  | case2 r cs ih => exact absurd (by simp) hl
  | case3 r c cs hc k ih =>
      have htext : k.pieces.flatMap Piece.text ++ k.rest = c :: cs :=
        bite_text r.mode c cs
      have hcs : '\n' ∉ cs := fun h => hl (List.mem_cons_of_mem c h)
      have hrest : '\n' ∉ k.rest := by
        intro h
        have hmem : '\n' ∈ c :: cs := by
          rw [← htext]
          exact List.mem_append_right _ h
        exact hl hmem
      rw [ih hrest, pieces_bite r.mode c hcs, Gather.steps_append]
      show ((⟨_, _, _, _⟩ : Reader), _) = _
      have hrev : (c :: cs).reverse
          = k.rest.reverse ++ (k.pieces.flatMap Piece.text).reverse := by
        rw [← htext, List.reverse_append]
      rw [hrev, List.append_assoc]
      rfl

/-- The tokens of lines, read in one pass. -/
theorem lineTokens_lines (extra : List String) (cs : List Char) (n : Nat)
    (s : LineStart) :
    lineTokens extra n s (lines cs)
      = Token.lineNumber n :: (atLine n s).tokens extra cs := by
  -- by the length of the text, one line at a time
  induction hk : cs.length using Nat.strongRecOn generalizing cs n s with
  | ind k ih =>
      obtain ⟨l, t, rfl, hl, ht⟩ := exists_first_line cs
      have hread := read_of_not_mem extra (atLine n s) hl
      have hbody : s.lineBody extra n l
          = ((atLine n s).read extra l).2
            ++ ((atLine n s).read extra l).1.gather.wordToken extra n := by
        rw [LineStart.lineBody, Gather.run_eq_steps, hread]
        rfl
      have htext : ((atLine n s).read extra l).1.text.reverse = l := by
        rw [hread]
        show (l.reverse ++ []).reverse = l
        rw [List.append_nil, List.reverse_reverse]
      have hline : ((atLine n s).read extra l).1.line = n := by rw [hread]; rfl
      have hclose : ((atLine n s).read extra l).1.close extra
          = ((atLine n s).read extra l).1.gather.wordToken extra n
            ++ [Token.sign n l] := by
        rw [close, htext, hline]
      rcases ht with rfl | ⟨r, rfl⟩
      · rw [List.append_nil, lines_of_not_mem hl, lineTokens, lineTokens, hbody,
          tokens, hclose]
        simp
      · have hnext : ((atLine n s).read extra l).1.nextLine
            = atLine (n + 1) (s.next l) := by
          rw [hread, nextLine, LineStart.next, Gather.run_eq_steps,
            Gather.steps_fst [] extra 0 n]
          rfl
        have hlt : r.length < k := by
          rw [← hk]
          simp
          omega
        rw [lines_append_newline hl, lineTokens,
          tokens_of_read (read_append_newline extra _ l r),
          ih r.length hlt r (n + 1) (s.next l) rfl, hbody, lineEnd, hclose, hline,
          hnext]
        simp

end Reader

/-- The tokens of a source are what one pass over its characters gives. -/
theorem tokenize_eq_read (source : String) (extra : List String) :
    tokenize source extra
      = Token.lineNumber 1 :: Reader.tokens extra {} source.toList :=
  Reader.lineTokens_lines extra source.toList 1 {}

end JavaOutline
