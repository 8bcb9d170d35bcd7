import JavaOutline.Proofs.Body

/-! # Layouts

    A declaration is written down as a list of lexemes: words, marks and
    blocks.  `Laid` relates such a list to every text that spells it, with any
    blanks and line ends between the lexemes as long as two words do not run
    together, and with any body between the braces of a block.

    `Laid.spells` says that the reader gets the lexemes back: apart from the
    tokens that keep track of lines, the tokens of the text are the lexemes,
    one by one, whatever the layout. -/

namespace JavaOutline

open Source

/-! ## Words -/

/-- A character that may stand anywhere in a word. -/
def isWordChar (c : Char) : Bool :=
  !(['"', '\'', '/', '=', '@', ';', '(', ')', '{', '}', '<', '>', ',', ' ',
    '\t', '\r', '\x0c', '\n'].contains c)

/-- The number of open angle brackets after `c`, which follows `p` where `n`
    of them are open.  Commas and single spaces stand only inside brackets, and
    no space stands next to a bracket or before a comma. -/
def angleStep (n : Nat) (p c : Char) : Option Nat :=
  if c = '<' then some (n + 1)
  else if c = '>' then if 0 < n ∧ p ≠ ' ' then some (n - 1) else none
  else if c = ',' then if 0 < n ∧ p ≠ ' ' then some n else none
  else if c = ' ' then if 0 < n ∧ p ≠ ' ' ∧ p ≠ '<' then some n else none
  else if isWordChar c then some n
  else none

/-- The rest of a word whose angle brackets are balanced. -/
def isWordRest (n : Nat) (p : Char) : List Char → Bool
  | [] => n == 0
  | c :: cs =>
    match angleStep n p c with
    | some n' => isWordRest n' c cs
    | none => false

/-- A word: a name, a number, or a type with its type arguments. -/
def isWord (w : List Char) : Bool := !w.isEmpty && isWordRest 0 ' ' w

/-- What is read as one word: a word, an equals sign, or a string. -/
inductive WordForm : List Char → Prop where
  | word {w : List Char} (hw : isWord w = true) : WordForm w
  | equals : WordForm ['=']
  | string {s : List Char} (hs : LiteralText '"' s) : WordForm ('"' :: (s ++ ['"']))

theorem WordForm.ne_nil {w : List Char} (h : WordForm w) : w ≠ [] := by
  cases h with
  | word hw =>
      rintro rfl
      exact nomatch hw
  | equals => simp
  | string => simp

/-! ## Lexemes and layouts -/

/-- The delimiters of a declaration apart from braces. -/
inductive Mark where
  | comma
  | semicolon
  | openParen
  | closeParen
  deriving DecidableEq, Repr

namespace Mark

def char : Mark → Char
  | .comma => ','
  | .semicolon => ';'
  | .openParen => '('
  | .closeParen => ')'

def kind : Mark → TokenKind
  | .comma => .join
  | .semicolon => .statementEnd
  | .openParen => .paramStart
  | .closeParen => .paramEnd

end Mark

/-- The units of a declaration.  A block is a body with its braces. -/
inductive Lexeme where
  | word (w : String)
  | mark (m : Mark)
  | block
  deriving DecidableEq, Repr

/-- The token of an opening brace, apart from its line. -/
def Token.brace : Token := ⟨.statementEnd, "\x7b", 0⟩

/-- The token of a lexeme, apart from its line. -/
def Lexeme.token (extra : List String) : Lexeme → Token
  | .word w => Token.ofWord extra 0 w
  | .mark m => ⟨m.kind, String.singleton m.char, 0⟩
  | .block => Token.brace

/-- A blank or a line end. -/
def isGap (c : Char) : Bool := isSeparator c || c == '\n'

theorem inert_gap {c : Char} (hc : isGap c = true) (cs : List Char) :
    Inert (c :: cs) := by
  refine inert_cons ?_ ?_ ?_ <;>
  · rintro rfl
    exact nomatch hc

/-- `Laid b ls cs`: the text `cs` spells the lexemes `ls`, and `b` says whether
    a word ends directly before it. -/
inductive Laid : Bool → List Lexeme → List Char → Prop where
  | nil {b : Bool} : Laid b [] []
  | gap {b : Bool} {c : Char} {ls : List Lexeme} {cs : List Char}
      (hc : isGap c = true) : Laid false ls cs → Laid b ls (c :: cs)
  | word {w : List Char} {ls : List Lexeme} {cs : List Char} (hw : WordForm w) :
      Laid true ls cs → Laid false (.word (String.ofList w) :: ls) (w ++ cs)
  | mark {b : Bool} {m : Mark} {ls : List Lexeme} {cs : List Char} :
      Laid false ls cs → Laid b (.mark m :: ls) (m.char :: cs)
  | block {b : Bool} {x : List Char} {ls : List Lexeme} {cs : List Char}
      (hx : Body x) : Laid false ls cs →
      Laid b (.block :: ls) ('{' :: (x ++ '}' :: cs))

/-! ## Reading a character -/

namespace Reader

/-- The reader after a character of ordinary text. -/
def code (extra : List String) (r : Reader) (c : Char) : Reader :=
  { r with text := c :: r.text, gather := (r.gather.code extra r.line c).1 }

/-- A character of ordinary text is read by itself. -/
theorem read_code (extra : List String) {r : Reader} (hm : r.mode = .code)
    {c : Char} (h1 : c ≠ '/') (h2 : c ≠ '"') (h3 : c ≠ '\'') (h4 : c ≠ '\n')
    (cs : List Char) :
    r.read extra (c :: cs)
      = prepend (r.gather.code extra r.line c).2
          ((r.code extra c).read extra cs) := by
  have hbite : bite r.mode c cs = ⟨[.code c], r.mode, cs⟩ := by
    rw [hm]
    exact bite_code h1 h2 h3 cs
  rw [read_cons extra r h4, hbite, take, Gather.steps_singleton]
  rfl

/-- The reader in mode `m` after a text that goes on the word. -/
def spell (r : Reader) (m : Mode) (w : List Char) : Reader :=
  { r with
    text := w.reverse ++ r.text
    mode := m
    gather := { r.gather with word := w.reverse ++ r.gather.word } }

theorem spell_spell (r : Reader) (m m' : Mode) (v w : List Char) :
    (r.spell m v).spell m' w = r.spell m' (v ++ w) := by
  simp [spell]

end Reader

theorem isWordChar_iff {c : Char} :
    isWordChar c = true ↔
      (c ≠ '"' ∧ c ≠ '\'' ∧ c ≠ '/' ∧ c ≠ '=' ∧ c ≠ '@' ∧ c ≠ ';' ∧ c ≠ '('
        ∧ c ≠ ')' ∧ c ≠ '{' ∧ c ≠ '}' ∧ c ≠ '<' ∧ c ≠ '>' ∧ c ≠ ',' ∧ c ≠ ' '
        ∧ c ≠ '\t' ∧ c ≠ '\r' ∧ c ≠ '\x0c' ∧ c ≠ '\n') := by
  simp [isWordChar]

theorem CodeRole.of_isWordChar {c : Char} (h : isWordChar c = true) :
    CodeRole.of c = .plain := by
  have h' := isWordChar_iff.mp h
  simp [CodeRole.of, isSeparator, h']

/-- A character of a word is no quote, slash or line end, starts no annotation
    and is no equals sign. -/
theorem angleStep_char {n n' : Nat} {p c : Char}
    (h : angleStep n p c = some n') :
    c ≠ '/' ∧ c ≠ '"' ∧ c ≠ '\'' ∧ c ≠ '\n' ∧ c ≠ '@' ∧ c ≠ '=' := by
  by_cases hc : c = '<' ∨ c = '>' ∨ c = ',' ∨ c = ' '
  · rcases hc with rfl | rfl | rfl | rfl <;> decide
  · simp only [not_or] at hc
    obtain ⟨h1, h2, h3, h4⟩ := hc
    rw [angleStep, if_neg h1, if_neg h2, if_neg h3, if_neg h4] at h
    split at h
    · next hw =>
        have hne := isWordChar_iff.mp hw
        exact ⟨hne.2.2.1, hne.1, hne.2.1, by simp [hne], hne.2.2.2.2.1,
          hne.2.2.2.1⟩
    · exact nomatch h

namespace Gather

variable {g : Gather} {p : Char}

theorem dropSpace_of_head (hp : g.word.head? = some p) (hne : p ≠ ' ') :
    g.dropSpace = g := by
  rw [dropSpace]
  split
  · next w hw =>
      rw [hw] at hp
      exact absurd (Option.some.inj hp).symm hne
  · rfl

/-- A closing bracket with no space before it. -/
theorem code_closeAngle (extra : List String) (n : Nat) (hg : g.capturing = true)
    (ha : 0 < g.angle) (hp : g.word.head? = some p) (hne : p ≠ ' ') :
    g.code extra n '>'
      = ({ g with angle := g.angle - 1, word := '>' :: g.word }, []) := by
  have hclose : g.closeAngle = { g with angle := g.angle - 1 } := by
    rw [closeAngle, if_neg (by omega)]
    exact dropSpace_of_head (g := { g with angle := g.angle - 1 }) hp hne
  show (g.closeAngle.take '>', _) = _
  rw [hclose, take_capturing (g := { g with angle := g.angle - 1 }) hg]

/-- A comma inside brackets with no space before it. -/
theorem code_argumentComma (extra : List String) (n : Nat)
    (hg : g.capturing = true) (ha : 0 < g.angle) (hp : g.word.head? = some p)
    (hne : p ≠ ' ') :
    g.code extra n ',' = ({ g with word := ',' :: g.word }, []) := by
  show (if g.angle = 0 then _ else (g.argumentComma, _)) = _
  rw [if_neg (by omega), argumentComma, if_pos hg, dropSpace_of_head hp hne,
    take_capturing hg]

theorem argumentBlank_of_head (hp : g.word.head? = some p) (hs : p ≠ ' ')
    (hb : p ≠ '<') : g.argumentBlank = g.take ' ' := by
  rw [argumentBlank]
  split
  · next hw =>
      rw [hw] at hp
      cases hp
  · next hw =>
      rw [hw] at hp
      exact absurd (Option.some.inj hp).symm hb
  · next hw =>
      rw [hw] at hp
      exact absurd (Option.some.inj hp).symm hs
  · rfl

/-- A space inside brackets that follows neither a bracket nor a space. -/
theorem code_argumentBlank (extra : List String) (n : Nat)
    (hg : g.capturing = true) (ha : 0 < g.angle) (hp : g.word.head? = some p)
    (hs : p ≠ ' ') (hb : p ≠ '<') :
    g.code extra n ' ' = ({ g with word := ' ' :: g.word }, []) := by
  show (if g.angle = 0 then _ else (g.argumentBlank, _)) = _
  rw [if_neg (by omega), argumentBlank_of_head hp hs hb, take_capturing hg]

/-- A character that may follow in a word goes on it. -/
theorem code_of_angleStep (extra : List String) (n : Nat)
    (hg : g.capturing = true) {c : Char} {a : Nat}
    (hp : 0 < g.angle → g.word.head? = some p)
    (h : angleStep g.angle p c = some a) :
    g.code extra n c = ({ g with angle := a, word := c :: g.word }, []) := by
  revert h
  fun_cases angleStep g.angle p c with
  | case1 hc =>
      rintro ⟨⟩
      subst hc
      show (take { g with angle := g.angle + 1 } '<', _) = _
      rw [take_capturing (g := { g with angle := g.angle + 1 }) hg]
  | case2 _ hc ha =>
      rintro ⟨⟩
      subst hc
      exact code_closeAngle extra n hg ha.1 (hp ha.1) ha.2
  | case4 _ _ hc ha =>
      rintro ⟨⟩
      subst hc
      exact code_argumentComma extra n hg ha.1 (hp ha.1) ha.2
  | case6 _ _ _ hc ha =>
      rintro ⟨⟩
      subst hc
      exact code_argumentBlank extra n hg ha.1 (hp ha.1) ha.2.1 ha.2.2
  | case8 _ _ _ _ hc =>
      rintro ⟨⟩
      rw [code, CodeRole.of_isWordChar hc]
      show (g.take c, _) = _
      rw [take_capturing hg]
  | _ => intro h; cases h

end Gather

/-! ## Reading a word -/

namespace Reader

section

variable {extra : List String}

/-- The rest of a word goes on the word, and leaves no angle bracket open. -/
theorem read_isWordRest {w : List Char} :
    ∀ {r : Reader} {p : Char}, r.mode = .code → r.gather.capturing = true →
      (0 < r.gather.angle → r.gather.word.head? = some p) →
      isWordRest r.gather.angle p w = true → ∀ cs,
        r.read extra (w ++ cs)
          = (spell { r with gather := r.gather.closeAngles } .code w).read extra cs := by
  induction w with
  | nil =>
      intro r p hm _ _ hw cs
      have ha : r.gather.angle = 0 := by simpa [isWordRest] using hw
      show r.read extra cs
        = Reader.read extra ⟨r.line, r.text, .code, r.gather.closeAngles⟩ cs
      rw [← hm, Gather.closeAngles, ← ha]
  | cons c w ih =>
      intro r p hm hg hp hw cs
      rw [isWordRest] at hw
      split at hw
      · next a ha =>
          obtain ⟨h1, h2, h3, h4, -⟩ := angleStep_char ha
          have hcode := Gather.code_of_angleStep extra r.line hg hp ha
          have hr : r.code extra c
              = { r with
                  text := c :: r.text
                  gather := { r.gather with
                    angle := a, word := c :: r.gather.word } } := by
            rw [Reader.code, hcode]
          have hrest := ih (r := r.code extra c) (p := c) (by rw [hr]; exact hm)
            (by rw [hr]; exact hg) (by rw [hr]; exact fun _ => rfl)
            (by rw [hr]; exact hw) cs
          rw [List.cons_append, Reader.read_code extra hm h1 h2 h3 h4, hcode,
            prepend_nil, hrest, hr]
          simp [spell, Gather.closeAngles]
      · cases hw

/-- A step inside a literal. -/
theorem read_literal (extra : List String) (x cs : List Char) {r : Reader}
    (hg : r.gather.capturing = true) {c : Char} (hc : c ≠ '\n') {m : Mode}
    (hb : bite r.mode c (x ++ cs) = ⟨(c :: x).map .literal, m, cs⟩) :
    r.read extra (c :: (x ++ cs)) = (r.spell m (c :: x)).read extra cs := by
  have htext : ((c :: x).map Piece.literal).flatMap Piece.text = c :: x := by
    rw [List.flatMap_map]
    exact List.flatMap_singleton' (c :: x)
  rw [Reader.read_cons extra r hc, hb, Reader.take,
    Gather.steps_literal hg, prepend_nil, htext]
  rfl

/-- The rest of a literal on one line. -/
theorem read_literalText {m : Mode} {q : Char} (hq : Quotes m q)
    {s : List Char} (hs : LiteralText q s) :
    ∀ {r : Reader}, r.mode = m → r.gather.capturing = true → ∀ cs,
      r.read extra (s ++ q :: cs)
        = (r.spell .code (s ++ [q])).read extra cs := by
  induction hs with
  | nil =>
      intro r hm hg cs
      exact read_literal extra [] cs hg (by cases hq <;> decide)
        (by rw [hm]; exact hq.bite_quote cs)
  | @char c s hc hb hn hs ih =>
      intro r hm hg cs
      have hchar : r.read extra (c :: (s ++ q :: cs))
          = (r.spell m [c]).read extra (s ++ q :: cs) :=
        read_literal extra [] _ hg hn (by rw [hm]; exact hq.bite_char hc hb _)
      rw [List.cons_append, hchar, ih (r := r.spell m [c]) rfl hg, spell_spell]
      rfl
  | @escape c s hn hs ih =>
      intro r hm hg cs
      have hchar : r.read extra ('\\' :: c :: (s ++ q :: cs))
          = (r.spell m ['\\', c]).read extra (s ++ q :: cs) :=
        read_literal extra [c] _ hg (by decide)
          (by rw [hm]; exact bite_escape hq.isLiteral hn _)
      rw [List.cons_append, List.cons_append, hchar,
        ih (r := r.spell m ['\\', c]) rfl hg, spell_spell]
      rfl

/-- A word is taken up whole, unless what follows goes on with it. -/
theorem read_wordForm {w : List Char} (hw : WordForm w) {r : Reader}
    (hm : r.mode = .code) (hg : r.gather.capturing = true)
    (ha : r.gather.angle = 0) {cs : List Char} (hcs : cs.head? ≠ some '"') :
    r.read extra (w ++ cs) = (r.spell .code w).read extra cs := by
  cases hw with
  | word hw =>
      have hrest : isWordRest 0 ' ' w = true := (Bool.and_eq_true _ _ ▸ hw).2
      have hangle : r.gather.closeAngles = r.gather := by
        rw [Gather.closeAngles, ← ha]
      rw [read_isWordRest hm hg (by omega) (by rw [ha]; exact hrest), hangle]
  | equals =>
      have hcode : r.gather.code extra r.line '='
          = ({ r.gather with word := '=' :: r.gather.word }, []) :=
        congrArg (·, []) (Gather.take_capturing hg '=')
      show r.read extra ('=' :: cs) = _
      rw [Reader.read_code extra hm (by decide) (by decide) (by decide)
        (by decide), Reader.code, hcode, spell, ← hm]
      rfl
  | @string s hs =>
      have hopen : r.read extra ('"' :: (s ++ '"' :: cs))
          = (r.spell .string ['"']).read extra (s ++ '"' :: cs) :=
        read_literal extra [] _ hg (by decide)
          (by rw [hm]; exact bite_quote (hs.not_quotes fun _ => hcs))
      rw [List.cons_append, List.append_assoc]
      show r.read extra ('"' :: (s ++ '"' :: cs)) = _
      rw [hopen, read_literalText .string hs (r := r.spell .string ['"']) rfl hg,
        spell_spell]
      rfl

end

end Reader

/-! ## Bare tokens -/

/-- A token without the number of its line. -/
def Token.bare (t : Token) : Token := { t with line := 0 }

/-- The words and delimiters of a token list, without the numbers of their
    lines. -/
def bareTokens (ts : List Token) : List Token :=
  (ts.filter fun t => !t.kind.isLine).map Token.bare

@[simp] theorem bareTokens_nil : bareTokens [] = [] := rfl

@[simp] theorem bareTokens_append (ts us : List Token) :
    bareTokens (ts ++ us) = bareTokens ts ++ bareTokens us := by
  simp [bareTokens]

/-- The tokens that keep track of lines leave no trace. -/
theorem bareTokens_cons_line {t : Token} (h : t.kind.isLine = true)
    (ts : List Token) : bareTokens (t :: ts) = bareTokens ts := by
  simp [bareTokens, h]

theorem bareTokens_cons {t : Token} (h : t.kind.isLine = false)
    (ts : List Token) : bareTokens (t :: ts) = t.bare :: bareTokens ts := by
  simp [bareTokens, h]

theorem bareTokens_lineEnds (n : Nat) (ls : List (List Char)) :
    bareTokens (lineEnds n ls) = [] := by
  induction ls generalizing n with
  | nil => rfl
  | cons l ls ih =>
      rw [lineEnds, bareTokens_cons_line rfl, bareTokens_cons_line rfl, ih]

namespace Reader

/-- The word under construction as a bare token. -/
def pending (extra : List String) (r : Reader) : List Token :=
  bareTokens (r.gather.wordToken extra r.line)

theorem pending_of_nil {extra : List String} {r : Reader}
    (h : r.gather.word = []) : r.pending extra = [] := by
  rw [pending, Gather.wordToken, h]
  rfl

theorem pending_spell {extra : List String} {r : Reader} {m : Mode}
    {w : List Char} (hr : r.gather.word = []) (hw : w ≠ []) :
    (r.spell m w).pending extra = [Token.ofWord extra 0 (String.ofList w)] := by
  have hword : (r.spell m w).gather.word = w.reverse := by
    show w.reverse ++ r.gather.word = _
    rw [hr, List.append_nil]
  have hne : w.reverse.isEmpty = false := by simpa using hw
  rw [pending, Gather.wordToken, hword, hne, List.reverse_reverse]
  exact bareTokens_cons (Token.inLine_ofWord extra _ _).not_line []

theorem bareTokens_lineEnd (extra : List String) (r : Reader) :
    bareTokens (r.lineEnd extra) = r.pending extra := by
  rw [lineEnd, close, bareTokens_append, bareTokens_append,
    bareTokens_cons_line rfl, bareTokens_cons_line rfl]
  simp [pending]

/-- Ordinary text at depth `d`, with no angle bracket open. -/
structure Level (d : Nat) (r : Reader) : Prop where
  mode : r.mode = .code
  depth : r.gather.depth = d
  angle : r.gather.angle = 0

/-- A blank or a line end ends the word, whatever comes after it. -/
theorem Level.read_gap {d : Nat} {r : Reader} (h : r.Level d)
    (extra : List String) {c : Char} (hc : isGap c = true) :
    ∃ (r' : Reader) (ts : List Token), r'.Level d ∧ r'.gather.word = []
      ∧ bareTokens ts = r.pending extra
      ∧ ∀ cs, r.read extra (c :: cs) = prepend ts (r'.read extra cs) := by
  by_cases hn : c = '\n'
  · subst hn
    have hmode : r.nextLine.mode = .code := by
      rw [Reader.nextLine, h.mode]
      rfl
    exact ⟨r.nextLine, r.lineEnd extra, ⟨hmode, h.depth, rfl⟩, rfl,
      bareTokens_lineEnd extra r, read_newline extra r⟩
  · have hsep : isSeparator c = true := by simpa [isGap, hn] using hc
    have hne : c ≠ '/' ∧ c ≠ '"' ∧ c ≠ '\'' ∧ c ≠ '<' ∧ c ≠ '>' := by
      refine ⟨?_, ?_, ?_, ?_, ?_⟩ <;>
      · rintro rfl
        cases hc
    have hrole : CodeRole.of c = .blank := by simp [CodeRole.of, hne, hsep]
    have hcode : r.gather.code extra r.line c
        = ({ depth := d }, r.gather.wordToken extra r.line) := by
      simp only [Gather.code, hrole, h.angle, if_true, Gather.clear, h.depth]
    have hgather : (r.code extra c).gather = { depth := d } := by
      rw [Reader.code, hcode]
    refine ⟨r.code extra c, _, ⟨h.mode, ?_, ?_⟩, ?_, rfl, fun cs => ?_⟩
    · rw [hgather]
    · rw [hgather]
    · rw [hgather]
    · rw [read_code extra h.mode hne.1 hne.2.1 hne.2.2.1 hn, hcode]

theorem Level.capturing {d : Nat} {r : Reader} (h : r.Level d)
    (hd : d < bodyDepth) : r.gather.capturing = true :=
  decide_eq_true (h.depth ▸ hd)

end Reader

/-- Reading `x` before `cs` leads from `r` to `r'` at depth `d`, and apart from
    the tokens of lines it gives the bare tokens `us`, the word under
    construction counted in on both sides. -/
structure Spells (extra : List String) (d : Nat) (r : Reader)
    (x cs : List Char) (us : List Token) (r' : Reader) : Prop where
  level : r'.Level d
  tokens : ∃ ts, r.read extra (x ++ cs) = prepend ts (r'.read extra cs)
    ∧ bareTokens ts ++ r'.pending extra = r.pending extra ++ us

namespace Spells

variable {extra : List String} {d : Nat} {r r' r'' : Reader}
  {x y cs : List Char} {us vs : List Token}

theorem refl (h : r.Level d) : Spells extra d r [] cs [] r :=
  ⟨h, [], rfl, by simp⟩

theorem trans (h1 : Spells extra d r x (y ++ cs) us r')
    (h2 : Spells extra d r' y cs vs r'') :
    Spells extra d r (x ++ y) cs (us ++ vs) r'' := by
  obtain ⟨ts1, hread1, hbare1⟩ := h1.tokens
  obtain ⟨ts2, hread2, hbare2⟩ := h2.tokens
  refine ⟨h2.level, ts1 ++ ts2, ?_, ?_⟩
  · rw [List.append_assoc, hread1, hread2, prepend_prepend]
  · rw [bareTokens_append, List.append_assoc, hbare2, ← List.append_assoc,
      hbare1, List.append_assoc]

/-- A character that ends the word, and is a token of its own if it gives
    one. -/
theorem ending {c : Char} (h : r.Level d)
    (hc : c ≠ '/' ∧ c ≠ '"' ∧ c ≠ '\'' ∧ c ≠ '\n') (ts : List Token)
    (hcode : r.gather.code extra r.line c
      = ({ depth := d }, r.gather.wordToken extra r.line ++ ts))
    (cs : List Char) :
    ∃ r' : Reader, r'.gather.word = []
      ∧ Spells extra d r [c] cs (bareTokens ts) r' := by
  have hread : r.read extra (c :: cs)
      = prepend (r.gather.wordToken extra r.line ++ ts)
          ((r.code extra c).read extra cs) := by
    rw [Reader.read_code extra h.mode hc.1 hc.2.1 hc.2.2.1 hc.2.2.2, hcode]
  have hgather : (r.code extra c).gather = { depth := d } := by
    rw [Reader.code, hcode]
  have hword : (r.code extra c).gather.word = [] := by rw [hgather]
  refine ⟨r.code extra c, hword, ⟨h.mode, ?_, ?_⟩, _, hread, ?_⟩
  · rw [hgather]
  · rw [hgather]
  · rw [bareTokens_append, Reader.pending_of_nil hword, List.append_nil]
    rfl

/-- A blank or a line end ends the word. -/
theorem gap {c : Char} (hc : isGap c = true) (h : r.Level d) (cs : List Char) :
    ∃ r' : Reader, r'.gather.word = [] ∧ Spells extra d r [c] cs [] r' := by
  obtain ⟨r', ts, hlevel, hword, hbare, hread⟩ := h.read_gap extra hc
  refine ⟨r', hword, hlevel, ts, hread cs, ?_⟩
  rw [Reader.pending_of_nil hword, hbare]

/-- A mark ends the word and is a token. -/
theorem mark (m : Mark) (hd : d < bodyDepth) (h : r.Level d) (cs : List Char) :
    ∃ r' : Reader, r'.gather.word = []
      ∧ Spells extra d r [m.char] cs [(Lexeme.mark m).token extra] r' := by
  have hcode : r.gather.code extra r.line m.char
      = r.gather.delimiter extra r.line m.kind (String.singleton m.char) := by
    cases m with
    | comma =>
        show (if r.gather.angle = 0 then _ else _) = _
        rw [if_pos h.angle]
        rfl
    | _ => rfl
  have hts : bareTokens [⟨m.kind, String.singleton m.char, r.line⟩]
      = [(Lexeme.mark m).token extra] :=
    bareTokens_cons (by cases m <;> rfl) []
  rw [← hts]
  refine ending h (by cases m <;> decide) _ ?_ cs
  rw [hcode, Gather.delimiter_capturing (h.capturing hd), Gather.closeAngles,
    Gather.clear, h.depth]

/-- A word that nothing goes on with. -/
theorem word {w : List Char} (hw : WordForm w) (hd : d < bodyDepth)
    (h : r.Level d) (hr : r.gather.word = []) {cs : List Char}
    (hcs : cs.head? ≠ some '"') :
    Spells extra d r w cs [(Lexeme.word (String.ofList w)).token extra]
      (r.spell .code w) := by
  refine ⟨⟨rfl, h.depth, h.angle⟩, [], ?_, ?_⟩
  · exact Reader.read_wordForm hw h.mode (h.capturing hd) h.angle hcs
  · rw [Reader.pending_spell hr hw.ne_nil, Reader.pending_of_nil hr]
    rfl

/-- An opening brace ends the word and is a token. -/
theorem read_opened (hm : r.mode = .code) (hd : r.gather.depth < bodyDepth)
    (cs : List Char) :
    r.read extra ('{' :: cs)
      = prepend
          (r.gather.wordToken extra r.line ++ [⟨.statementEnd, "\x7b", r.line⟩])
          (r.opened.read extra cs) := by
  have hsettled : r.gather.Settled := fun hb => absurd hd (by omega)
  rw [read_openBrace extra hm hsettled,
    Gather.delimiter_capturing (decide_eq_true hd)]

/-- A body between braces is one token. -/
theorem block (hx : Body x) (hd : d + 1 = bodyDepth) (h : r.Level d)
    (cs : List Char) :
    ∃ r' : Reader, r'.gather.word = []
      ∧ Spells extra d r ('{' :: (x ++ ['}'])) cs
          [Lexeme.block.token extra] r' := by
  have hdeep : r.opened.gather.Deep := by
    refine ⟨?_, rfl⟩
    have hdepth : r.gather.depth + 1 = bodyDepth := by rw [h.depth, hd]
    exact Nat.le_of_eq hdepth.symm
  -- between the braces nothing counts
  have hskim : ∃ r' : Reader, r'.mode = .code
      ∧ Skim extra r.opened x ('}' :: cs) r' :=
    hx.skim ('}' :: cs) (by simp) r.opened h.mode hdeep
  obtain ⟨r1, hm1, hskim⟩ := hskim
  obtain ⟨texts, -, hbody⟩ := hskim.tokens
  refine ⟨r1.closed, rfl, ⟨hm1, ?_, rfl⟩, r.gather.wordToken extra r.line
    ++ [⟨.statementEnd, "\x7b", r.line⟩] ++ lineEnds r.line texts, ?_, ?_⟩
  · show r1.gather.depth - 1 = d
    rw [hskim.depth]
    exact h.depth
  · rw [show '{' :: (x ++ ['}']) ++ cs = '{' :: (x ++ '}' :: cs) by simp,
      read_opened h.mode (by rw [h.depth]; omega), hbody, read_closeBrace extra hm1,
      (hskim.deep hdeep).wordToken, prepend_nil, prepend_prepend]
    rfl
  · rw [bareTokens_append, bareTokens_lineEnds, bareTokens_append,
      Reader.pending_of_nil (r := r1.closed) rfl, List.append_nil,
      List.append_nil, bareTokens_cons rfl]
    rfl

end Spells

/-! ## Layouts are read back -/

/-- What is laid out directly after a word does not go on with it. -/
theorem Laid.not_quote {ls : List Lexeme} {cs : List Char} (h : Laid true ls cs)
    {t : List Char} (ht : t.head? ≠ some '"') : (cs ++ t).head? ≠ some '"' := by
  cases h with
  | nil => exact ht
  | gap hc =>
      rintro ⟨⟩
      exact nomatch hc
  | @mark _ m => cases m <;> exact nofun
  | block => exact nofun

/-- **The reader gets the lexemes back**, one by one, from every layout. -/
theorem Laid.spells (extra : List String) {d : Nat} (hd : d < bodyDepth)
    {b : Bool} {ls : List Lexeme} {cs : List Char} (h : Laid b ls cs) :
    (.block ∈ ls → d + 1 = bodyDepth) → ∀ {t : List Char}, t.head? ≠ some '"' →
      ∀ {r : Reader}, r.Level d → (b = false → r.gather.word = []) →
        ∃ r', Spells extra d r cs t (ls.map (Lexeme.token extra)) r' := by
  induction h with
  | nil =>
      intro _ t _ r hr _
      exact ⟨r, .refl hr⟩
  | gap hc _ ih =>
      intro hb t ht r hr _
      obtain ⟨r1, hword, h1⟩ := Spells.gap hc hr _
      obtain ⟨r', h2⟩ := ih hb ht h1.level fun _ => hword
      exact ⟨r', h1.trans h2⟩
  | @word w _ cs hw h ih =>
      intro hb t ht r hr hword
      have h1 : Spells extra d r w (cs ++ t) _ _ :=
        .word hw hd hr (hword rfl) (h.not_quote ht)
      obtain ⟨r', h2⟩ := ih (fun hm => hb (by simp [hm])) ht h1.level (by simp)
      exact ⟨r', h1.trans h2⟩
  | @mark b m _ _ _ ih =>
      intro hb t ht r hr _
      obtain ⟨r1, hword, h1⟩ := Spells.mark m hd hr _
      obtain ⟨r', h2⟩ := ih (fun hm => hb (by simp [hm])) ht h1.level
        fun _ => hword
      exact ⟨r', h1.trans h2⟩
  | block hx _ ih =>
      intro hb t ht r hr _
      obtain ⟨r1, hword, h1⟩ := Spells.block hx (hb (by simp)) hr _
      obtain ⟨r', h2⟩ := ih (fun hm => hb (by simp [hm])) ht h1.level
        fun _ => hword
      refine ⟨r', ?_⟩
      simpa using h1.trans h2

/-! ## The text of a type -/

/-- A text that between the braces of a type gives the bare tokens `us`. -/
def SpellsBody (extra : List String) (x : List Char) (us : List Token) : Prop :=
  ∀ (t : List Char) {r : Reader}, r.Level 1 → r.gather.word = [] →
    ∃ r', Spells extra 1 r x ('}' :: t) us r'

theorem Laid.spellsBody {ls : List Lexeme} {x : List Char} (h : Laid false ls x)
    (extra : List String) : SpellsBody extra x (ls.map (Lexeme.token extra)) := by
  intro t r hr hword
  exact h.spells extra (by decide) (fun _ => rfl) (by simp) hr fun _ => hword

/-- A body between braces. -/
theorem Reader.read_braces (extra : List String) {r : Reader}
    (hm : r.mode = .code) (hd : r.gather.depth = 0) {us : List Token}
    {x : List Char} (hx : SpellsBody extra x us) (t : List Char) :
    ∃ (r' : Reader) (ts : List Token), r'.Level 0 ∧ r'.gather.word = []
      ∧ r.read extra ('{' :: (x ++ '}' :: t))
        = prepend (r.gather.wordToken extra r.line ++ ts) (r'.read extra t)
      ∧ bareTokens ts = Token.brace :: us := by
  -- inside the braces, one level deeper
  have hlevel1 : r.opened.Level 1 := by
    refine ⟨hm, ?_, rfl⟩
    show r.gather.depth + 1 = 1
    rw [hd]
  obtain ⟨r1, hbody⟩ := hx t hlevel1 rfl
  obtain ⟨ts1, hread1, hbare1⟩ := hbody.tokens
  rw [pending_of_nil (r := r.opened) rfl, List.nil_append] at hbare1
  -- after them
  have hlevel0 : r1.closed.Level 0 := by
    refine ⟨hbody.level.mode, ?_, rfl⟩
    show r1.gather.depth - 1 = 0
    rw [hbody.level.depth]
  refine ⟨r1.closed, ⟨.statementEnd, "\x7b", r.line⟩ :: (ts1
    ++ r1.gather.wordToken extra r1.line), hlevel0, rfl, ?_, ?_⟩
  · rw [Spells.read_opened hm (by rw [hd]; decide), hread1, prepend_prepend,
      read_closeBrace extra hbody.level.mode, prepend_prepend]
    simp
  · rw [bareTokens_cons rfl, bareTokens_append]
    show Token.brace :: (bareTokens ts1 ++ r1.pending extra) = _
    rw [hbare1]

/-- The tokens of blanks at the end of a source. -/
theorem Reader.bareTokens_blanks {extra : List String} {r : Reader}
    (h : r.Level 0) (hr : r.gather.word = []) {t : List Char}
    (ht : Laid false [] t) : bareTokens (r.tokens extra t) = [] := by
  obtain ⟨r', hblank⟩ := ht.spells extra (by decide) (fun h => nomatch h)
    (t := []) (by simp) h fun _ => hr
  obtain ⟨ts, hread, hbare⟩ := hblank.tokens
  rw [List.append_nil] at hread
  rw [pending_of_nil hr] at hbare
  have hclose : bareTokens (r'.close extra) = r'.pending extra := by
    rw [close, bareTokens_append, bareTokens_cons_line rfl, bareTokens_nil,
      List.append_nil]
    rfl
  rw [tokens_of_read hread, bareTokens_append, tokens, read_nil,
    List.nil_append, hclose]
  exact hbare

/-- A body between braces, and blanks after it. -/
theorem Reader.tokens_type {extra : List String} {r : Reader}
    (hm : r.mode = .code) (hd : r.gather.depth = 0) {us : List Token}
    {x t : List Char} (hx : SpellsBody extra x us) (ht : Laid false [] t) :
    ∃ ts, r.tokens extra ('{' :: (x ++ '}' :: t))
        = r.gather.wordToken extra r.line ++ ts
      ∧ bareTokens ts = Token.brace :: us := by
  obtain ⟨r', ts, hlevel, hword, hread, hbare⟩ :=
    read_braces extra hm hd hx t
  refine ⟨ts ++ r'.tokens extra t, ?_, ?_⟩
  · rw [tokens_of_read hread, List.append_assoc]
  · rw [bareTokens_append, hbare, bareTokens_blanks hlevel hword ht,
      List.append_nil]

/-- The tokens of a text up to an opening brace after it. -/
def headTokens (extra : List String) (p : List Char) : List Token :=
  let x := Reader.read extra {} p
  Token.lineNumber 1 :: (x.2 ++ x.1.gather.wordToken extra x.1.line)

/-- A text after which the reader is in ordinary text outside all braces. -/
structure IsHead (extra : List String) (p : List Char) : Prop where
  mode : (Reader.read extra {} p).1.mode = .code
  depth : (Reader.read extra {} p).1.gather.depth = 0

/-- Lexemes outside all braces are a head, and its tokens. -/
theorem Laid.isHead (extra : List String) {p : List Char} {ls : List Lexeme}
    (h : Laid false ls p) (hb : .block ∉ ls) :
    IsHead extra p
      ∧ bareTokens (headTokens extra p) = ls.map (Lexeme.token extra) := by
  obtain ⟨r, hr⟩ := h.spells extra (d := 0) (by decide)
    (fun hm => absurd hm hb) (t := []) (by simp) (r := {}) ⟨rfl, rfl, rfl⟩
    fun _ => rfl
  obtain ⟨ts, hread, hbare⟩ := hr.tokens
  have hend : Reader.read extra {} p = (r, ts) := by
    rw [List.append_nil, Reader.read_nil] at hread
    rw [hread, prepend, List.append_nil]
  refine ⟨⟨?_, ?_⟩, ?_⟩
  · rw [hend]
    exact hr.level.mode
  · rw [hend]
    exact hr.level.depth
  · rw [headTokens, hend, bareTokens_cons_line rfl, bareTokens_append]
    exact hbare

/-- The tokens of a source that is a head, a body between braces and blanks:
    those of the head, the brace, and those of the body. -/
theorem tokenize_type {extra : List String} {p x t : List Char}
    {us : List Token} (hp : IsHead extra p) (hx : SpellsBody extra x us)
    (ht : Laid false [] t) :
    ∃ ts, tokenize (String.ofList (p ++ '{' :: (x ++ '}' :: t))) extra
        = headTokens extra p ++ ts
      ∧ bareTokens ts = Token.brace :: us := by
  obtain ⟨ts, htokens, hbare⟩ := Reader.tokens_type hp.mode hp.depth hx ht
  refine ⟨ts, ?_, hbare⟩
  have hread := Reader.read_append extra {} p ('{' :: (x ++ '}' :: t))
    (inert_cons (by decide) (by decide) (by decide))
    (.inr (.inr (by rw [hp.mode]; rfl)))
  rw [tokenize_eq_read, String.toList_ofList, Reader.tokens_of_read hread,
    htokens, headTokens, List.cons_append, List.append_assoc]

end JavaOutline
