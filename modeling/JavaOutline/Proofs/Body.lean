import JavaOutline.Proofs.Reader

/-! # Bodies

    What stands between the braces of a method or of a constant: ordinary
    text, literals, comments and bodies inside the body.  `Body` is the
    grammar of such texts, stated without the reader.

    A body that starts deep enough is passed over: `Body.skim` says that the
    reader comes out of it where it went in, that braces, quotes and comments
    inside it shift nothing, and that the only tokens are those of the lines
    that end in it. -/

namespace JavaOutline

open Source

/-! ## The grammar -/

/-- A character that opens and closes nothing: no quote, brace, slash or line
    end. -/
def isPlainChar (c : Char) : Bool :=
  !(c == '"' || c == '\'' || c == '{' || c == '}' || c == '/' || c == '\n')

/-- The inside of a literal on one line: a backslash escapes the character
    after it, and the quote stands only escaped. -/
inductive LiteralText (quote : Char) : List Char → Prop where
  | nil : LiteralText quote []
  | char {c : Char} {s : List Char} (hq : c ≠ quote) (hb : c ≠ '\\')
      (hn : c ≠ '\n') : LiteralText quote s → LiteralText quote (c :: s)
  | escape {c : Char} {s : List Char} (hn : c ≠ '\n') :
      LiteralText quote s → LiteralText quote ('\\' :: c :: s)

/-- The inside of a text block, where double quotes stand only escaped. -/
inductive BlockText : List Char → Prop where
  | nil : BlockText []
  | char {c : Char} {s : List Char} (hq : c ≠ '"') (hb : c ≠ '\\') :
      BlockText s → BlockText (c :: s)
  | escape {c : Char} {s : List Char} : BlockText s → BlockText ('\\' :: c :: s)

/-- The inside of a block comment: the closer does not stand in it. -/
def CommentText (s : List Char) : Prop := ¬ ['*', '/'] <:+: s

/-- The text between two braces. -/
inductive Body : List Char → Prop where
  | nil : Body []
  | plain {c : Char} {b : List Char} (hc : isPlainChar c = true) :
      Body b → Body (c :: b)
  | slash {c : Char} {b : List Char} (hc : isPlainChar c = true)
      (hs : c ≠ '*') : Body b → Body ('/' :: c :: b)
  | newline {b : List Char} : Body b → Body ('\n' :: b)
  /-- A string; after an empty one no double quote follows. -/
  | string {s b : List Char} (hs : LiteralText '"' s)
      (he : s = [] → b.head? ≠ some '"') :
      Body b → Body ('"' :: (s ++ '"' :: b))
  | character {s b : List Char} (hs : LiteralText '\'' s) :
      Body b → Body ('\'' :: (s ++ '\'' :: b))
  | textBlock {s b : List Char} (hs : BlockText s) :
      Body b → Body ('"' :: '"' :: '"' :: (s ++ '"' :: '"' :: '"' :: b))
  | lineComment {s b : List Char} (hs : '\n' ∉ s) :
      Body b → Body ('/' :: '/' :: (s ++ '\n' :: b))
  /-- A block comment; with a star at the start of its inside it is a doc
      comment. -/
  | blockComment {s b : List Char} (hs : CommentText s) :
      Body b → Body ('/' :: '*' :: (s ++ '*' :: '/' :: b))
  | braces {b c : List Char} : Body b → Body c → Body ('{' :: (b ++ '}' :: c))

/-! ## Tokens from inside a line -/

theorem CodeRole.eq_of_openBrace {c : Char} (h : CodeRole.of c = .openBrace) :
    c = '{' := by
  grind [CodeRole.of]

theorem CodeRole.eq_of_closeBrace {c : Char}
    (h : CodeRole.of c = .closeBrace) : c = '}' := by
  grind [CodeRole.of]

/-- The delimiters of ordinary code. -/
def TokenKind.isDelimiter : TokenKind → Bool
  | .join => true
  | .paramStart => true
  | .paramEnd => true
  | .statementEnd => true
  | _ => false

theorem TokenKind.isLine_of_isDelimiter {kind : TokenKind}
    (h : kind.isDelimiter = true) : kind.isLine = false := by
  cases kind <;> first | rfl | exact nomatch h

/-- The kind of the token that a delimiter is. -/
def delimiterKind? (c : Char) : Option TokenKind :=
  if c = ',' then some .join
  else if c = ';' ∨ c = '{' then some .statementEnd
  else if c = '(' then some .paramStart
  else if c = ')' then some .paramEnd
  else none

theorem CodeRole.delimiterKind?_of_delimiter {c : Char} {kind : TokenKind}
    (h : CodeRole.of c = .delimiter kind) : delimiterKind? c = some kind := by
  grind [CodeRole.of, delimiterKind?]

/-- A token that line `n` can give: a word, or a delimiter, which is a token
    of its own. -/
inductive Token.OnLine (extra : List String) (n : Nat) : Token → Prop where
  | word (w : String) : OnLine extra n (Token.ofWord extra n w)
  | delimiter {c : Char} {kind : TokenKind}
      (h : delimiterKind? c = some kind) :
      OnLine extra n ⟨kind, String.singleton c, n⟩

/-- A token from inside a line: it does not keep track of lines, and the
    statements it ends, it ends with a semicolon or an opening brace. -/
structure Token.InLine (t : Token) : Prop where
  not_line : t.kind.isLine = false
  ending : t.kind = .statementEnd → t.text = ";" ∨ t.text = "\x7b"

theorem Token.inLine_ofWord (extra : List String) (n : Nat) (word : String) :
    (Token.ofWord extra n word).InLine := by
  rw [Token.ofWord]
  split <;> exact ⟨rfl, fun h => nomatch h⟩

theorem isDelimiter_of_delimiterKind? {c : Char} {kind : TokenKind}
    (h : delimiterKind? c = some kind) : kind.isDelimiter = true := by
  grind [delimiterKind?, TokenKind.isDelimiter]

theorem eq_of_delimiterKind?_statementEnd {c : Char}
    (h : delimiterKind? c = some .statementEnd) : c = ';' ∨ c = '{' := by
  grind [delimiterKind?]

namespace Token.OnLine

variable {extra : List String} {n : Nat} {t : Token}

theorem line (h : t.OnLine extra n) : t.line = n := by
  cases h with
  | word w => rfl
  | delimiter h => rfl

theorem inLine (h : t.OnLine extra n) : t.InLine := by
  cases h with
  | word w => exact Token.inLine_ofWord extra n w
  | @delimiter c kind h =>
      refine ⟨TokenKind.isLine_of_isDelimiter (isDelimiter_of_delimiterKind? h), ?_⟩
      rintro (rfl : kind = .statementEnd)
      rcases eq_of_delimiterKind?_statementEnd h with rfl | rfl
      · exact .inl rfl
      · exact .inr rfl

end Token.OnLine

namespace Gather

theorem wordToken_onLine (extra : List String) (n : Nat) (g : Gather) :
    ∀ t ∈ g.wordToken extra n, t.OnLine extra n := by
  intro t ht
  rw [wordToken] at ht
  split at ht
  · exact nomatch ht
  · rw [List.mem_singleton.mp ht]
    exact .word _

theorem delimiter_onLine (extra : List String) (n : Nat) (g : Gather)
    {c : Char} {kind : TokenKind} (h : delimiterKind? c = some kind) :
    ∀ t ∈ (g.delimiter extra n kind (String.singleton c)).2,
      t.OnLine extra n := by
  intro t ht
  rw [delimiter] at ht
  split at ht
  · rcases List.mem_append.mp ht with ht | ht
    · exact wordToken_onLine extra n g t ht
    · rw [List.mem_singleton.mp ht]
      exact .delimiter h
  · cases ht

theorem mark_onLine (extra : List String) (n : Nat) (g : Gather)
    (w : List Char) : ∀ t ∈ (g.mark extra n w).2, t.OnLine extra n := by
  intro t ht
  rcases List.mem_append.mp ht with h | h
  · exact wordToken_onLine extra n g t h
  · split at h
    · rw [List.mem_singleton.mp h]
      exact .word _
    · exact nomatch h

theorem step_onLine (extra : List String) (n : Nat) (g : Gather)
    (p : Piece) : ∀ t ∈ (g.step extra n p).2, t.OnLine extra n := by
  intro t ht
  cases p with
  | opener o => exact mark_onLine extra n g _ t ht
  | closer => exact mark_onLine extra n g _ t ht
  | literal c => cases ht
  | comment c =>
      simp only [step] at ht
      split at ht
      · exact wordToken_onLine extra n g t ht
      · cases ht
  | code c =>
      simp only [step, code] at ht
      cases hr : CodeRole.of c with
      | openAngle | closeAngle | plain => rw [hr] at ht; cases ht
      | blank =>
          rw [hr] at ht
          dsimp only at ht
          split at ht
          · exact wordToken_onLine extra n g t ht
          · cases ht
      | comma =>
          rw [hr] at ht
          dsimp only at ht
          split at ht
          · exact delimiter_onLine extra n g (c := ',') rfl t ht
          · cases ht
      | delimiter kind =>
          rw [hr] at ht
          exact delimiter_onLine extra n g
            (CodeRole.delimiterKind?_of_delimiter hr) t ht
      | openBrace =>
          rw [hr] at ht
          rw [CodeRole.eq_of_openBrace hr] at ht
          exact delimiter_onLine extra n g (c := '{') rfl t ht
      | closeBrace =>
          rw [hr] at ht
          exact wordToken_onLine extra n g t ht

theorem steps_onLine (extra : List String) (n : Nat) (g : Gather)
    (ps : List Piece) : ∀ t ∈ (g.steps extra n ps).2, t.OnLine extra n := by
  induction ps generalizing g with
  | nil => exact fun t ht => nomatch ht
  | cons p ps ih =>
      intro t ht
      rcases List.mem_append.mp ht with h | h
      · exact step_onLine extra n g p t h
      · exact ih _ t h

end Gather

/-! ## Deep readers -/

namespace Gather

/-- The two braces of ordinary text. -/
def isBracePiece : Piece → Bool
  | .code c => c == '{' || c == '}'
  | _ => false

theorem delimiter_depth (extra : List String) (n : Nat) (g : Gather)
    (kind : TokenKind) (text : String) :
    (g.delimiter extra n kind text).1.depth = g.depth := by
  rw [delimiter]
  split <;> rfl

/-- Only braces move the depth. -/
theorem step_depth (extra : List String) (n : Nat) (g : Gather) {p : Piece}
    (hp : isBracePiece p = false) : (g.step extra n p).1.depth = g.depth := by
  have htake : ∀ (g : Gather) c, (g.take c).depth = g.depth := by
    intro g c
    rw [take]
    split <;> rfl
  have hdrop : ∀ g : Gather, g.dropSpace.depth = g.depth := by
    intro g
    rw [dropSpace]
    split <;> rfl
  cases p with
  | opener o => rfl
  | closer => rfl
  | literal c => exact htake g c
  | comment c =>
      simp only [step]
      split
      · rfl
      · exact htake g c
  | code c =>
      simp only [step, code]
      cases hr : CodeRole.of c with
      | openAngle => exact htake _ c
      | closeAngle =>
          show (g.closeAngle.take c).depth = g.depth
          rw [htake, closeAngle]
          split
          · rfl
          · exact hdrop _
      | blank =>
          by_cases ha : g.angle = 0
          · simp only [if_pos ha, clear]
          · simp only [if_neg ha, argumentBlank]
            split <;> first | rfl | exact htake _ _
      | comma =>
          by_cases ha : g.angle = 0
          · simp only [if_pos ha]
            exact delimiter_depth extra n g _ _
          · simp only [if_neg ha, argumentComma]
            split
            · rw [htake, hdrop]
            · rfl
      | delimiter kind => exact delimiter_depth extra n g _ _
      | openBrace =>
          rw [CodeRole.eq_of_openBrace hr] at hp
          cases hp
      | closeBrace =>
          rw [CodeRole.eq_of_closeBrace hr] at hp
          cases hp
      | plain => exact htake g c

/-- No word is under construction and none will be. -/
structure Deep (g : Gather) : Prop where
  depth : bodyDepth ≤ g.depth
  word : g.word = []

theorem Deep.not_capturing {g : Gather} (h : g.Deep) : g.capturing = false :=
  decide_eq_false (Nat.not_lt.mpr h.depth)

theorem Deep.wordToken {g : Gather} (h : g.Deep) (extra : List String)
    (n : Nat) : g.wordToken extra n = [] := by
  rw [Gather.wordToken, h.word]
  rfl

/-- A deep reader takes no character up. -/
theorem Deep.take {g : Gather} (h : g.Deep) (c : Char) : g.take c = g := by
  rw [Gather.take, h.not_capturing]
  rfl

theorem Deep.clear {g : Gather} (h : g.Deep) : g.clear = g := by
  rw [Gather.clear, ← h.word]

theorem Deep.withAngle {g : Gather} (h : g.Deep) (a : Nat) :
    Deep { g with angle := a } := ⟨h.depth, h.word⟩

theorem Deep.delimiter {g : Gather} (h : g.Deep) (extra : List String)
    (n : Nat) (kind : TokenKind) (text : String) :
    g.delimiter extra n kind text = ({ g with angle := 0 }, []) := by
  rw [Gather.delimiter, h.not_capturing]
  rfl

theorem Deep.mark {g : Gather} (h : g.Deep) (extra : List String) (n : Nat)
    (w : List Char) : g.mark extra n w = (g, []) := by
  rw [Gather.mark, h.clear, h.wordToken, h.not_capturing]
  rfl

theorem Deep.closeAngle {g : Gather} (h : g.Deep) :
    g.closeAngle = { g with angle := g.angle - 1 } := by
  rw [Gather.closeAngle]
  by_cases ha : g.angle = 0
  · rw [if_pos ha, show g.angle - 1 = g.angle by omega]
  · rw [if_neg ha, dropSpace, (h.withAngle _).word]

theorem Deep.argumentBlank {g : Gather} (h : g.Deep) :
    g.argumentBlank = g := by
  rw [Gather.argumentBlank, h.word]

/-- A character of ordinary text that is no brace only moves the depth of
    angle brackets. -/
theorem Deep.code {g : Gather} (h : g.Deep) (extra : List String) (n : Nat)
    {c : Char} (hc : isBracePiece (.code c) = false) :
    ∃ a, g.code extra n c = ({ g with angle := a }, []) := by
  simp only [Gather.code]
  cases hr : CodeRole.of c with
  | openAngle => exact ⟨g.angle + 1, by rw [(h.withAngle _).take]⟩
  | closeAngle =>
      refine ⟨g.angle - 1, ?_⟩
      simp only [h.closeAngle, (h.withAngle _).take]
  | blank =>
      refine ⟨g.angle, ?_⟩
      by_cases ha : g.angle = 0
      · simp only [if_pos ha, h.clear, h.wordToken]
      · simp only [if_neg ha, h.argumentBlank]
  | comma =>
      by_cases ha : g.angle = 0
      · exact ⟨0, by simp only [if_pos ha, h.delimiter]⟩
      · refine ⟨g.angle, ?_⟩
        simp only [if_neg ha, argumentComma, h.not_capturing]
        rfl
  | delimiter kind => exact ⟨0, h.delimiter extra n kind _⟩
  | openBrace =>
      rw [CodeRole.eq_of_openBrace hr] at hc
      cases hc
  | closeBrace =>
      rw [CodeRole.eq_of_closeBrace hr] at hc
      cases hc
  | plain => exact ⟨g.angle, by rw [h.take]⟩

/-- A piece that is no brace only moves the depth of angle brackets. -/
theorem Deep.step {g : Gather} (h : g.Deep) (extra : List String) (n : Nat)
    {p : Piece} (hp : isBracePiece p = false) :
    ∃ a, g.step extra n p = ({ g with angle := a }, []) := by
  cases p with
  | opener o => exact ⟨g.angle, h.mark extra n _⟩
  | closer => exact ⟨g.angle, h.mark extra n _⟩
  | code c => exact h.code extra n hp
  | comment c =>
      refine ⟨g.angle, ?_⟩
      simp only [Gather.step, h.clear, h.wordToken, h.take, ite_self]
  | literal c => exact ⟨g.angle, by rw [Gather.step, h.take]⟩

theorem Deep.steps {g : Gather} (h : g.Deep) (extra : List String) (n : Nat)
    {ps : List Piece} (hp : ∀ p ∈ ps, isBracePiece p = false) :
    ∃ a, g.steps extra n ps = ({ g with angle := a }, []) := by
  induction ps generalizing g with
  | nil => exact ⟨g.angle, rfl⟩
  | cons p ps ih =>
      obtain ⟨a, ha⟩ := h.step extra n (hp p (by simp))
      obtain ⟨a', ha'⟩ := ih (h.withAngle a) (fun q hq => hp q (by simp [hq]))
      exact ⟨a', by rw [Gather.steps, ha, ha']; rfl⟩

/-- Where words do not count, none is under construction. -/
def Settled (g : Gather) : Prop := bodyDepth ≤ g.depth → g.word = []

/-- An opening brace ends the word. -/
theorem Settled.openBrace {g : Gather} (h : g.Settled) (extra : List String)
    (n : Nat) :
    g.step extra n (.code '{')
      = ({ depth := g.depth + 1 },
          (g.delimiter extra n .statementEnd "\x7b").2) := by
  show g.code extra n '{' = _
  simp only [code, show CodeRole.of '{' = .openBrace from rfl,
    show String.singleton '{' = "\x7b" from rfl, delimiter]
  cases hcap : g.capturing with
  | true => rfl
  | false =>
      have hword : g.word = [] :=
        h (Nat.not_lt.mp (of_decide_eq_false hcap))
      simp only [closeAngles, hword]
      rfl

/-- A brace ends the word. -/
theorem Settled.brace {g : Gather} (h : g.Settled) (extra : List String)
    (n : Nat) {p : Piece} (hp : isBracePiece p = true) :
    (g.step extra n p).1.word = [] := by
  cases p with
  | code c =>
      have hc : c = '{' ∨ c = '}' := by simpa [isBracePiece] using hp
      rcases hc with rfl | rfl
      · rw [h.openBrace]
      · rfl
  | _ => exact nomatch hp

theorem Settled.step {g : Gather} (h : g.Settled) (extra : List String)
    (n : Nat) (p : Piece) : (g.step extra n p).1.Settled := by
  intro hd
  cases hp : isBracePiece p with
  | true => exact h.brace extra n hp
  | false =>
      rw [step_depth extra n g hp] at hd
      obtain ⟨a, ha⟩ := Deep.step ⟨hd, h hd⟩ extra n hp
      rw [ha]
      exact h hd

theorem Settled.steps {g : Gather} (h : g.Settled) (extra : List String)
    (n : Nat) (ps : List Piece) : (g.steps extra n ps).1.Settled := by
  induction ps generalizing g with
  | nil => exact h
  | cons p ps ih => exact ih (h.step extra n p)

end Gather

theorem Reader.read_settled (extra : List String) (r : Reader) (h : r.gather.Settled)
    (cs : List Char) : (r.read extra cs).1.gather.Settled := by
  fun_induction read extra r cs with
  | case1 r => exact h
  | case2 r cs ih => exact ih (fun _ => rfl)
  | case3 r c cs hc k ih => exact ih (h.steps extra r.line _)

/-- What holds of the words and delimiters of every line, of the texts of lines
    and of the numbers of the lines to come holds of all tokens. -/
theorem Reader.forall_tokens (extra : List String) {P : Token → Prop}
    (hword : ∀ n t, t.OnLine extra n → P t) (hsign : ∀ n l, P (Token.sign n l))
    (r : Reader) (cs : List Char)
    (hnumber : ∀ m, r.line < m → m ≤ r.line + cs.count '\n' →
      P (Token.lineNumber m)) :
    ∀ t ∈ r.tokens extra cs, P t := by
  have hclose : ∀ r : Reader, ∀ t ∈ r.close extra, P t := by
    intro r t ht
    rcases List.mem_append.mp ht with ht | ht
    · exact hword _ t (Gather.wordToken_onLine extra _ _ t ht)
    · rw [List.mem_singleton.mp ht]
      exact hsign _ _
  have hread : ∀ t ∈ (r.read extra cs).2, P t := by
    fun_induction read extra r cs with
    | case1 r => exact fun t ht => absurd ht List.not_mem_nil
    | case2 r cs ih =>
        have hline : r.nextLine.line = r.line + 1 := rfl
        rw [List.count_cons_self] at hnumber
        intro t ht
        rcases List.mem_append.mp ht with ht | ht
        · rcases List.mem_append.mp ht with ht | ht
          · exact hclose r t ht
          · rw [List.mem_singleton.mp ht]
            exact hnumber _ (by omega) (by omega)
        · refine ih (fun m h1 h2 => hnumber m ?_ ?_) t ht <;> omega
    | case3 r c cs hc k ih =>
        have hcount : (c :: cs).count '\n' = k.rest.count '\n' := by
          rw [← Source.bite_text r.mode c cs, List.count_append,
            List.count_eq_zero.mpr (Source.bite_no_newline hc cs), Nat.zero_add]
        rw [hcount] at hnumber
        intro t ht
        rcases List.mem_append.mp ht with ht | ht
        · exact hword _ t (Gather.steps_onLine extra _ _ _ t ht)
        · exact ih hnumber t ht
  intro t ht
  rcases List.mem_append.mp ht with ht | ht
  · exact hread t ht
  · exact hclose _ t ht

/-! ## Passing over -/

/-- The tokens of lines that end one after another, the first of them line
    `n`. -/
def lineEnds (n : Nat) : List (List Char) → List Token
  | [] => []
  | l :: ls => Token.sign n l :: Token.lineNumber (n + 1) :: lineEnds (n + 1) ls

theorem lineEnds_append (n : Nat) (ls ks : List (List Char)) :
    lineEnds n (ls ++ ks) = lineEnds n ls ++ lineEnds (n + ls.length) ks := by
  induction ls generalizing n with
  | nil => rfl
  | cons l ls ih =>
      rw [List.cons_append, lineEnds, ih, lineEnds, List.length_cons,
        show n + (ls.length + 1) = n + 1 + ls.length by omega]
      rfl

/-- Reading `x` before `cs` leads from `r` to `r'` at the same depth, and
    gives no tokens but those of the lines that end in `x`. -/
structure Skim (extra : List String) (r : Reader) (x cs : List Char)
    (r' : Reader) : Prop where
  line : r'.line = r.line + x.count '\n'
  depth : r'.gather.depth = r.gather.depth
  word : r'.gather.word = []
  tokens : ∃ texts : List (List Char), texts.length = x.count '\n' ∧
    r.read extra (x ++ cs) = prepend (lineEnds r.line texts) (r'.read extra cs)

namespace Skim

variable {extra : List String} {r r' r'' : Reader} {x y cs : List Char}

theorem deep (h : Skim extra r x cs r') (hd : r.gather.Deep) :
    r'.gather.Deep :=
  ⟨by rw [h.depth]; exact hd.depth, h.word⟩

theorem refl (hd : r.gather.Deep) : Skim extra r [] cs r :=
  ⟨rfl, rfl, hd.word, [], rfl, rfl⟩

theorem trans (h1 : Skim extra r x (y ++ cs) r')
    (h2 : Skim extra r' y cs r'') : Skim extra r (x ++ y) cs r'' := by
  obtain ⟨ts1, hlen1, hread1⟩ := h1.tokens
  obtain ⟨ts2, hlen2, hread2⟩ := h2.tokens
  refine ⟨?_, ?_, h2.word, ts1 ++ ts2, ?_, ?_⟩
  · rw [h2.line, h1.line, List.count_append, Nat.add_assoc]
  · rw [h2.depth, h1.depth]
  · rw [List.length_append, List.count_append, hlen1, hlen2]
  · rw [List.append_assoc, hread1, hread2, prepend_prepend, lineEnds_append,
      h1.line, hlen1]

/-- One text after another, each of which leaves its reader in a given mode. -/
theorem andThen {m m' : Mode} (hd : r.gather.Deep)
    (h1 : ∃ r1 : Reader, r1.mode = m ∧ Skim extra r x (y ++ cs) r1)
    (h2 : ∀ r1 : Reader, r1.mode = m → r1.gather.Deep →
      ∃ r2 : Reader, r2.mode = m' ∧ Skim extra r1 y cs r2) :
    ∃ r2 : Reader, r2.mode = m' ∧ Skim extra r (x ++ y) cs r2 := by
  obtain ⟨r1, hm1, hx⟩ := h1
  obtain ⟨r2, hm2, hy⟩ := h2 r1 hm1 (hx.deep hd)
  exact ⟨r2, hm2, hx.trans hy⟩

/-- A step without braces. -/
theorem step (extra : List String) (x cs : List Char) {m : Mode} {c : Char}
    {ps : List Piece} (hd : r.gather.Deep) (hb : bite r.mode c (x ++ cs) = ⟨ps, m, cs⟩)
    (hp : ∀ p ∈ ps, Gather.isBracePiece p = false) (hn : '\n' ∉ c :: x) :
    ∃ r', r'.mode = m ∧ Skim extra r (c :: x) cs r' := by
  obtain ⟨a, ha⟩ := hd.steps extra r.line hp
  have hcount : (c :: x).count '\n' = 0 := List.count_eq_zero.mpr hn
  have hc : c ≠ '\n' := fun h => hn (by rw [h]; simp)
  refine ⟨r.take extra ⟨ps, m, cs⟩, rfl, ?_, ?_, ?_, [], ?_, ?_⟩
  · rw [hcount]; rfl
  · show (r.gather.steps extra r.line ps).1.depth = r.gather.depth
    rw [ha]
  · show (r.gather.steps extra r.line ps).1.word = []
    rw [ha]
    exact hd.word
  · rw [hcount]; rfl
  · rw [List.cons_append, Reader.read_cons extra r hc, hb]
    show prepend (r.gather.steps extra r.line ps).2 _ = _
    rw [ha]
    rfl

/-- The end of a line. -/
theorem newline (hd : r.gather.Deep) (cs : List Char) :
    Skim extra r ['\n'] cs r.nextLine := by
  refine ⟨rfl, rfl, rfl, [r.text.reverse], rfl, ?_⟩
  show r.read extra ('\n' :: cs) = _
  rw [Reader.read_newline, Reader.lineEnd, Reader.close, hd.wordToken]
  rfl

end Skim

/-! ## Literals and comments -/

section

variable {extra : List String}

/-- The rest of a literal on one line. -/
theorem LiteralText.skim {m : Mode} {q : Char} (hq : Quotes m q)
    {s : List Char} (hs : LiteralText q s) (cs : List Char) :
    ∀ r : Reader, r.mode = m → r.gather.Deep →
      ∃ r', r'.mode = .code ∧ Skim extra r (s ++ [q]) cs r' := by
  induction hs with
  | nil =>
      intro r hm hd
      refine Skim.step extra [] cs hd (by rw [hm]; exact hq.bite_quote cs) ?_ ?_
      · simp [Gather.isBracePiece]
      · cases hq <;> decide
  | @char c s hc hb hn hs ih =>
      intro r hm hd
      have hbite : bite r.mode c ([] ++ (s ++ [q] ++ cs))
          = ⟨[.literal c], m, s ++ [q] ++ cs⟩ := by
        rw [hm]
        exact hq.bite_char hc hb _
      exact Skim.andThen (x := [c]) hd (Skim.step extra [] _ hd hbite
        (by simp [Gather.isBracePiece]) (by simpa using hn.symm)) ih
  | @escape c s hn hs ih =>
      intro r hm hd
      have hbite : bite r.mode '\\' ([c] ++ (s ++ [q] ++ cs))
          = ⟨[.literal '\\', .literal c], m, s ++ [q] ++ cs⟩ := by
        rw [hm]
        exact bite_escape hq.isLiteral hn _
      exact Skim.andThen (x := ['\\', c]) hd (Skim.step extra [c] _ hd hbite
        (by simp [Gather.isBracePiece]) (by simpa using hn.symm)) ih

/-- No text block starts with a string that no double quote follows. -/
theorem LiteralText.not_quotes {s cs : List Char} (hs : LiteralText '"' s)
    (he : s = [] → cs.head? ≠ some '"') (t : List Char) :
    s ++ '"' :: cs ≠ '"' :: '"' :: t := by
  intro ht
  cases hs with
  | nil => exact he rfl (by rw [(List.cons.inj ht).2]; rfl)
  | char hq => exact hq (List.cons.inj ht).1
  | escape => exact absurd (List.cons.inj ht).1 (by decide)

theorem skim_string {s : List Char} (hs : LiteralText '"' s) {cs : List Char}
    (he : s = [] → cs.head? ≠ some '"') {r : Reader} (hm : r.mode = .code)
    (hd : r.gather.Deep) :
    ∃ r', r'.mode = .code ∧ Skim extra r ('"' :: (s ++ ['"'])) cs r' := by
  have hbite : bite r.mode '"' ([] ++ (s ++ ['"'] ++ cs))
      = ⟨[.literal '"'], .string, s ++ ['"'] ++ cs⟩ := by
    rw [hm, List.nil_append, List.append_assoc]
    exact bite_quote (hs.not_quotes he)
  exact Skim.andThen hd (Skim.step extra [] _ hd hbite
    (by simp [Gather.isBracePiece]) (by decide)) (hs.skim .string cs)

theorem skim_character {s : List Char} (hs : LiteralText '\'' s)
    (cs : List Char) {r : Reader} (hm : r.mode = .code) (hd : r.gather.Deep) :
    ∃ r', r'.mode = .code ∧ Skim extra r ('\'' :: (s ++ ['\''])) cs r' := by
  have hbite : bite r.mode '\'' ([] ++ (s ++ ['\''] ++ cs))
      = ⟨[.literal '\''], .character, s ++ ['\''] ++ cs⟩ := by
    rw [hm]
    exact bite_apostrophe _
  exact Skim.andThen hd (Skim.step extra [] _ hd hbite
    (by simp [Gather.isBracePiece]) (by decide)) (hs.skim .character cs)

/-- A character of a text block, which may be a line end. -/
theorem skim_textBlock_char {c : Char} (hq : c ≠ '"') (hb : c ≠ '\\')
    (cs : List Char) {r : Reader} (hm : r.mode = .textBlock)
    (hd : r.gather.Deep) :
    ∃ r', r'.mode = .textBlock ∧ Skim extra r [c] cs r' := by
  by_cases hn : c = '\n'
  · subst hn
    exact ⟨r.nextLine, by rw [Reader.nextLine, hm]; rfl, Skim.newline hd cs⟩
  · exact Skim.step extra [] cs hd
      (by rw [hm]; exact bite_textBlock hq hb cs)
      (by simp [Gather.isBracePiece]) (by simpa using Ne.symm hn)

/-- An escaped character of a text block, which may be a line end. -/
theorem skim_textBlock_escape (c : Char) (cs : List Char) {r : Reader}
    (hm : r.mode = .textBlock) (hd : r.gather.Deep) :
    ∃ r', r'.mode = .textBlock ∧ Skim extra r ['\\', c] cs r' := by
  by_cases hn : c = '\n'
  · subst hn
    obtain ⟨r1, hm1, h1⟩ := Skim.step extra [] ('\n' :: cs) hd
      (by rw [hm]; exact bite_escape_newline cs)
      (by simp [Gather.isBracePiece]) (by decide)
    exact ⟨r1.nextLine, by rw [Reader.nextLine, hm1]; rfl,
      h1.trans (Skim.newline (h1.deep hd) cs)⟩
  · exact Skim.step extra [c] cs hd
      (by rw [hm]; exact bite_escape rfl hn cs)
      (by simp [Gather.isBracePiece]) (by simpa using Ne.symm hn)

/-- The rest of a text block. -/
theorem BlockText.skim {s : List Char} (hs : BlockText s) (cs : List Char) :
    ∀ r : Reader, r.mode = .textBlock → r.gather.Deep →
      ∃ r', r'.mode = .code ∧ Skim extra r (s ++ ['"', '"', '"']) cs r' := by
  induction hs with
  | nil =>
      intro r hm hd
      have hbite : bite r.mode '"' (['"', '"'] ++ cs)
          = ⟨textBlockQuotes, .code, cs⟩ := by
        rw [hm]
        rfl
      exact Skim.step extra ['"', '"'] cs hd hbite
        (by simp [textBlockQuotes, Gather.isBracePiece]) (by decide)
  | @char c s hq hb hs ih =>
      intro r hm hd
      exact Skim.andThen (x := [c]) hd (skim_textBlock_char hq hb _ hm hd) ih
  | @escape c s hs ih =>
      intro r hm hd
      exact Skim.andThen (x := ['\\', c]) hd (skim_textBlock_escape _ _ hm hd) ih

theorem skim_textBlock {s : List Char} (hs : BlockText s) (cs : List Char)
    {r : Reader} (hm : r.mode = .code) (hd : r.gather.Deep) :
    ∃ r', r'.mode = .code
      ∧ Skim extra r ('"' :: '"' :: '"' :: (s ++ ['"', '"', '"'])) cs r' := by
  have hbite : bite r.mode '"' (['"', '"'] ++ (s ++ ['"', '"', '"'] ++ cs))
      = ⟨textBlockQuotes, .textBlock, s ++ ['"', '"', '"'] ++ cs⟩ := by
    rw [hm]
    rfl
  exact Skim.andThen hd (Skim.step extra ['"', '"'] _ hd hbite
    (by simp [textBlockQuotes, Gather.isBracePiece]) (by decide)) (hs.skim cs)

/-- The rest of a line comment and the end of its line. -/
theorem skim_lineComment_rest {s : List Char} (hs : '\n' ∉ s)
    (cs : List Char) :
    ∀ r : Reader, r.mode = .lineComment → r.gather.Deep →
      ∃ r', r'.mode = .code ∧ Skim extra r (s ++ ['\n']) cs r' := by
  induction s with
  | nil =>
      intro r hm hd
      exact ⟨r.nextLine, by rw [Reader.nextLine, hm]; rfl, Skim.newline hd cs⟩
  | cons c s ih =>
      intro r hm hd
      rw [List.mem_cons, not_or] at hs
      exact Skim.andThen (x := [c]) hd (Skim.step extra [] _ hd
        (by rw [hm]; exact bite_lineComment c _)
        (by simp [Gather.isBracePiece]) (by simpa using hs.1)) (ih hs.2)

theorem skim_lineComment {s : List Char} (hs : '\n' ∉ s) (cs : List Char)
    {r : Reader} (hm : r.mode = .code) (hd : r.gather.Deep) :
    ∃ r', r'.mode = .code
      ∧ Skim extra r ('/' :: '/' :: (s ++ ['\n'])) cs r' := by
  have hbite : bite r.mode '/' (['/'] ++ (s ++ ['\n'] ++ cs))
      = ⟨[.opener .line], .lineComment, s ++ ['\n'] ++ cs⟩ := by
    rw [hm]
    rfl
  exact Skim.andThen hd (Skim.step extra ['/'] _ hd hbite
    (by simp [Gather.isBracePiece]) (by decide)) (skim_lineComment_rest hs cs)

theorem CommentText.tail {c : Char} {s : List Char} (h : CommentText (c :: s)) :
    CommentText s :=
  fun hi => h (hi.trans (List.suffix_cons c s).isInfix)

/-- No slash follows a star inside a comment, nor at its end. -/
theorem CommentText.head_ne {s : List Char} (h : CommentText ('*' :: s))
    (cs : List Char) : (s ++ ['*', '/'] ++ cs).head? ≠ some '/' := by
  cases s with
  | nil => simp
  | cons d s =>
      intro hd
      cases hd
      exact h ⟨[], s, rfl⟩

/-- A character of a block comment, which may be a line end. -/
theorem CommentText.skim_char {c : Char} {s : List Char}
    (hs : CommentText (c :: s)) (cs : List Char) {r : Reader}
    (hm : r.mode = .blockComment) (hd : r.gather.Deep) :
    ∃ r', r'.mode = .blockComment
      ∧ Skim extra r [c] (s ++ ['*', '/'] ++ cs) r' := by
  by_cases hn : c = '\n'
  · subst hn
    exact ⟨r.nextLine, by rw [Reader.nextLine, hm]; rfl, Skim.newline hd _⟩
  · have hbite : bite r.mode c ([] ++ (s ++ ['*', '/'] ++ cs))
        = ⟨[.comment c], .blockComment, s ++ ['*', '/'] ++ cs⟩ := by
      rw [hm]
      apply bite_blockComment
      rintro rfl
      exact hs.head_ne cs
    exact Skim.step extra [] _ hd hbite (by simp [Gather.isBracePiece])
      (by simpa using Ne.symm hn)

/-- The rest of a block comment. -/
theorem CommentText.skim {s : List Char} (hs : CommentText s)
    (cs : List Char) :
    ∀ r : Reader, r.mode = .blockComment → r.gather.Deep →
      ∃ r', r'.mode = .code ∧ Skim extra r (s ++ ['*', '/']) cs r' := by
  induction s with
  | nil =>
      intro r hm hd
      have hbite : bite r.mode '*' (['/'] ++ cs) = ⟨[.closer], .code, cs⟩ := by
        rw [hm]
        rfl
      exact Skim.step extra ['/'] cs hd hbite (by simp [Gather.isBracePiece])
        (by decide)
  | cons c s ih =>
      intro r hm hd
      exact Skim.andThen (x := [c]) hd (hs.skim_char cs hm hd) (ih hs.tail)

/-- A block comment, from its opener on. -/
theorem skim_blockComment {s : List Char} (hs : CommentText s)
    (cs : List Char) {r : Reader} (hm : r.mode = .code)
    (hd : r.gather.Deep) :
    ∃ r', r'.mode = .code
      ∧ Skim extra r ('/' :: '*' :: (s ++ ['*', '/'])) cs r' := by
  by_cases hstar : s.head? = some '*'
  · -- the star at the start of the inside belongs to the opener
    obtain ⟨s, rfl⟩ := List.head?_eq_some_iff.mp hstar
    have hbite : bite r.mode '/' (['*', '*'] ++ (s ++ ['*', '/'] ++ cs))
        = ⟨[.opener .doc], .blockComment, s ++ ['*', '/'] ++ cs⟩ := by
      rw [hm]
      exact bite_doc (hs.head_ne cs)
    exact Skim.andThen hd (Skim.step extra ['*', '*'] _ hd hbite
      (by simp [Gather.isBracePiece]) (by decide)) (hs.tail.skim cs)
  · have hbite : bite r.mode '/' (['*'] ++ (s ++ ['*', '/'] ++ cs))
        = ⟨[.opener .block], .blockComment, s ++ ['*', '/'] ++ cs⟩ := by
      rw [hm]
      cases s with
      | nil => rfl
      | cons c s => exact bite_block hstar
    exact Skim.andThen hd (Skim.step extra ['*'] _ hd hbite
      (by simp [Gather.isBracePiece]) (by decide)) (hs.skim cs)

/-! ## Braces -/

/-- The reader after an opening brace. -/
def Reader.opened (r : Reader) : Reader :=
  { r with text := '{' :: r.text, gather := { depth := r.gather.depth + 1 } }

/-- The reader after a closing brace. -/
def Reader.closed (r : Reader) : Reader :=
  { r with text := '}' :: r.text, gather := { depth := r.gather.depth - 1 } }

theorem read_openBrace (extra : List String) {r : Reader} (hm : r.mode = .code)
    (hs : r.gather.Settled) (cs : List Char) :
    r.read extra ('{' :: cs)
      = prepend (r.gather.delimiter extra r.line .statementEnd "\x7b").2
          (r.opened.read extra cs) := by
  have hbite : bite r.mode '{' cs = ⟨[.code '{'], r.mode, cs⟩ := by
    rw [hm]
    exact bite_code (by decide) (by decide) (by decide) cs
  have hstep : r.gather.steps extra r.line [.code '{']
      = ({ depth := r.gather.depth + 1 },
          (r.gather.delimiter extra r.line .statementEnd "\x7b").2) := by
    rw [Gather.steps_singleton]
    exact hs.openBrace extra r.line
  rw [Reader.read_cons extra r (by decide), hbite, Reader.take, hstep]
  rfl

theorem read_closeBrace (extra : List String) {r : Reader}
    (hm : r.mode = .code) (cs : List Char) :
    r.read extra ('}' :: cs)
      = prepend (r.gather.wordToken extra r.line) (r.closed.read extra cs) := by
  have hbite : bite r.mode '}' cs = ⟨[.code '}'], r.mode, cs⟩ := by
    rw [hm]
    exact bite_code (by decide) (by decide) (by decide) cs
  have hstep : r.gather.steps extra r.line [.code '}']
      = ({ depth := r.gather.depth - 1 },
          r.gather.wordToken extra r.line) := by
    rw [Gather.steps_singleton]
    rfl
  rw [Reader.read_cons extra r (by decide), hbite, Reader.take, hstep]
  rfl

/-! ## Bodies are passed over -/

theorem isPlainChar_ne {c : Char} (h : isPlainChar c = true) :
    c ≠ '"' ∧ c ≠ '\'' ∧ c ≠ '{' ∧ c ≠ '}' ∧ c ≠ '/' ∧ c ≠ '\n' := by
  simp only [isPlainChar, Bool.not_eq_true', Bool.or_eq_false_iff,
    beq_eq_false_iff_ne] at h
  exact ⟨h.1.1.1.1.1, h.1.1.1.1.2, h.1.1.1.2, h.1.1.2, h.1.2, h.2⟩

theorem skim_plain {c : Char} (hc : isPlainChar c = true) (cs : List Char)
    {r : Reader} (hm : r.mode = .code) (hd : r.gather.Deep) :
    ∃ r', r'.mode = .code ∧ Skim extra r [c] cs r' := by
  obtain ⟨h1, h2, h3, h4, h5, h6⟩ := isPlainChar_ne hc
  refine Skim.step extra [] cs hd (by rw [hm]; exact bite_code h5 h1 h2 cs) ?_
    (by simpa using h6.symm)
  intro p hp
  rw [List.mem_singleton.mp hp]
  simp [Gather.isBracePiece, h3, h4]

/-- A slash that opens no comment. -/
theorem skim_slash {c : Char} (hc : isPlainChar c = true) (hs : c ≠ '*')
    (cs : List Char) {r : Reader} (hm : r.mode = .code) (hd : r.gather.Deep) :
    ∃ r', r'.mode = .code ∧ Skim extra r ['/', c] cs r' := by
  have hne : c ≠ '/' := (isPlainChar_ne hc).2.2.2.2.1
  have hbite : bite r.mode '/' ([] ++ ([c] ++ cs))
      = ⟨[.code '/'], .code, [c] ++ cs⟩ := by
    rw [hm]
    exact bite_slash (fun h => hne (Option.some.inj h))
      (fun h => hs (Option.some.inj h))
  exact Skim.andThen hd (Skim.step extra [] _ hd hbite
    (by simp [Gather.isBracePiece]) (by decide))
    (fun _ hm hd => skim_plain hc cs hm hd)

/-- A pair of braces around a text that is passed over. -/
theorem skim_braces {b cs : List Char}
    (hb : ∀ r : Reader, r.mode = .code → r.gather.Deep →
      ∃ r', r'.mode = .code ∧ Skim extra r b ('}' :: cs) r')
    {r : Reader} (hm : r.mode = .code) (hd : r.gather.Deep) :
    ∃ r', r'.mode = .code ∧ Skim extra r ('{' :: (b ++ ['}'])) cs r' := by
  have hdeep : r.opened.gather.Deep := ⟨Nat.le_succ_of_le hd.depth, rfl⟩
  obtain ⟨r1, hm1, h1⟩ := hb r.opened hm hdeep
  obtain ⟨texts, hlen, hread⟩ := h1.tokens
  have hcount : ('{' :: (b ++ ['}'])).count '\n' = b.count '\n' := by
    simp [List.count_append]
  have htext : '{' :: (b ++ ['}']) ++ cs = '{' :: (b ++ '}' :: cs) := by simp
  refine ⟨r1.closed, hm1, ?_, ?_, rfl, texts, ?_, ?_⟩
  · rw [hcount]
    exact h1.line
  · show r1.gather.depth - 1 = _
    rw [h1.depth]
    rfl
  · rw [hcount, hlen]
  · rw [htext, read_openBrace extra hm (fun _ => hd.word), hd.delimiter,
      prepend_nil, hread, read_closeBrace extra hm1,
      (h1.deep hdeep).wordToken, prepend_nil]
    rfl

/-- **A body is passed over**: the reader comes out of it at the depth and in
    the mode in which it went in, with no word begun. -/
theorem Body.skim {b : List Char} (hb : Body b) :
    ∀ cs : List Char, cs.head? ≠ some '"' → ∀ r : Reader, r.mode = .code →
      r.gather.Deep → ∃ r', r'.mode = .code ∧ Skim extra r b cs r' := by
  induction hb with
  | nil =>
      intro cs _ r hm hd
      exact ⟨r, hm, Skim.refl hd⟩
  | plain hc _ ih =>
      intro cs hcs r hm hd
      exact Skim.andThen hd (skim_plain hc _ hm hd) (ih cs hcs)
  | slash hc hs _ ih =>
      intro cs hcs r hm hd
      exact Skim.andThen hd (skim_slash hc hs _ hm hd) (ih cs hcs)
  | newline _ ih =>
      intro cs hcs r hm hd
      have hline : r.nextLine.mode = .code := by rw [Reader.nextLine, hm]; rfl
      exact Skim.andThen hd ⟨r.nextLine, hline, Skim.newline hd _⟩ (ih cs hcs)
  | @string s b hs he _ ih =>
      intro cs hcs r hm hd
      -- a third quote would make a text block of an empty string
      have he' : s = [] → (b ++ cs).head? ≠ some '"' := by
        intro hnil
        cases b with
        | nil => exact hcs
        | cons d b => exact he hnil
      simpa using Skim.andThen hd (skim_string hs he' hm hd) (ih cs hcs)
  | character hs _ ih =>
      intro cs hcs r hm hd
      simpa using Skim.andThen hd (skim_character hs _ hm hd) (ih cs hcs)
  | textBlock hs _ ih =>
      intro cs hcs r hm hd
      simpa using Skim.andThen hd (skim_textBlock hs _ hm hd) (ih cs hcs)
  | lineComment hs _ ih =>
      intro cs hcs r hm hd
      simpa using Skim.andThen hd (skim_lineComment hs _ hm hd) (ih cs hcs)
  | blockComment hs _ ih =>
      intro cs hcs r hm hd
      simpa using Skim.andThen hd (skim_blockComment hs _ hm hd) (ih cs hcs)
  | @braces b c _ _ ihb ihc =>
      intro cs hcs r hm hd
      have hclose : ('}' :: (c ++ cs)).head? ≠ some '"' := by simp
      simpa using Skim.andThen hd (skim_braces (ihb _ hclose) hm hd) (ihc cs hcs)

/-! ## Bodies on lines of their own -/

theorem Body.of_newline {b : List Char} (h : Body ('\n' :: b)) : Body b := by
  cases h with
  | newline h => exact h
  | plain hc _ => exact absurd hc (by decide)

/-- After a body that ends with a line end the reader is at the start of a
    line, and which line it is depends only on how many the body has. -/
theorem Body.read_last {b : List Char} (hb : Body b)
    (hl : b.getLast? = some '\n') {r : Reader} (hm : r.mode = .code)
    (hd : r.gather.Deep) :
    ∃ texts : List (List Char), texts.length = b.count '\n' ∧
      ∀ cs, r.read extra (b ++ cs)
        = prepend (lineEnds r.line texts)
            ((Reader.atLine (r.line + b.count '\n')
              ⟨.code, r.gather.depth⟩).read extra cs) := by
  -- the tokens are those of the body alone; its last line end is then split
  -- off, since only there a text that follows cannot change what was read
  obtain ⟨r', hm', h⟩ := hb.skim [] (by simp) r hm hd
  obtain ⟨texts, hlen, hread⟩ := h.tokens
  obtain ⟨a, rfl⟩ := List.getLast?_eq_some_iff.mp hl
  have hsplit : ∀ cs, r.read extra (a ++ ['\n'] ++ cs)
      = prepend ((r.read extra a).2 ++ (r.read extra a).1.lineEnd extra)
          ((r.read extra a).1.nextLine.read extra cs) := by
    intro cs
    rw [List.append_assoc]
    exact r.read_append_newline extra a cs
  have hnil := hsplit []
  rw [hread, Reader.read_nil, Reader.read_nil] at hnil
  have hr' : r' = (r.read extra a).1.nextLine := congrArg Prod.fst hnil
  have hstart : r' = Reader.atLine (r.line + (a ++ ['\n']).count '\n')
      ⟨.code, r.gather.depth⟩ := by
    rw [← h.line, ← h.depth, ← hm', hr']
    rfl
  have htokens : lineEnds r.line texts
      = (r.read extra a).2 ++ (r.read extra a).1.lineEnd extra := by
    simpa using congrArg Prod.snd hnil
  refine ⟨texts, hlen, fun cs => ?_⟩
  rw [hsplit cs, ← htokens, ← hr', hstart]

/-- The lines of a body that starts and ends with a line end: the first line
    end closes the line that the body starts on. -/
theorem Body.read_lines {b : List Char} (hb : Body b)
    (hf : b.head? = some '\n') (hl : b.getLast? = some '\n') {r : Reader}
    (hm : r.mode = .code) (hd : r.gather.Deep) :
    ∃ texts : List (List Char), texts.length + 1 = b.count '\n' ∧
      ∀ cs, r.read extra (b ++ cs)
        = prepend (r.lineEnd extra ++ lineEnds (r.line + 1) texts)
            ((Reader.atLine (r.line + b.count '\n')
              ⟨.code, r.gather.depth⟩).read extra cs) := by
  obtain ⟨b, rfl⟩ := List.head?_eq_some_iff.mp hf
  have hm1 : r.nextLine.mode = .code := by rw [Reader.nextLine, hm]; rfl
  have hstart : r.nextLine
      = Reader.atLine (r.line + 1) ⟨.code, r.gather.depth⟩ := by
    rw [← hm1]
    rfl
  by_cases hnil : b = []
  · -- the first line end is the last one as well
    subst hnil
    refine ⟨[], rfl, fun cs => ?_⟩
    rw [lineEnds, List.append_nil]
    show _ = prepend _ ((Reader.atLine (r.line + 1) _).read extra cs)
    rw [← hstart]
    exact r.read_newline extra cs
  · have hl' : b.getLast? = some '\n' := by
      rw [← hl, List.getLast?_cons]
      cases hb' : b.getLast? with
      | none => exact absurd (List.getLast?_eq_none_iff.mp hb') hnil
      | some d => rfl
    obtain ⟨texts, hlen, hread⟩ :=
      hb.of_newline.read_last hl' hm1 ⟨hd.depth, rfl⟩
    refine ⟨texts, by rw [hlen, List.count_cons_self], fun cs => ?_⟩
    have hline : r.line + ('\n' :: b).count '\n'
        = r.nextLine.line + b.count '\n' := by
      rw [List.count_cons_self]
      show _ = r.line + 1 + _
      omega
    rw [List.cons_append, Reader.read_newline, hread, prepend_prepend, hline]
    rfl

end

end JavaOutline
