import JavaOutline.Proofs.Layout
import JavaOutline.Proofs.Signatures

/-! # Reading literals

    A closed literal is a string, a character or a text block.  The reader takes
    every line of it as one word, blanks and delimiters included: apart from the
    texts of lines, the tokens of a literal are its lines, with the numbers of
    the lines between them (`Literal.read`).

    What comes after a literal does not depend on what stood in it, since a
    reader's text shows in the texts of lines only (`Reader.spoken_tokens`). -/

namespace JavaOutline

open Source

/-! ## Closed literals -/

/-- The rest of a text block, with its closing mark: the mark does not stand
    earlier, unless a backslash escapes one of its quotes. -/
inductive ClosesBlock : List Char → Prop where
  | mark : ClosesBlock ['"', '"', '"']
  | char {c : Char} {s : List Char} (hb : c ≠ '\\')
      (hq : c = '"' → ¬ ['"', '"'] <+: s) : ClosesBlock s → ClosesBlock (c :: s)
  | escape {c : Char} {s : List Char} :
      ClosesBlock s → ClosesBlock ('\\' :: c :: s)

/-- The kinds of literal that may hold any text. -/
inductive LiteralKind where
  | string
  | character
  | textBlock
  deriving DecidableEq, Repr

/-- A closed literal of the given kind. -/
inductive Literal : LiteralKind → List Char → Prop where
  | string {s : List Char} (hs : LiteralText '"' s) :
      Literal .string ('"' :: (s ++ ['"']))
  | character {s : List Char} (hs : LiteralText '\'' s) :
      Literal .character ('\'' :: (s ++ ['\'']))
  | textBlock {s : List Char} (hs : ClosesBlock s) :
      Literal .textBlock ('"' :: '"' :: '"' :: s)

theorem ClosesBlock.length {s : List Char} (h : ClosesBlock s) :
    3 ≤ s.length := by
  induction h with
  | mark => decide
  | char _ _ _ ih =>
      rw [List.length_cons]
      omega
  | escape _ ih =>
      rw [List.length_cons, List.length_cons]
      omega

/-- A quote in a text block that does not start its closing mark. -/
theorem Source.bite_blockQuote {cs : List Char} (h : ¬ ['"', '"'] <+: cs) :
    bite .textBlock '"' cs = ⟨[.literal '"'], .textBlock, cs⟩ := by
  by_cases hnl : cs.head? = some '\n'
  · obtain ⟨r, rfl⟩ := List.head?_eq_some_iff.mp hnl
    rw [bite_newline]
    rfl
  · rw [bite_eq_cut (fun _ hm => by cases hm) hnl, cut.eq_20]
    · intro d r hc
      exact absurd hc (by decide)
    · rintro r - rfl
      exact h ⟨r, rfl⟩

/-! ## The lines of a literal -/

namespace Source

theorem exists_lines (s : List Char) : ∃ l ls, lines s = l :: ls := by
  cases s with
  | nil => exact ⟨[], [], rfl⟩
  | cons c s =>
      rw [lines]
      split
      · exact ⟨[], lines s, rfl⟩
      · split
        · exact ⟨[c], [], rfl⟩
        · exact ⟨_, _, rfl⟩

/-- A character goes on the first line. -/
theorem lines_cons {c : Char} (hc : c ≠ '\n') {s l : List Char}
    {ls : List (List Char)} (h : lines s = l :: ls) :
    lines (c :: s) = (c :: l) :: ls := by
  rw [lines, if_neg hc, h]

theorem lines_newline (s : List Char) : lines ('\n' :: s) = [] :: lines s := by
  rw [lines, if_pos rfl]

end Source

namespace Reader

/-- The reader after the lines `l :: ls` of a literal, and the tokens of the
    lines that end in it. -/
def spellLines (extra : List String) (r : Reader) (l : List Char) :
    List (List Char) → Reader × List Token
  | [] => (r.spell .code l, [])
  | k :: ks =>
    prepend ((r.spell .textBlock l).lineEnd extra)
      ((r.spell .textBlock l).nextLine.spellLines extra k ks)

variable {extra : List String}

/-- A line may be read in parts. -/
theorem spellLines_spell (r : Reader) (v l : List Char) (ls : List (List Char)) :
    (r.spell .textBlock v).spellLines extra l ls
      = r.spellLines extra (v ++ l) ls := by
  cases ls with
  | nil => rw [spellLines, spell_spell, spellLines]
  | cons k ks => rw [spellLines, spell_spell, spellLines]

/-- A line end inside a text block. -/
theorem read_spellLines_newline {r : Reader} (hm : r.mode = .textBlock)
    {s cs l : List Char} {ls : List (List Char)}
    (h : r.nextLine.read extra (s ++ cs)
      = prepend (r.nextLine.spellLines extra l ls).2
          ((r.nextLine.spellLines extra l ls).1.read extra cs)) :
    r.read extra ('\n' :: (s ++ cs))
      = prepend (r.spellLines extra [] (l :: ls)).2
          ((r.spellLines extra [] (l :: ls)).1.read extra cs) := by
  have hnil : r.spell .textBlock [] = r := by
    rw [spell, ← hm]
    rfl
  rw [read_newline, h, prepend_prepend, spellLines, hnil]
  rfl

/-- The rest of a text block. -/
theorem read_closesBlock {s : List Char} (hs : ClosesBlock s) :
    ∀ {r : Reader}, r.mode = .textBlock → r.gather.capturing = true →
      ∀ (cs : List Char) {l : List Char} {ls : List (List Char)},
        lines s = l :: ls →
        r.read extra (s ++ cs)
          = prepend (r.spellLines extra l ls).2
              ((r.spellLines extra l ls).1.read extra cs) := by
  induction hs with
  | mark =>
      intro r hm hg cs l ls hl
      obtain ⟨rfl, rfl⟩ := List.cons.inj hl
      exact read_literal extra ['"', '"'] cs hg (by decide) (by rw [hm]; rfl)
  | @char c s hb hq hs ih =>
      intro r hm hg cs l ls hl
      by_cases hc : c = '\n'
      · subst hc
        obtain ⟨k, ks, hk⟩ := exists_lines s
        rw [lines_newline, hk] at hl
        obtain ⟨rfl, rfl⟩ := List.cons.inj hl
        apply read_spellLines_newline hm
        have hnext : r.nextLine.mode = .textBlock := by
          show r.mode.nextLine = _
          rw [hm]
          rfl
        exact ih hnext hg cs hk
      · obtain ⟨k, ks, hk⟩ := exists_lines s
        rw [lines_cons hc hk] at hl
        obtain ⟨rfl, rfl⟩ := List.cons.inj hl
        have hbite : bite r.mode c (s ++ cs) = ⟨[.literal c], .textBlock, s ++ cs⟩ := by
          rw [hm]
          by_cases hquote : c = '"'
          · subst hquote
            apply bite_blockQuote
            intro hmark
            refine hq rfl (List.prefix_of_prefix_length_le hmark
              (List.prefix_append s cs) ?_)
            exact Nat.le_of_lt hs.length
          · exact bite_textBlock hquote hb _
        have hread : r.read extra (c :: (s ++ cs))
            = (r.spell .textBlock [c]).read extra (s ++ cs) :=
          read_literal extra [] (s ++ cs) hg hc hbite
        rw [List.cons_append, hread, ih (r := r.spell .textBlock [c]) rfl hg cs hk,
          spellLines_spell]
        rfl
  | @escape c s hs ih =>
      intro r hm hg cs l ls hl
      obtain ⟨k, ks, hk⟩ := exists_lines s
      by_cases hc : c = '\n'
      · -- the line ends all the same
        subst hc
        rw [lines_cons (by decide) (lines_newline s), hk] at hl
        obtain ⟨rfl, rfl⟩ := List.cons.inj hl
        have hread : r.read extra ('\\' :: '\n' :: (s ++ cs))
            = (r.spell .textBlock ['\\']).read extra ('\n' :: (s ++ cs)) :=
          read_literal extra [] _ hg (by decide)
            (by rw [hm]; exact bite_escape_newline _)
        rw [List.cons_append, List.cons_append, hread]
        have hrest := read_spellLines_newline (r := r.spell .textBlock ['\\']) rfl
          (ih (r := (r.spell .textBlock ['\\']).nextLine) rfl hg cs hk)
        rw [hrest, spellLines_spell]
        rfl
      · rw [lines_cons (by decide) (lines_cons hc hk)] at hl
        obtain ⟨rfl, rfl⟩ := List.cons.inj hl
        have hread : r.read extra ('\\' :: c :: (s ++ cs))
            = (r.spell .textBlock ['\\', c]).read extra (s ++ cs) :=
          read_literal extra [c] _ hg (by decide)
            (by rw [hm]; exact bite_escape rfl hc _)
        rw [List.cons_append, List.cons_append, hread,
          ih (r := r.spell .textBlock ['\\', c]) rfl hg cs hk, spellLines_spell]
        rfl

end Reader

theorem LiteralText.not_mem_newline {q : Char} {s : List Char}
    (h : LiteralText q s) : '\n' ∉ s := by
  induction h with
  | nil => exact List.not_mem_nil
  | char _ _ hn _ ih => simp [ih, Ne.symm hn]
  | escape hn _ ih => simp [ih, Ne.symm hn]

/-- **A literal is read line by line**, each line as one word. -/
theorem Literal.read {kind : LiteralKind} {lit : List Char}
    (h : Literal kind lit) (extra : List String) {r : Reader} {d : Nat} (hr : r.Level d)
    (hd : d < bodyDepth) {cs : List Char} (hcs : Inert cs) {l : List Char}
    {ls : List (List Char)} (hl : lines lit = l :: ls) :
    r.read extra (lit ++ cs)
      = prepend (r.spellLines extra l ls).2
          ((r.spellLines extra l ls).1.read extra cs) := by
  have hg := hr.capturing hd
  cases h with
  | @string s hs =>
      have hline : '\n' ∉ '"' :: (s ++ ['"']) := by
        simp [hs.not_mem_newline]
      rw [lines_of_not_mem hline] at hl
      obtain ⟨rfl, rfl⟩ := List.cons.inj hl
      exact Reader.read_wordForm (.string hs) hr.mode hg hr.angle hcs.not_quote
  | @character s hs =>
      have hline : '\n' ∉ '\'' :: (s ++ ['\'']) := by
        simp [hs.not_mem_newline]
      rw [lines_of_not_mem hline] at hl
      obtain ⟨rfl, rfl⟩ := List.cons.inj hl
      have hopen : r.read extra ('\'' :: (s ++ '\'' :: cs))
          = (r.spell .character ['\'']).read extra (s ++ '\'' :: cs) :=
        Reader.read_literal extra [] _ hg (by decide)
          (by rw [hr.mode]; exact bite_apostrophe _)
      have hrest : (r.spell .character ['\'']).read extra (s ++ '\'' :: cs) = _ :=
        Reader.read_literalText .character hs (r := r.spell .character ['\'']) rfl hg cs
      rw [List.cons_append, List.append_assoc]
      show r.read extra ('\'' :: (s ++ '\'' :: cs)) = _
      rw [hopen, hrest, Reader.spell_spell]
      rfl
  | @textBlock s hs =>
      obtain ⟨k, ks, hk⟩ := exists_lines s
      rw [lines_cons (by decide) (lines_cons (by decide)
        (lines_cons (by decide) hk))] at hl
      obtain ⟨rfl, rfl⟩ := List.cons.inj hl
      have hopen : r.read extra ('"' :: '"' :: '"' :: (s ++ cs))
          = (r.spell .textBlock ['"', '"', '"']).read extra (s ++ cs) :=
        Reader.read_literal extra ['"', '"'] _ hg (by decide)
          (by rw [hr.mode]; rfl)
      have hrest : (r.spell .textBlock ['"', '"', '"']).read extra (s ++ cs) = _ :=
        Reader.read_closesBlock hs (r := r.spell .textBlock ['"', '"', '"']) rfl hg cs hk
      rw [Reader.spellLines_spell] at hrest
      exact hopen.trans hrest

/-! ## The tokens of a literal -/

/-- The tokens of the lines `l :: ls`, each of them one word: the first line
    has the number `n`. -/
def lineWords (extra : List String) (n : Nat) (l : List Char) :
    List (List Char) → List Token
  | [] => (Gather.mk 0 0 l.reverse).wordToken extra n
  | k :: ks =>
    (Gather.mk 0 0 l.reverse).wordToken extra n
      ++ Token.lineNumber (n + 1) :: lineWords extra (n + 1) k ks

namespace Reader

variable {extra : List String}

/-- Where the reader stands after the lines of a literal. -/
theorem spellLines_level (extra : List String) {d : Nat} {r : Reader}
    (hd : r.gather.depth = d) (ha : r.gather.angle = 0) (l : List Char) (ls : List (List Char)) :
    (r.spellLines extra l ls).1.Level d
      ∧ (r.spellLines extra l ls).1.line = r.line + ls.length := by
  induction ls generalizing r l with
  | nil => exact ⟨⟨rfl, hd, ha⟩, rfl⟩
  | cons k ks ih =>
      obtain ⟨hlevel, hline⟩ :=
        ih (r := (r.spell .textBlock l).nextLine) hd rfl k
      refine ⟨hlevel, hline.trans ?_⟩
      show r.line + 1 + ks.length = r.line + (ks.length + 1)
      omega

theorem spoken_wordToken (extra : List String) (n : Nat) (g : Gather) :
    spoken (g.wordToken extra n) = g.wordToken extra n :=
  spoken_of_not_line fun t ht =>
    (Gather.wordToken_onLine extra n g t ht).inLine.not_line

theorem spoken_close (extra : List String) (r : Reader) :
    spoken (r.close extra) = r.gather.wordToken extra r.line := by
  rw [close, spoken_append, spoken_wordToken, spoken_cons_sign rfl]
  exact List.append_nil _

theorem spoken_lineEnd (extra : List String) (r : Reader) :
    spoken (r.lineEnd extra)
      = r.gather.wordToken extra r.line ++ [Token.lineNumber (r.line + 1)] := by
  rw [lineEnd, spoken_append, spoken_close]
  rfl

/-- A line that is all one word. -/
theorem wordToken_spell {r : Reader} (hw : r.gather.word = []) (m : Mode)
    (l : List Char) (n : Nat) :
    (r.spell m l).gather.wordToken extra n
      = (Gather.mk 0 0 l.reverse).wordToken extra n := by
  simp only [Gather.wordToken, spell, hw, List.append_nil]

/-- The tokens of a literal, its last word included. -/
theorem spoken_spellLines {r : Reader} (hw : r.gather.word = []) (l : List Char)
    (ls : List (List Char)) :
    spoken (r.spellLines extra l ls).2
        ++ (r.spellLines extra l ls).1.gather.wordToken extra
            (r.spellLines extra l ls).1.line
      = lineWords extra r.line l ls := by
  induction ls generalizing r l with
  | nil => exact wordToken_spell hw .code l r.line
  | cons k ks ih =>
      have hrest := ih (r := (r.spell .textBlock l).nextLine) rfl k
      rw [spellLines, prepend_fst, prepend_snd, spoken_append, spoken_lineEnd,
        List.append_assoc, List.append_assoc, hrest]
      exact congrArg (· ++ _) (wordToken_spell hw .textBlock l r.line)

/-! ## After a literal -/

/-- What a reader has read of its line shows in the text of the line only. -/
theorem read_text (extra : List String) (r : Reader) (x cs : List Char) :
    ∃ y, (Reader.read extra { r with text := x } cs).1
          = { (r.read extra cs).1 with text := y }
      ∧ spoken (Reader.read extra { r with text := x } cs).2
          = spoken (r.read extra cs).2 := by
  fun_induction read extra r cs generalizing x with
  | case1 r => exact ⟨x, by rw [read_nil], by rw [read_nil]⟩
  | case2 r cs ih =>
      -- the next line starts afresh
      have hread : Reader.read extra { r with text := x } ('\n' :: cs)
          = prepend (lineEnd extra { r with text := x }) (r.nextLine.read extra cs) :=
        read_newline extra { r with text := x } cs
      refine ⟨(r.nextLine.read extra cs).1.text, by rw [hread]; rfl, ?_⟩
      rw [hread, prepend_snd, prepend_snd, spoken_append, spoken_append,
        spoken_lineEnd, spoken_lineEnd]
  | case3 r c cs hc k ih =>
      have hread : Reader.read extra { r with text := x } (c :: cs)
          = prepend (r.gather.steps extra r.line k.pieces).2
              (Reader.read extra { r.take extra k with
                text := (k.pieces.flatMap Piece.text).reverse ++ x } k.rest) :=
        read_cons extra { r with text := x } hc cs
      obtain ⟨y, hfst, hsnd⟩ := ih ((k.pieces.flatMap Piece.text).reverse ++ x)
      refine ⟨y, by rw [hread]; exact hfst, ?_⟩
      rw [hread, prepend_snd, prepend_snd, spoken_append, spoken_append, hsnd]

theorem spoken_tokens (extra : List String) (r : Reader) (x cs : List Char) :
    spoken (Reader.tokens extra { r with text := x } cs)
      = spoken (r.tokens extra cs) := by
  obtain ⟨y, hfst, hsnd⟩ := read_text extra r x cs
  rw [tokens, tokens, spoken_append, spoken_append, hsnd, hfst, spoken_close,
    spoken_close]

/-- The tokens of a literal, a semicolon and what follows: the lines of the
    literal, the semicolon, and tokens that do not depend on the literal but for
    its number of lines. -/
theorem spoken_tokens_literal {kind : LiteralKind} {lit : List Char}
    (h : Literal kind lit) {r : Reader} {d : Nat} (hr : r.Level d)
    (hd : d < bodyDepth) (hw : r.gather.word = []) {l : List Char}
    {ls : List (List Char)} (hl : lines lit = l :: ls) (q : List Char) :
    spoken (r.tokens extra (lit ++ ';' :: q))
      = lineWords extra r.line l ls
        ++ ⟨.statementEnd, ";", r.line + ls.length⟩
        :: spoken (Reader.tokens extra
            { line := r.line + ls.length, gather := { depth := d } } q) := by
  obtain ⟨hlevel, hline⟩ :=
    spellLines_level extra hr.depth hr.angle l ls
  have hinert : Inert (';' :: q) :=
    inert_cons (by decide) (by decide) (by decide)
  have hlit := h.read extra hr hd hinert hl
  rw [← spoken_spellLines hw, tokens_of_read hlit, spoken_append]
  generalize r.spellLines extra l ls = x at hlevel hline ⊢
  have hcode : x.1.gather.code extra x.1.line ';'
      = ({ depth := d }, x.1.gather.wordToken extra x.1.line
          ++ [⟨.statementEnd, ";", x.1.line⟩]) := by
    show x.1.gather.delimiter extra x.1.line .statementEnd ";" = _
    rw [Gather.delimiter_capturing (hlevel.capturing hd), Gather.closeAngles,
      Gather.clear, hlevel.depth]
  have hread := read_code extra hlevel.mode (c := ';') (by decide) (by decide)
    (by decide) (by decide) q
  have hrest : x.1.code extra ';'
      = { ({ line := r.line + ls.length, gather := { depth := d } } : Reader) with
          text := ';' :: x.1.text } := by
    rw [code, hcode, ← hline, ← hlevel.mode]
  rw [tokens_of_read hread, hcode, hrest, spoken_append, spoken_append,
    spoken_wordToken, spoken_tokens, hline, List.append_assoc, List.append_assoc]
  rfl

end Reader

end JavaOutline
