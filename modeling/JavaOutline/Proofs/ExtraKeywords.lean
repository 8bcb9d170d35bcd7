import JavaOutline.Proofs.Conservation

/-! # Further keywords

    A caller may name further words that count as keywords.  They change how a word
    is tagged and nothing else: where words begin and end, and which text is code, is
    decided by characters alone.

      * `Gather.step_retag` says so of one piece, `LineStart.lineBody_retag` of a line.
      * The tokens under further keywords are those without them, retagged
        (`tokenize_retag`).
      * So only the words of the source that are no keywords anyway matter. -/

namespace JavaOutline

open Source

/-- A symbol among the `extra` words as a keyword; every other token as it is. -/
def Token.retag (extra : List String) (t : Token) : Token :=
  { t with kind := if t.kind = .symbol ∧ t.text ∈ extra then .keyword else t.kind }

/-- The tokens that are words. -/
def TokenKind.isWord : TokenKind → Bool
  | .keyword => true
  | .symbol => true
  | _ => false

/-- The words of a list of tokens. -/
def wordTexts (ts : List Token) : List String :=
  (ts.filter fun t => t.kind.isWord).map Token.text

namespace Token

variable {extra other : List String} {t : Token}

theorem retag_of_ne (h : t.kind ≠ .symbol) : t.retag extra = t := by
  rw [retag, if_neg fun hs => h hs.1]

theorem retag_ofWord (extra : List String) (n : Nat) (w : String) :
    (ofWord [] n w).retag extra = ofWord extra n w := by
  rw [ofWord, ofWord]
  cases hw : Keyword.isKeyword [] w with
  | true =>
      have hextra : Keyword.isKeyword extra w = true := by
        simp only [Keyword.isKeyword, Bool.or_eq_true] at hw ⊢
        exact .inl (hw.resolve_right (by simp))
      rw [hextra]
      exact retag_of_ne (by simp)
  | false =>
      have hextra : Keyword.isKeyword extra w = extra.contains w := by
        simp only [Keyword.isKeyword, Bool.or_eq_false_iff] at hw
        rw [Keyword.isKeyword, hw.1.1.1, hw.1.1.2, hw.1.2]
        rfl
      rw [hextra, retag]
      simp

theorem retag_eq_iff : t.retag extra = t.retag other
    ↔ (t.kind = .symbol → (t.text ∈ extra ↔ t.text ∈ other)) := by
  by_cases hs : t.kind = .symbol
  · by_cases h1 : t.text ∈ extra <;> by_cases h2 : t.text ∈ other <;>
      simp [retag, hs, h1, h2]
  · rw [retag_of_ne hs, retag_of_ne hs]
    exact ⟨fun _ h => absurd h hs, fun _ => rfl⟩

end Token

/-! ## From pieces to sources -/

namespace Gather

variable (extra : List String) (n : Nat) (g : Gather)

theorem wordToken_retag :
    (g.wordToken [] n).map (Token.retag extra) = g.wordToken extra n := by
  rw [wordToken, wordToken]
  split
  · rfl
  · rw [List.map_singleton, Token.retag_ofWord]

theorem delimiter_retag {kind : TokenKind} (hk : kind ≠ .symbol) (text : String) :
    (g.delimiter [] n kind text).2.map (Token.retag extra)
      = (g.delimiter extra n kind text).2 := by
  rw [delimiter, delimiter]
  split
  · rw [List.map_append, wordToken_retag, List.map_singleton, Token.retag_of_ne hk]
  · rfl

theorem mark_retag (w : List Char) :
    (g.mark [] n w).2.map (Token.retag extra) = (g.mark extra n w).2 := by
  rw [mark, mark, List.map_append, wordToken_retag]
  split
  · rw [List.map_singleton, Token.retag_ofWord]
  · rfl

theorem code_retag (c : Char) :
    (g.code [] n c).2.map (Token.retag extra) = (g.code extra n c).2 := by
  rw [code, code]
  cases hrole : CodeRole.of c with
  | openAngle | closeAngle | plain => rfl
  | blank =>
      dsimp only
      split
      · exact g.wordToken_retag extra n
      · rfl
  | comma =>
      dsimp only
      split
      · exact g.delimiter_retag extra n (by decide) ","
      · rfl
  | delimiter kind =>
      have hdelimiter := isDelimiter_of_delimiterKind?
        (CodeRole.delimiterKind?_of_delimiter hrole)
      refine g.delimiter_retag extra n ?_ _
      rintro rfl
      cases hdelimiter
  | openBrace => exact g.delimiter_retag extra n (by decide) _
  | closeBrace => exact g.wordToken_retag extra n

/-- One piece: the two readings make the same words. -/
theorem step_retag (p : Piece) :
    (g.step [] n p).2.map (Token.retag extra) = (g.step extra n p).2 := by
  cases p with
  | opener o => exact g.mark_retag extra n o.text
  | closer => exact g.mark_retag extra n Piece.closer.text
  | code c => exact g.code_retag extra n c
  | comment c =>
      rw [step, step]
      split
      · exact g.wordToken_retag extra n
      · rfl
  | literal c => rfl

/-- All pieces of a line. -/
theorem steps_retag (ps : List Piece) :
    (g.steps [] n ps).2.map (Token.retag extra) = (g.steps extra n ps).2 := by
  induction ps generalizing g with
  | nil => rfl
  | cons p ps ih =>
      -- both readings go on from the same place
      have hsame : (g.step [] n p).1 = (g.step extra n p).1 := g.step_fst [] extra n n p
      rw [steps, steps, List.map_append, step_retag, ih, hsame]

end Gather

theorem LineStart.lineBody_retag (extra : List String) (n : Nat) (s : LineStart)
    (l : List Char) :
    (s.lineBody [] n l).map (Token.retag extra) = s.lineBody extra n l := by
  have hsame := Gather.steps_fst [] extra n n ⟨s.depth, 0, []⟩ (pieces s.mode l).1
  rw [lineBody, lineBody, Gather.run_eq_steps, Gather.run_eq_steps, List.map_append,
    Gather.steps_retag, Gather.wordToken_retag, hsame]

theorem lineTokens_retag (extra : List String) (n : Nat) (s : LineStart)
    (ls : List (List Char)) :
    (lineTokens [] n s ls).map (Token.retag extra) = lineTokens extra n s ls := by
  induction ls generalizing n s with
  | nil => rfl
  | cons l ls ih =>
      have hnumber : (Token.lineNumber n).retag extra = Token.lineNumber n :=
        Token.retag_of_ne (show TokenKind.lineNumber ≠ .symbol by decide)
      have hsign : (Token.sign n l).retag extra = Token.sign n l :=
        Token.retag_of_ne (show TokenKind.sign ≠ .symbol by decide)
      rw [lineTokens, lineTokens, List.map_append, List.map_cons, List.map_cons,
        LineStart.lineBody_retag, ih, hnumber, hsign]

theorem tokenize_retag (source : String) (extra : List String) :
    (tokenize source []).map (Token.retag extra) = tokenize source extra :=
  lineTokens_retag extra 1 {} (lines source.toList)

/-! ## Words that matter -/

/-- A word of a source is a symbol just if it is no keyword. -/
theorem kind_eq_symbol_iff {source : String} {t : Token} (ht : t ∈ tokenize source []) :
    t.kind = .symbol ↔ t.kind.isWord = true ∧ Keyword.isKeyword [] t.text = false := by
  rcases tokenize_onLine source [] t ht with hline | ⟨n, hon⟩
  · cases hk : t.kind with
    | lineNumber | sign => simp [TokenKind.isWord]
    | _ =>
        rw [hk] at hline
        cases hline
  · cases hon with
    | word w =>
        rw [Token.ofWord]
        cases hw : Keyword.isKeyword [] w <;> simp [TokenKind.isWord]
    | @delimiter c kind hk =>
        have hdelimiter := isDelimiter_of_delimiterKind? hk
        cases kind with
        | keyword | symbol => cases hdelimiter
        | _ => simp [TokenKind.isWord]

/-- **FURTHER KEYWORDS ONLY RETAG WORDS.**  The tokens of a source under further
    keywords are its tokens without them, one by one, with the same texts and lines;
    the symbols among the further keywords have become keywords, and no other token has
    changed its kind.  Two lists of further keywords give the same tokens just if they
    agree on the words of the source that are no keywords anyway.  So neither their
    order nor their repetitions count, nor what is a keyword already or no word of the
    source. -/
theorem tokenize_further_keywords (source : String) (extra : List String) :
    tokenize source extra = (tokenize source []).map (Token.retag extra)
      ∧ ∀ other, tokenize source extra = tokenize source other
          ↔ ∀ w ∈ wordTexts (tokenize source []), Keyword.isKeyword [] w = false →
              (w ∈ extra ↔ w ∈ other) := by
  refine ⟨(tokenize_retag source extra).symm, fun other => ?_⟩
  rw [← tokenize_retag source extra, ← tokenize_retag source other, List.map_inj_left]
  constructor
  · intro hsame w hw hplain
    obtain ⟨t, ht, rfl⟩ := List.mem_map.mp hw
    obtain ⟨ht, hword⟩ := List.mem_filter.mp ht
    exact Token.retag_eq_iff.mp (hsame t ht) ((kind_eq_symbol_iff ht).mpr ⟨hword, hplain⟩)
  · intro hagree t ht
    refine Token.retag_eq_iff.mpr fun hsymbol => ?_
    obtain ⟨hword, hplain⟩ := (kind_eq_symbol_iff ht).mp hsymbol
    exact hagree t.text (List.mem_map.mpr ⟨t, List.mem_filter.mpr ⟨ht, hword⟩, rfl⟩) hplain

/-- The marks of comments are words like others. -/
example : (tokenize "x /* int */" ["*/", "int", "if", "int"]).map Token.kind
    = [.lineNumber, .symbol, .symbol, .keyword, .keyword, .sign] := by decide +kernel

end JavaOutline
