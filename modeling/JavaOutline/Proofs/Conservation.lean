import JavaOutline.Proofs.LineMarks

/-! # No character is lost

    `scan` goes through a source by itself.  It keeps track of comments,
    literals and braces only, knows nothing of words or tokens, and tells of
    every character whether it is ordinary text and at which depth of braces
    it stands.

    The words and delimiters of the source spell exactly the characters that
    the scan finds where words count, blanks, line ends and closing braces
    aside, each once and in order.  The argument is an account that is kept
    from step to step: what the tokens of a step show, with the word under
    construction after it, is the word before it with the characters of the
    step (`Gather.Accounts`). -/

namespace JavaOutline

open Source

/-! ## Scanning a source -/

/-- A character of a source and where it stands. -/
structure Spot where
  char : Char
  /-- It is ordinary text, outside comments and literals. -/
  inCode : Bool
  /-- The number of braces that are open before it. -/
  depth : Nat
  deriving DecidableEq, Repr

/-- Where the characters of a text stand that starts in mode `m` at depth `d`.
    Braces count in ordinary text only; a comment or a literal on one line ends
    with its line at the latest. -/
def scan : Mode → Nat → List Char → List Spot
  | _, _, [] => []
  | .code, d, '/' :: '/' :: cs =>
    ⟨'/', false, d⟩ :: ⟨'/', false, d⟩ :: scan .lineComment d cs
  | .code, d, '/' :: '*' :: cs =>
    ⟨'/', false, d⟩ :: ⟨'*', false, d⟩ :: scan .blockComment d cs
  | .code, d, '"' :: '"' :: '"' :: cs =>
    ⟨'"', false, d⟩ :: ⟨'"', false, d⟩ :: ⟨'"', false, d⟩ :: scan .textBlock d cs
  | .code, d, '"' :: cs => ⟨'"', false, d⟩ :: scan .string d cs
  | .code, d, '\'' :: cs => ⟨'\'', false, d⟩ :: scan .character d cs
  | .code, d, '{' :: cs => ⟨'{', true, d⟩ :: scan .code (d + 1) cs
  | .code, d, '}' :: cs => ⟨'}', true, d⟩ :: scan .code (d - 1) cs
  | .code, d, c :: cs => ⟨c, true, d⟩ :: scan .code d cs
  | .lineComment, d, '\n' :: cs => ⟨'\n', false, d⟩ :: scan .code d cs
  | .lineComment, d, c :: cs => ⟨c, false, d⟩ :: scan .lineComment d cs
  | .blockComment, d, '*' :: '/' :: cs =>
    ⟨'*', false, d⟩ :: ⟨'/', false, d⟩ :: scan .code d cs
  | .blockComment, d, c :: cs => ⟨c, false, d⟩ :: scan .blockComment d cs
  | .string, d, '\\' :: c :: cs =>
    ⟨'\\', false, d⟩ :: ⟨c, false, d⟩
      :: scan (if c = '\n' then .code else .string) d cs
  | .string, d, c :: cs =>
    ⟨c, false, d⟩ :: scan (if c = '"' ∨ c = '\n' then .code else .string) d cs
  | .character, d, '\\' :: c :: cs =>
    ⟨'\\', false, d⟩ :: ⟨c, false, d⟩
      :: scan (if c = '\n' then .code else .character) d cs
  | .character, d, c :: cs =>
    ⟨c, false, d⟩
      :: scan (if c = '\'' ∨ c = '\n' then .code else .character) d cs
  | .textBlock, d, '\\' :: c :: cs =>
    ⟨'\\', false, d⟩ :: ⟨c, false, d⟩ :: scan .textBlock d cs
  | .textBlock, d, '"' :: '"' :: '"' :: cs =>
    ⟨'"', false, d⟩ :: ⟨'"', false, d⟩ :: ⟨'"', false, d⟩ :: scan .code d cs
  | .textBlock, d, c :: cs => ⟨c, false, d⟩ :: scan .textBlock d cs

namespace Spot

/-- The character belongs to a token: it stands where words count, and it is
    neither a blank, nor a line end, nor a closing brace of ordinary text. -/
def isKept (s : Spot) : Bool :=
  decide (s.depth < bodyDepth) && s.char != '\n' && !isSeparator s.char
    && !(s.inCode && s.char == '}')

/-- The character is a token of its own, whatever stands around it. -/
def standsAlone (s : Spot) : Bool :=
  s.inCode && (s.char == ';' || s.char == '(' || s.char == ')' || s.char == '{')

end Spot

/-! ### The scan, step by step -/

/-- The spots of a piece of a line. -/
def Source.Piece.spots (d : Nat) : Piece → List Spot
  | .code c => [⟨c, true, d⟩]
  | p => p.text.map fun c => ⟨c, false, d⟩

/-- The depth after a piece. -/
def Source.Piece.depth (d : Nat) : Piece → Nat
  | .code '{' => d + 1
  | .code '}' => d - 1
  | _ => d

def pieceSpots (d : Nat) : List Piece → List Spot
  | [] => []
  | p :: ps => p.spots d ++ pieceSpots (p.depth d) ps

theorem scan_newline (m : Mode) (d : Nat) (cs : List Char) :
    scan m d ('\n' :: cs)
      = ⟨'\n', m == .code, d⟩ :: scan m.nextLine d cs := by
  cases m <;> simp [scan, Mode.nextLine]

/-- Braces move the depth. -/
theorem depth_code (d : Nat) {c : Char} (h1 : c ≠ '{') (h2 : c ≠ '}') :
    (Piece.code c).depth d = d := by
  simp [Piece.depth, h1, h2]

theorem scan_code (d : Nat) {c : Char} {cs : List Char} (h1 : c ≠ '"')
    (h2 : c ≠ '\'') (h3 : ∀ r, c = '/' → cs ≠ '/' :: r)
    (h4 : ∀ r, c = '/' → cs ≠ '*' :: r) :
    scan .code d (c :: cs)
      = ⟨c, true, d⟩ :: scan .code ((Piece.code c).depth d) cs := by
  by_cases ho : c = '{'
  · subst ho
    rfl
  by_cases hcl : c = '}'
  · subst hcl
    rfl
  rw [depth_code d ho hcl]
  simp_all [scan]

/-- A step of the reader that sees no line end. -/
theorem scan_cut (m : Mode) (d : Nat) {c : Char} {cs : List Char} (hc : c ≠ '\n')
    (hcs : cs.head? ≠ some '\n') :
    scan m d (c :: cs)
      = pieceSpots d (cut m c cs).pieces
        ++ scan (cut m c cs).mode ((cut m c cs).pieces.foldl Piece.depth d)
            (cut m c cs).rest := by
  fun_cases cut m c cs with
  | case8 c cs h1 h2 h3 h4 h5 h6 h7 =>
      rw [scan_code d h6 h7 h1 h4]
      rfl
  | _ =>
      simp_all [scan, pieceSpots, Piece.spots, Piece.depth, Piece.text,
        Opener.text, textBlockQuotes]

/-- A step of the reader that is stopped by a line end. -/
theorem scan_cut_newline (m : Mode) (d : Nat) {c : Char} (hc : c ≠ '\n')
    (r : List Char) :
    scan m d (c :: '\n' :: r)
      = pieceSpots d (cut m c []).pieces
        ++ scan (cut m c []).mode ((cut m c []).pieces.foldl Piece.depth d)
            ('\n' :: r) := by
  generalize hl : ([] : List Char) = l
  fun_cases cut m c l with
  | case8 c l h1 h2 h3 h4 h5 h6 h7 =>
      rw [scan_code d h6 h7 (by simp) (by simp)]
      rfl
  | case14 c l | case17 c l | case20 c l =>
      -- a backslash escapes the line end, which ends the line all the same
      by_cases hb : c = '\\' <;>
        simp_all [scan, pieceSpots, Piece.spots, Piece.depth, Piece.text]
  | _ =>
      simp_all [scan, pieceSpots, Piece.spots, Piece.depth, Piece.text]

/-- A step of the reader, as the scan sees it. -/
theorem scan_bite (m : Mode) (d : Nat) {c : Char} (hc : c ≠ '\n') (cs : List Char) :
    scan m d (c :: cs)
      = pieceSpots d (bite m c cs).pieces
        ++ scan (bite m c cs).mode
            ((bite m c cs).pieces.foldl Piece.depth d) (bite m c cs).rest := by
  fun_cases bite m c cs with
  | case1 r => rfl
  | case2 m c r => exact scan_cut_newline m d hc r
  | case3 m c cs _ h =>
      apply scan_cut m d hc
      intro hcs
      obtain ⟨r, rfl⟩ := List.head?_eq_some_iff.mp hcs
      exact h r rfl

/-- The scan goes through the text once. -/
theorem scan_chars (m : Mode) (d : Nat) (cs : List Char) :
    (scan m d cs).map Spot.char = cs := by
  fun_induction scan m d cs <;> simp_all

/-! ## What tokens show -/

/-- A character that a token shows, and whether the token is nothing else. -/
structure Glyph where
  char : Char
  alone : Bool
  deriving DecidableEq, Repr

/-- The kinds of the delimiters that no type argument takes up. -/
def TokenKind.standsAlone : TokenKind → Bool
  | .paramStart | .paramEnd | .statementEnd => true
  | _ => false

/-- A word without its blanks. -/
def wordGlyphs (alone : Bool) (w : List Char) : List Glyph :=
  (w.filter fun c => !isSeparator c).map fun c => ⟨c, alone⟩

/-- What a token shows of its source; the tokens of lines repeat it. -/
def Token.glyphs (t : Token) : List Glyph :=
  if t.kind.isLine then [] else wordGlyphs t.kind.standsAlone t.text.toList

/-- What is to be shown of a character. -/
def Spot.glyph? (s : Spot) : Option Glyph :=
  if s.isKept then some ⟨s.char, s.standsAlone⟩ else none

theorem wordGlyphs_append (b : Bool) (v w : List Char) :
    wordGlyphs b (v ++ w) = wordGlyphs b v ++ wordGlyphs b w := by
  rw [wordGlyphs, List.filter_append, List.map_append]
  rfl

theorem glyphs_ofWord (extra : List String) (n : Nat) (w : String) :
    (Token.ofWord extra n w).glyphs = wordGlyphs false w.toList := by
  rw [Token.glyphs, Token.ofWord]
  cases Keyword.isKeyword extra w <;> rfl

/-- A delimiter shows itself. -/
theorem glyphs_delimiter {c : Char} {kind : TokenKind} {n : Int}
    (h : delimiterKind? c = some kind) :
    (Token.mk kind (String.singleton c) n).glyphs = [⟨c, kind.standsAlone⟩] := by
  have hline := TokenKind.isLine_of_isDelimiter (isDelimiter_of_delimiterKind? h)
  have hsep : isSeparator c = false := by grind [delimiterKind?, isSeparator]
  simp [Token.glyphs, hline, wordGlyphs, hsep]

/-- What is to be shown of a character of ordinary text, by its role. -/
def CodeRole.glyph? (c : Char) : CodeRole → Option Glyph
  | .blank | .closeBrace => none
  | .delimiter _ | .openBrace => some ⟨c, true⟩
  | _ => some ⟨c, false⟩

theorem CodeRole.standsAlone_of_delimiter {c : Char} {kind : TokenKind}
    (h : CodeRole.of c = .delimiter kind) : kind.standsAlone = true := by
  grind [CodeRole.of, TokenKind.standsAlone]

theorem glyph?_code {c : Char} {d : Nat} (hd : d < bodyDepth) (hc : c ≠ '\n') :
    Spot.glyph? ⟨c, true, d⟩ = (CodeRole.of c).glyph? c := by
  fun_cases CodeRole.of c <;>
    grind [Spot.glyph?, Spot.isKept, Spot.standsAlone, CodeRole.glyph?,
      isSeparator]

/-- Of a comment or a literal everything but blanks is to be shown. -/
theorem glyph?_inert {c : Char} {d : Nat} (hd : d < bodyDepth) (hc : c ≠ '\n') :
    Spot.glyph? ⟨c, false, d⟩
      = if isSeparator c then none else some ⟨c, false⟩ := by
  grind [Spot.glyph?, Spot.isKept, Spot.standsAlone]

theorem filterMap_glyph?_map {w : List Char} {d : Nat} (hd : d < bodyDepth)
    (hw : '\n' ∉ w) :
    (w.map fun c => (⟨c, false, d⟩ : Spot)).filterMap Spot.glyph?
      = wordGlyphs false w := by
  induction w with
  | nil => rfl
  | cons c w ih =>
      rw [List.mem_cons, not_or] at hw
      have hc : c ≠ '\n' := fun h => hw.1 h.symm
      rw [List.map_cons, List.filterMap_cons, glyph?_inert hd hc, ih hw.2]
      cases hs : isSeparator c <;> simp [wordGlyphs, hs]

/-- Of text inside a body nothing is to be shown. -/
theorem glyph?_deep {s : Spot} (h : bodyDepth ≤ s.depth) : s.glyph? = none := by
  rw [Spot.glyph?, Spot.isKept, decide_eq_false (Nat.not_lt.mpr h)]
  rfl

theorem not_separator_of_glyph? {s : Spot} {x : Glyph} (h : s.glyph? = some x) :
    isSeparator s.char = false := by
  cases hs : isSeparator s.char with
  | false => rfl
  | true => simp [Spot.glyph?, Spot.isKept, hs] at h

/-! ## The account of a step -/

namespace Gather

variable {g : Gather}

/-- What the word under construction shows. -/
def shown (g : Gather) : List Glyph := wordGlyphs false g.word.reverse

/-- The tokens of a step and the word after it show the word before it and
    the characters of the step. -/
def Accounts (g : Gather) (ss : List Spot) (x : Gather × List Token) : Prop :=
  x.2.flatMap Token.glyphs ++ x.1.shown = g.shown ++ ss.filterMap Spot.glyph?

@[simp] theorem shown_clear (g : Gather) : g.clear.shown = [] := rfl

@[simp] theorem glyphs_wordToken (extra : List String) (n : Nat) (g : Gather) :
    (g.wordToken extra n).flatMap Token.glyphs = g.shown := by
  rw [Gather.wordToken]
  split
  · next h => rw [Gather.shown, List.isEmpty_iff.mp h]; rfl
  · rw [List.flatMap_singleton, glyphs_ofWord, String.toList_ofList]
    rfl

theorem shown_take (h : g.capturing = true) (c : Char) :
    (g.take c).shown = g.shown ++ wordGlyphs false [c] := by
  rw [shown, take_capturing h, List.reverse_cons, wordGlyphs_append]
  rfl

theorem shown_dropSpace (g : Gather) : g.dropSpace.shown = g.shown := by
  rw [dropSpace]
  split
  · next w hw =>
    rw [shown, shown, hw, List.reverse_cons, wordGlyphs_append]
    exact (List.append_nil _).symm
  · rfl

theorem shown_closeAngle (g : Gather) : g.closeAngle.shown = g.shown := by
  rw [closeAngle]
  split
  · rfl
  · exact shown_dropSpace _

theorem shown_argumentBlank (h : g.capturing = true) :
    g.argumentBlank.shown = g.shown := by
  rw [argumentBlank]
  split
  · rfl
  · rfl
  · rfl
  · rw [shown_take h]
    exact List.append_nil _

theorem capturing_dropSpace (g : Gather) :
    g.dropSpace.capturing = g.capturing := by
  rw [dropSpace]
  split <;> rfl

theorem capturing_closeAngle (g : Gather) :
    g.closeAngle.capturing = g.capturing := by
  rw [closeAngle]
  split
  · rfl
  · exact capturing_dropSpace _

/-- A character that the word takes up. -/
theorem accounts_take {g' : Gather} {s : Spot} (hcap : g'.capturing = true)
    (hw : g'.shown = g.shown) (hs : s.glyph? = some ⟨s.char, false⟩) :
    g.Accounts [s] (g'.take s.char, []) := by
  simp [Accounts, shown_take hcap, hw, hs, wordGlyphs,
    not_separator_of_glyph? hs]

/-- A character that ends the word and is not to be shown. -/
theorem accounts_end {g' : Gather} {s : Spot} (extra : List String) (n : Nat)
    (hw : g'.word = []) (hs : s.glyph? = none) :
    g.Accounts [s] (g', g.wordToken extra n) := by
  simp [Accounts, hs, shown, hw, wordGlyphs]

/-- A character that ends the word and is a token. -/
theorem accounts_delimiter {g' : Gather} {s : Spot} {kind : TokenKind}
    (extra : List String) (n : Nat) (hw : g'.word = [])
    (hk : delimiterKind? s.char = some kind)
    (hs : s.glyph? = some ⟨s.char, kind.standsAlone⟩) :
    g.Accounts [s]
      (g', g.wordToken extra n ++ [⟨kind, String.singleton s.char, n⟩]) := by
  simp [Accounts, glyphs_delimiter hk, hs, shown, hw, wordGlyphs]

/-- Every character of ordinary text is accounted for, where words count. -/
theorem code_accounts (h : g.capturing = true) (extra : List String) (n : Nat)
    {c : Char} (hc : c ≠ '\n') :
    g.Accounts [⟨c, true, g.depth⟩] (g.code extra n c) := by
  have hs := glyph?_code (of_decide_eq_true h) hc
  simp only [code]
  cases hr : CodeRole.of c with
  | openAngle =>
      rw [hr] at hs
      exact accounts_take h rfl hs
  | closeAngle =>
      rw [hr] at hs
      exact accounts_take ((capturing_closeAngle g).trans h)
        (shown_closeAngle g) hs
  | blank =>
      rw [hr] at hs
      by_cases ha : g.angle = 0
      · simp only [if_pos ha]
        exact accounts_end extra n rfl hs
      · simp only [if_neg ha]
        simp [Accounts, shown_argumentBlank h, hs, CodeRole.glyph?]
  | comma =>
      rw [hr] at hs
      have hcomma : c = ',' := by grind [CodeRole.of]
      subst hcomma
      by_cases ha : g.angle = 0
      · simp only [if_pos ha, delimiter_capturing h]
        exact accounts_delimiter extra n rfl rfl hs
      · simp only [if_neg ha, argumentComma, h]
        exact accounts_take ((capturing_dropSpace g).trans h)
          (shown_dropSpace g) hs
  | delimiter kind =>
      rw [hr] at hs
      simp only [delimiter_capturing h]
      apply accounts_delimiter extra n rfl
        (CodeRole.delimiterKind?_of_delimiter hr)
      rw [hs, CodeRole.standsAlone_of_delimiter hr]
      rfl
  | openBrace =>
      rw [hr] at hs
      have hbrace := CodeRole.eq_of_openBrace hr
      subst hbrace
      simp only [delimiter_capturing h]
      exact accounts_delimiter extra n rfl rfl hs
  | closeBrace =>
      rw [hr] at hs
      exact accounts_end extra n rfl hs
  | plain =>
      rw [hr] at hs
      exact accounts_take h rfl hs

/-- A mark of a comment is accounted for, where words count. -/
theorem mark_accounts (h : g.capturing = true) (extra : List String) (n : Nat)
    {w : List Char} (hw : '\n' ∉ w) :
    g.Accounts (w.map fun c => ⟨c, false, g.depth⟩) (g.mark extra n w) := by
  rw [Accounts, filterMap_glyph?_map (of_decide_eq_true h) hw, mark, h]
  simp [glyphs_ofWord]

/-- Every piece is accounted for, where words count. -/
theorem step_accounts_capturing (h : g.capturing = true) (extra : List String)
    (n : Nat) {p : Piece} (hp : '\n' ∉ p.text) :
    g.Accounts (p.spots g.depth) (g.step extra n p) := by
  cases p with
  | opener o => exact mark_accounts h extra n hp
  | closer => exact mark_accounts h extra n hp
  | code c => exact code_accounts h extra n (fun hc => hp (by simp [Piece.text, hc]))
  | comment c =>
      have hs := glyph?_inert (of_decide_eq_true h)
        (fun hc : c = '\n' => hp (by simp [Piece.text, hc]))
      simp only [step]
      cases hsep : isSeparator c with
      | true =>
          rw [hsep] at hs
          exact accounts_end extra n rfl hs
      | false =>
          rw [hsep] at hs
          exact accounts_take h rfl hs
  | literal c =>
      simp only [step, Accounts, shown_take h]
      exact congrArg (g.shown ++ ·)
        (filterMap_glyph?_map (of_decide_eq_true h) hp).symm

theorem spots_depth {p : Piece} {d : Nat} : ∀ s ∈ p.spots d, s.depth = d := by
  cases p <;> simp [Piece.spots, Piece.text]

/-- Inside a body a piece gives no token and no word. -/
theorem Deep.step_silent (h : g.Deep) (extra : List String) (n : Nat)
    (p : Piece) :
    (g.step extra n p).2 = [] ∧ (g.step extra n p).1.word = [] := by
  cases hp : isBracePiece p with
  | false =>
      obtain ⟨a, ha⟩ := h.step extra n hp
      rw [ha]
      exact ⟨rfl, h.word⟩
  | true =>
      refine ⟨?_, Settled.brace (fun _ => h.word) extra n hp⟩
      cases p with
      | code c =>
          have hc : c = '{' ∨ c = '}' := by simpa [isBracePiece] using hp
          rcases hc with rfl | rfl
          · rw [Settled.openBrace (fun _ => h.word), h.delimiter]
          · exact h.wordToken extra n
      | _ => exact absurd hp Bool.false_ne_true

/-- Every piece is accounted for. -/
theorem Settled.step_accounts (h : g.Settled) (extra : List String) (n : Nat)
    {p : Piece} (hp : '\n' ∉ p.text) :
    g.Accounts (p.spots g.depth) (g.step extra n p) := by
  cases hcap : g.capturing with
  | true => exact step_accounts_capturing hcap extra n hp
  | false =>
      have hd : bodyDepth ≤ g.depth := Nat.not_lt.mp (of_decide_eq_false hcap)
      obtain ⟨htokens, hword⟩ := Deep.step_silent ⟨hd, h hd⟩ extra n p
      have hspots : (p.spots g.depth).filterMap Spot.glyph? = [] := by
        rw [List.filterMap_eq_nil_iff]
        intro s hs
        exact glyph?_deep (by rw [spots_depth s hs]; exact hd)
      rw [Accounts, hspots, htokens, shown, shown, hword, h hd]
      rfl

/-- The depth after a piece is the depth that the scan finds. -/
theorem Settled.step_depth (h : g.Settled) (extra : List String) (n : Nat)
    (p : Piece) : (g.step extra n p).1.depth = p.depth g.depth := by
  cases hp : isBracePiece p with
  | false =>
      rw [Gather.step_depth extra n g hp]
      cases p with
      | code c =>
          have hc : ¬ (c = '{' ∨ c = '}') := by simpa [isBracePiece] using hp
          rw [not_or] at hc
          exact (depth_code g.depth hc.1 hc.2).symm
      | _ => rfl
  | true =>
      cases p with
      | code c =>
          have hc : c = '{' ∨ c = '}' := by simpa [isBracePiece] using hp
          rcases hc with rfl | rfl
          · rw [h.openBrace]
            rfl
          · rfl
      | _ => exact absurd hp Bool.false_ne_true

/-- A list of pieces is accounted for, and moves the depth as the scan
    says. -/
theorem Settled.steps_accounts (h : g.Settled) (extra : List String) (n : Nat)
    {ps : List Piece} (hps : '\n' ∉ ps.flatMap Piece.text) :
    g.Accounts (pieceSpots g.depth ps) (g.steps extra n ps)
      ∧ (g.steps extra n ps).1.depth = ps.foldl Piece.depth g.depth := by
  induction ps generalizing g with
  | nil => exact ⟨by simp [Accounts, pieceSpots, Gather.steps], rfl⟩
  | cons p ps ih =>
      rw [List.flatMap_cons, List.mem_append, not_or] at hps
      have hstep := h.step_accounts extra n hps.1
      obtain ⟨hrest, hdepth⟩ := ih (h.step extra n p) hps.2
      rw [h.step_depth] at hrest hdepth
      refine ⟨?_, hdepth⟩
      rw [Accounts] at hstep hrest ⊢
      rw [Gather.steps, pieceSpots, List.flatMap_append, List.append_assoc, hrest,
        ← List.append_assoc, hstep, List.filterMap_append, List.append_assoc]

end Gather

/-! ## The account of a source -/

namespace Reader

/-- A text is accounted for. -/
theorem read_accounts (extra : List String) (r : Reader) (h : r.gather.Settled)
    (cs : List Char) :
    (r.read extra cs).2.flatMap Token.glyphs ++ (r.read extra cs).1.gather.shown
      = r.gather.shown
        ++ (scan r.mode r.gather.depth cs).filterMap Spot.glyph? := by
  fun_induction read extra r cs with
  | case1 r => simp [scan]
  | case2 r cs ih =>
      have hend : (r.lineEnd extra).flatMap Token.glyphs = r.gather.shown := by
        simp [lineEnd, close, Token.glyphs, Token.sign, Token.lineNumber,
          TokenKind.isLine]
      have hnl : ∀ b d, Spot.glyph? ⟨'\n', b, d⟩ = none := by
        simp [Spot.glyph?, Spot.isKept]
      rw [prepend_snd, prepend_fst, List.flatMap_append, List.append_assoc,
        ih (fun _ => rfl), hend, scan_newline, List.filterMap_cons, hnl]
      rfl
  | case3 r c cs hc k ih =>
      obtain ⟨hsteps, hdepth⟩ := h.steps_accounts extra r.line
        (bite_no_newline (m := r.mode) hc cs)
      rw [Gather.Accounts] at hsteps
      have hrest := ih (h.steps extra r.line k.pieces)
      rw [prepend_snd, prepend_fst, List.flatMap_append, List.append_assoc, hrest,
        ← List.append_assoc, scan_bite r.mode r.gather.depth hc cs,
        List.filterMap_append, ← List.append_assoc, ← hsteps, ← hdepth]
      rfl

end Reader

/-- The tokens of a source show what its scan finds to be shown. -/
theorem tokenize_glyphs (source : String) (extra : List String) :
    (tokenize source extra).flatMap Token.glyphs
      = (scan .code 0 source.toList).filterMap Spot.glyph? := by
  have hread := Reader.read_accounts extra {} (fun _ => rfl) source.toList
  have hclose : ∀ r : Reader,
      (r.close extra).flatMap Token.glyphs = r.gather.shown := by
    intro r
    simp [Reader.close, Token.glyphs, Token.sign, TokenKind.isLine]
  rw [tokenize_eq_read, List.flatMap_cons, Reader.tokens, List.flatMap_append,
    hclose, hread]
  rfl

/-! ## Delimiters -/

/-- The tokens of a source stand on its lines or keep track of them. -/
theorem tokenize_onLine (source : String) (extra : List String) :
    ∀ t ∈ tokenize source extra, t.kind.isLine = true ∨ ∃ n, t.OnLine extra n := by
  rw [tokenize_eq_read, List.forall_mem_cons]
  refine ⟨.inl rfl, ?_⟩
  exact Reader.forall_tokens extra (fun n _ ht => .inr ⟨n, ht⟩)
    (fun _ _ => .inl rfl) {} _ fun _ _ _ => .inl rfl

/-- A token that shows a character that stands alone is that character. -/
theorem Token.eq_of_alone {t : Token} {extra : List String} {c : Char}
    (ht : t.kind.isLine = true ∨ ∃ n, t.OnLine extra n)
    (hc : ⟨c, true⟩ ∈ t.glyphs) :
    t.text = String.singleton c ∧ delimiterKind? c = some t.kind
      ∧ t.glyphs = [⟨c, true⟩] := by
  rcases ht with hline | ⟨n, h⟩
  · rw [Token.glyphs, if_pos hline] at hc
    exact nomatch hc
  · cases h with
    | word w =>
        rw [glyphs_ofWord, wordGlyphs] at hc
        obtain ⟨d, -, hd⟩ := List.mem_map.mp hc
        exact nomatch hd
    | @delimiter d kind hk =>
        rw [glyphs_delimiter hk, List.mem_singleton] at hc
        obtain ⟨rfl, halone⟩ := Glyph.mk.inj hc
        exact ⟨rfl, hk, by rw [glyphs_delimiter hk, ← halone]⟩

/-- What is shown before and after a character that stands alone is shown by
    the tokens before and after one token. -/
theorem split_at_alone {extra : List String} {ts : List Token}
    (hts : ∀ t ∈ ts, t.kind.isLine = true ∨ ∃ n, t.OnLine extra n)
    {xs ys : List Glyph} {c : Char}
    (h : ts.flatMap Token.glyphs = xs ++ ⟨c, true⟩ :: ys) :
    ∃ us t vs, ts = us ++ t :: vs
      ∧ t.text = String.singleton c ∧ delimiterKind? c = some t.kind
      ∧ us.flatMap Token.glyphs = xs ∧ vs.flatMap Token.glyphs = ys := by
  induction ts generalizing xs with
  | nil => exact absurd h.symm (by simp)
  | cons t ts ih =>
      have hrest : ∀ zs : List Glyph,
          ts.flatMap Token.glyphs = zs ++ ⟨c, true⟩ :: ys → xs = t.glyphs ++ zs →
          ∃ us u vs, t :: ts = us ++ u :: vs
            ∧ u.text = String.singleton c ∧ delimiterKind? c = some u.kind
            ∧ us.flatMap Token.glyphs = xs ∧ vs.flatMap Token.glyphs = ys := by
        intro zs hzs hxs
        obtain ⟨us, u, vs, rfl, htext, hkind, hbefore, hafter⟩ :=
          ih (fun u hu => hts u (by simp [hu])) hzs
        exact ⟨t :: us, u, vs, rfl, htext, hkind,
          by rw [List.flatMap_cons, hbefore, hxs], hafter⟩
      rw [List.flatMap_cons] at h
      rcases List.append_eq_append_iff.mp h with ⟨zs, hxs, hzs⟩ | ⟨zs, ht, hzs⟩
      · exact hrest zs hzs hxs
      · cases zs with
        | nil => exact hrest [] hzs.symm (by rw [ht]; simp)
        | cons z zs =>
            obtain ⟨rfl, rfl⟩ := List.cons.inj hzs
            obtain ⟨htext, hkind, honly⟩ :=
              Token.eq_of_alone (hts t (by simp)) (c := c) (by rw [ht]; simp)
            rw [honly] at ht
            cases xs with
            | nil =>
                obtain ⟨-, rfl⟩ := List.cons.inj ht
                exact ⟨[], t, ts, rfl, htext, hkind, rfl, rfl⟩
            | cons x xs => exact absurd (List.cons.inj ht).2 (by simp)

/-! ## Conservation -/

/-- The characters of the words and delimiters of a list of tokens, without
    blanks. -/
def spelled (ts : List Token) : List Char :=
  ((ts.filter fun t => !t.kind.isLine).flatMap fun t => t.text.toList).filter
    fun c => !isSeparator c

/-- The characters that belong to tokens. -/
def kept (ss : List Spot) : List Char :=
  (ss.filter Spot.isKept).map Spot.char

theorem spelled_eq (ts : List Token) :
    spelled ts = (ts.flatMap Token.glyphs).map Glyph.char := by
  induction ts with
  | nil => rfl
  | cons t ts ih =>
      rw [spelled] at ih ⊢
      cases h : t.kind.isLine <;>
        simp_all [Token.glyphs, wordGlyphs, Function.comp_def]

theorem kept_eq (ss : List Spot) :
    kept ss = (ss.filterMap Spot.glyph?).map Glyph.char := by
  induction ss with
  | nil => rfl
  | cons s ss ih =>
      rw [kept] at ih ⊢
      cases h : s.isKept <;> simp_all [Spot.glyph?]

theorem Spot.isKept_of_standsAlone {s : Spot} (h : s.standsAlone = true)
    (hd : s.depth < bodyDepth) : s.isKept = true := by
  grind [Spot.isKept, Spot.standsAlone, isSeparator]

/-- **No character is lost or duplicated.**  The scan finds every character of
    a source once.  The words and delimiters of the source spell, in order,
    the characters that the scan finds where words count, without blanks, line
    ends and the closing braces of ordinary text.  A semicolon, a parenthesis
    or an opening brace of ordinary text that is among them is a token of its
    own, with what stands before it in the tokens before and what stands after
    it in the tokens after. -/
theorem tokenize_conserves (source : String) (extra : List String) :
    (scan .code 0 source.toList).map Spot.char = source.toList
      ∧ spelled (tokenize source extra) = kept (scan .code 0 source.toList)
      ∧ ∀ (pre post : List Spot) (s : Spot),
          scan .code 0 source.toList = pre ++ s :: post →
          s.standsAlone = true → s.depth < bodyDepth →
          ∃ ts t us, tokenize source extra = ts ++ t :: us
            ∧ t.text = String.singleton s.char
            ∧ delimiterKind? s.char = some t.kind
            ∧ spelled ts = kept pre ∧ spelled us = kept post := by
  refine ⟨scan_chars .code 0 source.toList, ?_, ?_⟩
  · rw [spelled_eq, kept_eq, tokenize_glyphs]
  · intro pre post s hscan halone hdepth
    have hglyph : s.glyph? = some ⟨s.char, true⟩ := by
      rw [Spot.glyph?, if_pos (Spot.isKept_of_standsAlone halone hdepth), halone]
    have hsplit : (tokenize source extra).flatMap Token.glyphs
        = pre.filterMap Spot.glyph?
          ++ ⟨s.char, true⟩ :: post.filterMap Spot.glyph? := by
      rw [tokenize_glyphs, hscan, List.filterMap_append, List.filterMap_cons, hglyph]
    obtain ⟨ts, t, us, htokens, htext, hkind, hbefore, hafter⟩ :=
      split_at_alone (tokenize_onLine source extra) hsplit
    refine ⟨ts, t, us, htokens, htext, hkind, ?_, ?_⟩
    · rw [spelled_eq, kept_eq, hbefore]
    · rw [spelled_eq, kept_eq, hafter]

/-- A parenthesis inside type arguments that are never closed: it stands at
    depth zero, and it is a token of its own. -/
theorem tokenize_conserves_openAngle :
    spelled (tokenize "a <b (c /*(*/" []) = "a<b(c/*(*/".toList
      ∧ ∃ ts t us, tokenize "a <b (c /*(*/" [] = ts ++ t :: us
          ∧ t.text = "(" ∧ some TokenKind.paramStart = some t.kind
          ∧ spelled ts = "a<b".toList ∧ spelled us = "c/*(*/".toList := by
  obtain ⟨-, hspelled, hdelimiter⟩ := tokenize_conserves "a <b (c /*(*/" []
  refine ⟨?_, ?_⟩
  · rw [hspelled]
    decide +kernel
  · exact hdelimiter
      [⟨'a', true, 0⟩, ⟨' ', true, 0⟩, ⟨'<', true, 0⟩, ⟨'b', true, 0⟩,
        ⟨' ', true, 0⟩]
      ((scan .code 0 "a <b (c /*(*/".toList).drop 6) ⟨'(', true, 0⟩
      (by decide +kernel) rfl (by decide)

end JavaOutline
