import JavaOutline.Proofs.Body

/-! # The tokens that keep track of lines

    Every line of a source, and only a line, has a token with its number at
    its start and a token with its trimmed text at its end, and whatever
    stands between the two has the number of that line.  The lines are the
    source split at its line ends; nothing that a source holds, be it a
    comment, a literal or a body that is never closed, shifts them.

    * `lineTokens_marks` gives the line tokens of a list of lines;
    * `lineTokens_line` says that the number of a token is the number of line
      starts up to it, from which the rest follows by counting. -/

namespace JavaOutline

open Source

/-! ## Lines -/

/-- The lines of a text are the text split at its line ends. -/
theorem lines_eq_splitOn (cs : List Char) : lines cs = cs.splitOn '\n' := by
  induction cs with
  | nil => rfl
  | cons c cs ih =>
      have hsplit : (c :: cs).splitOn '\n'
          = if c == '\n' then [] :: cs.splitOn '\n'
            else (cs.splitOn '\n').modifyHead (List.cons c) :=
        List.splitOnP_cons_eq_if_modifyHead c cs
      rw [lines, hsplit, ← ih]
      by_cases hc : c = '\n'
      · rw [if_pos hc, if_pos (beq_iff_eq.mpr hc)]
      · rw [if_neg hc, if_neg (fun h => hc (beq_iff_eq.mp h))]
        cases h : lines cs with
        | nil =>
            rw [ih] at h
            exact absurd h (List.splitOnP_ne_nil _ cs)
        | cons l ls => rfl

/-! ## Line tokens -/

/-- The two tokens of each line, `n` being the number of the first. -/
def lineMarks (n : Nat) (ls : List (List Char)) : List Token :=
  (ls.mapIdx fun i l => [Token.lineNumber (n + i), Token.sign (n + i) l]).flatten

theorem lineMarks_cons (n : Nat) (l : List Char) (ls : List (List Char)) :
    lineMarks n (l :: ls)
      = Token.lineNumber n :: Token.sign n l :: lineMarks (n + 1) ls := by
  have hshift : (fun (i : Nat) l => [Token.lineNumber (n + (i + 1)),
      Token.sign (n + (i + 1)) l])
      = fun i l => [Token.lineNumber (n + 1 + i), Token.sign (n + 1 + i) l] := by
    funext i l
    rw [show n + (i + 1) = n + 1 + i by omega]
  rw [lineMarks, List.mapIdx_cons, hshift]
  rfl

theorem LineStart.lineBody_onLine (extra : List String) (n : Nat)
    (s : LineStart) (l : List Char) :
    ∀ t ∈ s.lineBody extra n l, t.OnLine extra n := by
  intro t ht
  rw [lineBody, Gather.run_eq_steps] at ht
  rcases List.mem_append.mp ht with h | h
  · exact Gather.steps_onLine extra n _ _ t h
  · exact Gather.wordToken_onLine extra n _ t h

theorem LineStart.filter_lineBody (extra : List String) (n : Nat)
    (s : LineStart) (l : List Char) :
    (s.lineBody extra n l).filter (fun t => t.kind.isLine) = [] := by
  rw [List.filter_eq_nil_iff]
  intro t ht
  rw [(s.lineBody_onLine extra n l t ht).inLine.not_line]
  exact Bool.false_ne_true

/-- Each line has its two tokens, in order, and there are no others. -/
theorem lineTokens_marks (extra : List String) (n : Nat) (s : LineStart)
    (ls : List (List Char)) :
    (lineTokens extra n s ls).filter (fun t => t.kind.isLine)
      = lineMarks n ls := by
  induction ls generalizing n s with
  | nil => rfl
  | cons l ls ih =>
      rw [lineTokens, lineMarks_cons, List.cons_append,
        List.filter_cons_of_pos rfl, List.filter_append, s.filter_lineBody,
        List.nil_append, List.filter_cons_of_pos rfl, ih]

/-- The last token is the text of the last line. -/
theorem lineTokens_getLast? (extra : List String) (n : Nat) (s : LineStart)
    {ls : List (List Char)} (h : ls ≠ []) :
    (lineTokens extra n s ls).getLast?
      = some (Token.sign (n + (ls.length - 1)) (ls.getLast h)) := by
  induction ls generalizing n s with
  | nil => exact absurd rfl h
  | cons l ls ih =>
      rw [lineTokens, List.getLast?_append]
      cases ls with
      | nil => rfl
      | cons k ks =>
          have hlast := ih (n + 1) (s.next l) (List.cons_ne_nil k ks)
          rw [List.getLast?_cons, hlast, List.getLast_cons (List.cons_ne_nil k ks)]
          simp only [List.length_cons, Nat.add_sub_cancel, Option.getD_some,
            Option.some_or]
          rw [show n + 1 + ks.length = n + (ks.length + 1) by omega]

/-! ## The numbers of tokens -/

/-- How many lines start in a list of tokens. -/
def lineStarts (ts : List Token) : Nat :=
  ts.countP fun t => t.kind == .lineNumber

theorem lineStarts_append (ts us : List Token) :
    lineStarts (ts ++ us) = lineStarts ts + lineStarts us :=
  List.countP_append

/-- The tokens of a line after its start: all of them have its number, and
    none of them starts a line. -/
theorem LineStart.lineBody_sign (extra : List String) (n : Nat)
    (s : LineStart) (l : List Char) :
    ∀ t ∈ s.lineBody extra n l ++ [Token.sign n l],
      t.line = n ∧ t.kind ≠ .lineNumber := by
  intro t ht
  rcases List.mem_append.mp ht with h | h
  · have hline := s.lineBody_onLine extra n l t h
    refine ⟨hline.line, ?_⟩
    intro hk
    have hnot := hline.inLine.not_line
    rw [hk] at hnot
    exact nomatch hnot
  · rw [List.mem_singleton.mp h]
    exact ⟨rfl, fun hk => nomatch hk⟩

theorem lineStarts_eq_zero {ts : List Token}
    (h : ∀ t ∈ ts, t.kind ≠ .lineNumber) : lineStarts ts = 0 := by
  rw [lineStarts, List.countP_eq_zero]
  intro t ht hk
  exact h t ht (beq_iff_eq.mp hk)

/-- The number of a token counts the lines that have started. -/
theorem lineTokens_line (extra : List String) (n : Nat) (s : LineStart)
    (ls : List (List Char)) (pre : List Token) {post : List Token} {t : Token}
    (h : lineTokens extra n s ls = pre ++ t :: post) :
    t.line + 1 = n + lineStarts (pre ++ [t]) := by
  induction ls generalizing n s pre with
  | nil => exact absurd h.symm (by simp [lineTokens])
  | cons l ls ih =>
      have hline := s.lineBody_sign extra n l
      have hzero := lineStarts_eq_zero fun u hu => (hline u hu).2
      have hfirst : lineStarts [Token.lineNumber n] = 1 := rfl
      rw [lineTokens, List.cons_append, ← List.singleton_append (l := lineTokens _ _ _ _),
        ← List.append_assoc] at h
      -- the token starts the line, stands on it, or comes after it
      cases pre with
      | nil =>
          obtain ⟨rfl, -⟩ := List.cons.inj h
          show (n : Int) + 1 = n + (1 : Nat)
          omega
      | cons u pre =>
          obtain ⟨rfl, hrest⟩ := List.cons.inj h
          rw [List.cons_append, ← List.singleton_append, lineStarts_append, hfirst]
          rcases List.append_eq_append_iff.mp hrest
            with ⟨pre', rfl, hlater⟩ | ⟨x, hx, hlater⟩
          · have hcount := ih (n + 1) (s.next l) pre' hlater
            rw [List.append_assoc, lineStarts_append, hzero]
            omega
          · cases x with
            | nil =>
                have hcount := ih (n + 1) (s.next l) [] hlater.symm
                rw [List.nil_append] at hcount
                rw [List.append_nil] at hx
                rw [lineStarts_append, ← hx, hzero]
                omega
            | cons v x =>
                obtain ⟨rfl, -⟩ := List.cons.inj hlater
                rw [hx] at hline
                have hnone : lineStarts (pre ++ [t]) = 0 := by
                  apply lineStarts_eq_zero
                  intro v hv
                  apply (hline v ?_).2
                  rw [← List.singleton_append, ← List.append_assoc]
                  exact List.mem_append_left x hv
                have hnumber := (hline t (by simp)).1
                rw [hnone, hnumber]
                omega

/-- What stands between the two tokens of a line stands on that line. -/
theorem lineTokens_between (extra : List String) (s : LineStart)
    (ls : List (List Char)) {pre mid post : List Token} {i : Nat} {l : List Char}
    (h : lineTokens extra 1 s ls
      = pre ++ Token.lineNumber i :: (mid ++ Token.sign i l :: post)) :
    ∀ t ∈ mid, t.line = i := by
  intro t ht
  obtain ⟨a, b, rfl⟩ := List.append_of_mem ht
  have hstart := lineTokens_line extra 1 s ls pre h
  have htoken := lineTokens_line extra 1 s ls (t := t)
    (pre ++ Token.lineNumber i :: a) (by rw [h, List.append_assoc]; simp; rfl)
  have hend := lineTokens_line extra 1 s ls (t := Token.sign i l)
    (pre ++ Token.lineNumber i :: (a ++ t :: b)) (by rw [h]; simp; rfl)
  -- no line starts in between, since both ends have the number of one line
  have hsplit : pre ++ Token.lineNumber i :: (a ++ t :: b) ++ [Token.sign i l]
      = (pre ++ Token.lineNumber i :: a ++ [t]) ++ (b ++ [Token.sign i l]) := by
    simp
  have hsplit' : pre ++ Token.lineNumber i :: a ++ [t]
      = (pre ++ [Token.lineNumber i]) ++ (a ++ [t]) := by
    simp
  have hnumber : (Token.lineNumber i).line = i := rfl
  have hsign : (Token.sign i l).line = i := rfl
  rw [hsplit, lineStarts_append] at hend
  rw [hsplit', lineStarts_append] at htoken hend
  omega

/-! ## Sources -/

/-- The tokens `ts` keep track of the lines `ls`: the line tokens among them are the
    number and the trimmed text of each line, in order; the first and the last of them
    are the first and the last token; and every token from the number of a line to its
    text has the number of that line. -/
structure MarksLines (ls : List (List Char)) (ts : List Token) : Prop where
  marks : ts.filter (fun t => t.kind.isLine) = lineMarks 1 ls
  first : ts.head? = some (Token.lineNumber 1)
  last : ∃ l, ls.getLast? = some l ∧ ts.getLast? = some (Token.sign ls.length l)
  between : ∀ (pre mid post : List Token) (i : Nat) (l : List Char),
    ts = pre ++ Token.lineNumber i :: (mid ++ Token.sign i l :: post) →
      ∀ t ∈ Token.lineNumber i :: (mid ++ [Token.sign i l]), t.line = i

theorem marksLines_lineTokens (extra : List String) (s : LineStart)
    {ls : List (List Char)} (hne : ls ≠ []) : MarksLines ls (lineTokens extra 1 s ls) where
  marks := lineTokens_marks extra 1 s ls
  first := by
    cases ls with
    | nil => exact absurd rfl hne
    | cons l ls => rfl
  last := by
    have hlength : 0 < ls.length := List.length_pos_iff.mpr hne
    refine ⟨_, List.getLast?_eq_some_getLast hne, ?_⟩
    rw [lineTokens_getLast? extra 1 s hne, show 1 + (ls.length - 1) = ls.length by omega]
  between := by
    intro pre mid post i l h t ht
    rcases List.mem_cons.mp ht with rfl | ht
    · rfl
    · rcases List.mem_append.mp ht with ht | ht
      · exact lineTokens_between extra s _ h t ht
      · rw [List.mem_singleton.mp ht]
        rfl

theorem marksLines_tokenize (source : String) (extra : List String) :
    MarksLines (source.toList.splitOn '\n') (tokenize source extra) := by
  rw [tokenize, lines_eq_splitOn]
  exact marksLines_lineTokens extra {} (List.splitOnP_ne_nil _ _)

/-- One pass over the characters of a text, from one state of the reader to the next,
    keeps track of its lines. -/
theorem Reader.marksLines_tokens (extra : List String) (cs : List Char) :
    MarksLines (cs.splitOn '\n') (Token.lineNumber 1 :: Reader.tokens extra {} cs) := by
  have hmarks := marksLines_tokenize (String.ofList cs) extra
  rw [tokenize_eq_read, String.toList_ofList] at hmarks
  exact hmarks

/-- **Line bookkeeping is exact.**  The line tokens of a source are the number
    and the trimmed text of each of its lines, in order; the first and the last
    of them are the first and the last token of the source; and every token
    from the number of a line to its text has the number of that line. -/
theorem tokenize_line_marks (source : String) (extra : List String) :
    (tokenize source extra).filter (fun t => t.kind.isLine)
        = ((source.toList.splitOn '\n').mapIdx fun i l =>
            [Token.lineNumber (i + 1), Token.sign (i + 1) l]).flatten
      ∧ (tokenize source extra).head? = some (Token.lineNumber 1)
      ∧ (∃ l, (source.toList.splitOn '\n').getLast? = some l
          ∧ (tokenize source extra).getLast?
            = some (Token.sign (source.toList.splitOn '\n').length l))
      ∧ ∀ (pre mid post : List Token) (i : Nat) (l : List Char),
          tokenize source extra
            = pre ++ Token.lineNumber i :: (mid ++ Token.sign i l :: post) →
          ∀ t ∈ Token.lineNumber i :: (mid ++ [Token.sign i l]), t.line = i := by
  have hmarks := marksLines_tokenize source extra
  refine ⟨?_, hmarks.first, hmarks.last, hmarks.between⟩
  rw [hmarks.marks, lineMarks]
  simp only [Nat.add_comm 1]

/-- A brace and a quote in a comment that is never closed shift no line. -/
theorem tokenize_line_marks_openComment :
    (tokenize "x /*\n \x7b \"\n" []).filter (fun t => t.kind.isLine)
        = [⟨.lineNumber, "1", 1⟩, ⟨.sign, "x /*", 1⟩, ⟨.lineNumber, "2", 2⟩,
          ⟨.sign, "\x7b \"", 2⟩, ⟨.lineNumber, "3", 3⟩, ⟨.sign, "", 3⟩]
      ∧ ∀ t ∈ [Token.lineNumber 2, ⟨.symbol, "\x7b", 2⟩, ⟨.symbol, "\"", 2⟩,
          Token.sign 2 [' ', '{', ' ', '"']], t.line = 2 := by
  obtain ⟨hmarks, -, -, hbetween⟩ := tokenize_line_marks "x /*\n \x7b \"\n" []
  refine ⟨?_, ?_⟩
  · rw [hmarks]
    decide +kernel
  · exact hbetween ((tokenize "x /*\n \x7b \"\n" []).take 4)
      [⟨.symbol, "\x7b", 2⟩, ⟨.symbol, "\"", 2⟩]
      ((tokenize "x /*\n \x7b \"\n" []).drop 8) 2 [' ', '{', ' ', '"']
      (by decide +kernel)

end JavaOutline
