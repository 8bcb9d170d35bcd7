import JavaOutline.Proofs.CommentText
import JavaOutline.Proofs.LaterTypes
import JavaOutline.Proofs.Literals

/-! # Line comments at the ends of lines

    A line comment after a line of ordinary text is not to be seen in the outline,
    but for the signatures, which are texts of lines.  The route:

    * the reader makes the tokens of the comment after those of its line, and
      starts the next line as it would without it (`Reader.read_trailingComment`);
    * a walk in ordinary code that takes these tokens is then in a line comment
      and otherwise where it was (`Walk.run_commentTokens`), and the number of the
      next line leads it back (`Walk.lineNumber_commented`);
    * without signatures, an outline is what comes of the tokens that are no line
      texts (`Declaration.ofTokens_spoken`), so that two sources can be compared
      by these.

    No number follows the last line.  There the walk ends inside the comment, and
    only in ordinary code does the end of a source turn the pending word of a list
    of constants into a constant.  `Walk.HoldsConstant` says when there is such a
    word, and `Walk.finish_commented` that exactly this constant is lost. -/

namespace JavaOutline

open Source

/-! ## Reading a line comment -/

/-- A line comment that is put at the end of a line. -/
def trailingComment (t : List Char) : List Char := ' ' :: '/' :: '/' :: ' ' :: t

/-- The tokens of a line comment on line `n`: its opener and its words. -/
def commentTokens (extra : List String) (n : Nat) (t : List Char) : List Token :=
  ("//" :: commentWords t).map (Token.ofWord extra n)

theorem Source.pieces_lineComment (t : List Char) :
    pieces .lineComment t = (t.map .comment, .lineComment) := by
  induction t with
  | nil => rw [pieces]; rfl
  | cons c t ih =>
      rw [pieces]
      show ([Piece.comment c] ++ (pieces .lineComment t).1, (pieces .lineComment t).2) = _
      rw [ih]
      rfl

theorem Source.pieces_trailingComment (t : List Char) :
    pieces .code (trailingComment t)
      = (.code ' ' :: .opener .line :: (' ' :: t).map .comment, .lineComment) := by
  rw [trailingComment, pieces]
  show ([Piece.code ' '] ++ (pieces .code ('/' :: '/' :: ' ' :: t)).1,
    (pieces .code ('/' :: '/' :: ' ' :: t)).2) = _
  rw [pieces]
  show ([Piece.code ' '] ++ ([Piece.opener .line] ++ (pieces .lineComment (' ' :: t)).1),
    (pieces .lineComment (' ' :: t)).2) = _
  rw [pieces_lineComment]
  rfl

namespace Gather

variable {g : Gather} (extra : List String) (n : Nat)

/-- A word without gaps is one word of a comment. -/
theorem wordToken_of_not_gap (h : ∀ c ∈ g.word, isGap c = false) :
    g.wordToken extra n
      = (commentWords g.word.reverse).map (Token.ofWord extra n) := by
  rw [commentWords_of_not_gap (by simpa using h), wordToken, List.isEmpty_reverse]
  split <;> rfl

/-- The characters of a comment give its words, where words count. -/
theorem steps_comment (hcap : g.capturing = true)
    (hword : ∀ c ∈ g.word, isGap c = false) {t : List Char} (ht : '\n' ∉ t) :
    (g.steps extra n (t.map .comment)).2
        ++ (g.steps extra n (t.map .comment)).1.wordToken extra n
      = (commentWords (g.word.reverse ++ t)).map (Token.ofWord extra n) := by
  induction t generalizing g with
  | nil =>
      rw [List.append_nil]
      exact wordToken_of_not_gap extra n hword
  | cons c t ih =>
      obtain ⟨hc, ht⟩ := not_or.mp (fun h => ht (List.mem_cons.mpr h))
      rw [List.map_cons, steps, step]
      cases hsep : isSeparator c with
      | true =>
          have hgap : isGap c = true := by rw [isGap, hsep]; rfl
          have hrest := ih (g := g.clear) hcap (by simp [clear]) ht
          rw [if_pos rfl, List.append_assoc, hrest, wordToken_of_not_gap extra n hword,
            commentWords_append_gap _ _ hgap, List.map_append]
          rfl
      | false =>
          have hgap : isGap c = false := by
            rw [isGap, hsep]
            simpa using Ne.symm hc
          have hrest := ih (g := { g with word := c :: g.word }) hcap
            (List.forall_mem_cons.mpr ⟨hgap, hword⟩) ht
          rw [if_neg Bool.false_ne_true, take_capturing hcap]
          rw [List.reverse_cons, List.append_assoc] at hrest
          exact hrest

/-- Only braces move the depth. -/
theorem steps_depth {ps : List Piece} (hps : ∀ p ∈ ps, isBracePiece p = false) :
    (g.steps extra n ps).1.depth = g.depth := by
  induction ps generalizing g with
  | nil => rfl
  | cons p ps ih =>
      rw [steps]
      exact (ih fun q hq => hps q (by simp [hq])).trans
        (step_depth extra n g (hps p (by simp)))

/-- Outside angle brackets the blank before a line comment ends the word. -/
theorem steps_trailingComment (ha : g.angle = 0) {t : List Char} (ht : '\n' ∉ t) :
    (g.steps extra n (pieces .code (trailingComment t)).1).2
        ++ (g.steps extra n (pieces .code (trailingComment t)).1).1.wordToken extra n
      = g.wordToken extra n
        ++ if g.capturing then commentTokens extra n t else [] := by
  have hblank : g.step extra n (.code ' ') = (g.clear, g.wordToken extra n) := by
    show g.code extra n ' ' = _
    rw [code, show CodeRole.of ' ' = .blank from rfl]
    exact if_pos ha
  rw [pieces_trailingComment, steps, hblank, List.append_assoc]
  congr 1
  -- the word of the line is done with; what the comment adds hangs on the depth
  cases hcap : g.capturing with
  | true =>
      have hopen : g.clear.step extra n (.opener .line)
          = (g.clear, [Token.ofWord extra n "//"]) :=
        mark_capturing (g := g.clear) hcap extra n _
      have hwords := steps_comment (g := g.clear) extra n hcap (by simp [clear])
        (t := ' ' :: t) (by simpa using ht)
      rw [steps, hopen, List.append_assoc, hwords]
      show _ = [Token.ofWord extra n "//"] ++ (commentWords t).map (Token.ofWord extra n)
      rw [show g.clear.word.reverse ++ ' ' :: t = [] ++ ' ' :: t from rfl,
        commentWords_append_gap [] t rfl]
      rfl
  | false =>
      have hdeep : g.clear.Deep := ⟨Nat.not_lt.mp (of_decide_eq_false hcap), rfl⟩
      have hbraces : ∀ p ∈ Piece.opener .line :: (' ' :: t).map Piece.comment,
          isBracePiece p = false := by simp [isBracePiece]
      obtain ⟨b, hb⟩ := hdeep.steps extra n hbraces
      rw [hb, (hdeep.withAngle b).wordToken]
      rfl

end Gather

/-- A line comment at the end of a line of ordinary text: the reader makes the
    tokens of the comment after those of the line, if words count there, and the
    next line starts as it would without the comment. -/
theorem Reader.read_trailingComment (extra : List String) {r : Reader}
    (hm : r.mode = .code) (ha : r.gather.angle = 0) {t : List Char} (ht : '\n' ∉ t) :
    (r.read extra (trailingComment t)).1.line = r.line
      ∧ (r.read extra (trailingComment t)).1.nextLine = r.nextLine
      ∧ spoken (r.tokens extra (trailingComment t))
        = r.gather.wordToken extra r.line
          ++ if r.gather.capturing then commentTokens extra r.line t else [] := by
  have hmem : '\n' ∉ trailingComment t := by simpa [trailingComment] using ht
  have hread := read_of_not_mem extra r hmem
  rw [hm] at hread
  have hdepth : (r.gather.steps extra r.line
      (pieces .code (trailingComment t)).1).1.depth = r.gather.depth := by
    refine Gather.steps_depth extra r.line ?_
    rw [pieces_trailingComment]
    simp [Gather.isBracePiece]
  refine ⟨by rw [hread], ?_, ?_⟩
  · rw [hread, nextLine, nextLine, hm, hdepth, pieces_trailingComment]
    rfl
  · rw [← Gather.steps_trailingComment extra r.line ha ht, tokens, hread,
      spoken_append, spoken_close]
    congr 1
    exact spoken_of_not_line fun u hu =>
      (Gather.steps_onLine extra r.line r.gather _ u hu).inLine.not_line

/-- The tokens of a source with a line comment at its end. -/
theorem spoken_tokenize_trailingComment (extra : List String) {a t : List Char}
    (hm : (Reader.read extra {} a).1.mode = .code)
    (ha : (Reader.read extra {} a).1.gather.angle = 0) (ht : '\n' ∉ t) :
    spoken (tokenize (String.ofList (a ++ trailingComment t)) extra)
        = spoken (tokenize (String.ofList a) extra)
          ++ (if (Reader.read extra {} a).1.gather.capturing then
                commentTokens extra (Reader.read extra {} a).1.line t
              else [])
      ∧ (Reader.read extra {} (a ++ trailingComment t)).1.line
        = (Reader.read extra {} a).1.line
      ∧ (Reader.read extra {} (a ++ trailingComment t)).1.nextLine
        = (Reader.read extra {} a).1.nextLine := by
  have hread := Reader.read_append extra {} a (trailingComment t)
    (inert_cons (by decide) (by decide) (by decide)) (.inr (.inr (by rw [hm]; rfl)))
  obtain ⟨hline, hnext, hwords⟩ := Reader.read_trailingComment extra hm ha ht
  refine ⟨?_, by rw [hread, prepend_fst, hline], by rw [hread, prepend_fst, hnext]⟩
  rw [tokenize_eq_read, tokenize_eq_read, String.toList_ofList, String.toList_ofList,
    Reader.tokens_of_read hread, spoken_cons (t := Token.lineNumber 1) nofun,
    spoken_cons (t := Token.lineNumber 1) nofun, spoken_append, hwords, Reader.tokens,
    spoken_append, Reader.spoken_close]
  simp only [List.cons_append, List.append_assoc]

/-! ## Walking over a line comment -/

namespace Walk

variable {w : Walk} {extra : List String}

/-- The walk after a line comment; among the arguments of an annotation a
    comment is not noticed. -/
def commented (w : Walk) : Walk :=
  if w.inArguments then w else { w with span := .lineComment }

theorem refusal?_ofWord (w : Walk) (n : Nat) (word : String) :
    w.refusal? (Token.ofWord extra n word) = none := by
  rw [refusal?, Token.ofWord]
  dsimp only
  cases Keyword.isKeyword extra word <;> rfl

/-- Words that a walk takes no notice of. -/
theorem run_ofWords {n : Nat}
    (h : ∀ word, (w.step (Token.ofWord extra n word)).value = w) (ws : List String) :
    (w.run (ws.map (Token.ofWord extra n))).value = .ok w := by
  induction ws with
  | nil => rfl
  | cons word ws ih =>
      rw [List.map_cons, run_cons (w.refusal?_ofWord n word), h word, ih]

/-- The words of a line comment. -/
theorem step_ofWord_lineComment (hs : w.span = .lineComment)
    (ha : w.annotation = .absent) (n : Nat) (word : String) :
    (w.step (Token.ofWord extra n word)).value = w := by
  have hin : w.inArguments = false := by rw [inArguments, ha]
  rw [step_of_not_inArguments hin, plainStep, Token.ofWord]
  dsimp only
  cases Keyword.isKeyword extra word with
  | true =>
      show (w.keyword word n).value = w
      rw [keyword, hs]
      rfl
  | false =>
      show (w.symbol word).value = w
      rw [symbol, if_pos hs, ← ha]
      rfl

/-- The opener of a line comment. -/
theorem step_lineOpener (hs : w.span = .code) (ha : w.annotation = .absent)
    (hk : Keyword.isKeyword extra "//" = false) (n : Nat) :
    (w.step (Token.ofWord extra n "//")).value = { w with span := .lineComment } := by
  have hin : w.inArguments = false := by rw [inArguments, ha]
  rw [step_of_not_inArguments hin, plainStep, Token.ofWord, hk]
  show (w.symbol "//").value = _
  rw [symbol, if_neg (by rw [hs]; decide), if_neg (by decide), hs]
  show w.codeSymbol "//" = _
  rw [codeSymbol, if_neg (by decide), if_neg (by decide), if_pos rfl, ← ha]

/-- **A walk in ordinary code goes through a line comment**: afterwards it is in
    a line comment, and otherwise where it was. -/
theorem run_commentTokens (hs : w.span = .code) (ha : w.annotation ≠ .named)
    (hk : Keyword.isKeyword extra "//" = false) (n : Nat) (t : List Char) :
    (w.run (commentTokens extra n t)).value = .ok w.commented := by
  rw [commented]
  cases hin : w.inArguments with
  | true => exact run_ofWords (step_ofWord_of_inArguments hin extra n) _
  | false =>
      -- the opener drops the name of an annotation, so there must be none
      have habsent : w.annotation = .absent := by
        cases h : w.annotation with
        | absent => rfl
        | named => exact absurd h ha
        | arguments d => rw [inArguments, h] at hin; cases hin
      have hopen := step_lineOpener hs habsent hk n
      rw [commentTokens, List.map_cons, run_cons (w.refusal?_ofWord n "//"), hopen]
      exact run_ofWords (step_ofWord_lineComment
        (w := { w with span := .lineComment }) rfl habsent n) _

/-- The next line leads the walk back to ordinary code. -/
theorem lineNumber_commented (hs : w.span = .code) (text : String) :
    w.commented.lineNumber text = w.lineNumber text := by
  rw [commented]
  split
  · rfl
  · rw [lineNumber, lineNumber, hs]
    rfl

end Walk

/-! ## Outlines without signatures -/

/-- The texts of lines have no say in which tokens are refused. -/
theorem Walk.run_spoken (w : Walk) (ts : List Token) :
    (w.run (spoken ts)).value = (w.run ts).value := by
  induction ts generalizing w with
  | nil => rfl
  | cons t ts ih =>
      by_cases hk : t.kind = .sign
      · rw [spoken_cons_sign hk, ih, run_cons (by rw [refusal?, hk]),
          w.step_of_sign hk]
        rfl
      · rw [spoken_cons hk, run, run]
        cases w.refusal? t with
        | some f => rfl
        | none => exact ih _

/-- Without the texts of lines there is nothing to gather, but the numbers of lines
    are still looked at. -/
theorem LineIndex.gather_spoken (n : Int) (ix jx : LineIndex) (ts : List Token) :
    gather n jx (spoken ts) = (gather n ix ts).map fun _ => jx := by
  induction ts generalizing n ix with
  | nil => rfl
  | cons t ts ih =>
      cases hk : t.kind with
      | sign =>
          rw [spoken_cons_sign hk, gather, hk]
          exact ih n _
      | lineNumber =>
          rw [spoken_cons (by rw [hk]; decide), gather, gather, hk]
          cases Text.integer? t.text with
          | none => rfl
          | some m => exact ih m ix
      | _ =>
          rw [spoken_cons (by rw [hk]; decide), gather, gather, hk]
          exact ih n ix

/-- The outline of tokens that hold no line texts has no signatures, and is
    otherwise the same. -/
theorem Declaration.ofTokens_spoken (ts : List Token) :
    (ofTokens (spoken ts)).value = (ofTokens ts).value.map Declaration.unsigned := by
  have hgather := LineIndex.gather_spoken 1 [] [] ts
  cases hix : LineIndex.ofTokens ts with
  | error text =>
      rw [← LineIndex.ofTokens, ← LineIndex.ofTokens, hix] at hgather
      rw [ofTokens_of_error hgather, ofTokens_of_error hix]
      rfl
  | ok ix =>
      rw [← LineIndex.ofTokens, ← LineIndex.ofTokens, hix] at hgather
      have hrun := Walk.run_unsigned { cursor := { lines := ix } } ts
      rw [ofTokens_of_ok hgather, ofTokens_of_ok hix, Walk.run_spoken]
      rw [show Walk.unsigned { cursor := { lines := ix } }
        = { cursor := { lines := [] } } from rfl] at hrun
      rw [hrun]
      cases (Walk.run { cursor := { lines := ix } } ts).value with
      | error f => rfl
      | ok w => exact congrArg Except.ok w.finish_unsigned

/-- Words that are put into a token list change the outcome as they change the
    rest of the walk. -/
theorem Declaration.ofTokens_insert_words {P C R : List Token}
    (hC : ∀ t ∈ C, t.kind.isLine = false) {F : Declaration → Declaration}
    (h : ∀ w : Walk, w.unsigned = Walk.steps {} P →
      (w.run (C ++ R)).value.map (·.finish.value)
        = ((w.run R).value.map (·.finish.value)).map F) :
    (ofTokens (P ++ (C ++ R))).value = (ofTokens (P ++ R)).value.map F := by
  have hgather : LineIndex.ofTokens (P ++ (C ++ R)) = LineIndex.ofTokens (P ++ R) :=
    LineIndex.gather_congr (fun n ix => LineIndex.gather_tokens n ix hC R) 1 [] P
  cases hix : LineIndex.ofTokens (P ++ R) with
  | error text =>
      rw [ofTokens_of_error (hgather.trans hix), ofTokens_of_error hix]
      rfl
  | ok ix =>
      rw [ofTokens_of_ok (hgather.trans hix), ofTokens_of_ok hix]
      cases hrun : (Walk.run { cursor := { lines := ix } } P).value with
      | error f =>
          rw [Walk.run_append_error hrun, Walk.run_append_error hrun]
          rfl
      | ok w =>
          rw [Walk.run_append_ok hrun, Walk.run_append_ok hrun]
          exact h w (Walk.unsigned_of_run hrun)

/-! ## The last constant -/

/-- A shape without the last of its constants. -/
def Shape.dropConstant : Shape → Shape
  | .enumShape interfaces constants => .enumShape interfaces constants.dropLast
  | shape => shape

/-- A declaration without the last of its constants. -/
def Declaration.dropConstant (d : Declaration) : Declaration :=
  { d with shape := d.shape.dropConstant }

/-- Pending words end a list of constants with one more of them. -/
theorem EnumConstant.ofParts_ofWords (start : Int) (ps : List Part) {ws : List String}
    (h : ws ≠ []) :
    ∃ c, (EnumConstant.ofParts start (ps ++ Part.ofWords ws)).value
      = (EnumConstant.ofParts start ps).value ++ [c] := by
  rw [ofParts, Logged.fold_append, Logged.value_bind]
  cases ws with
  | nil => exact absurd rfl h
  | cons w ws => cases ws <;> exact ⟨_, rfl⟩

namespace Walk

variable {w : Walk}

/-- The constants that the parts of the statement under construction list. -/
def listed (w : Walk) : List EnumConstant :=
  if w.statement.isNested || w.statement.isExecutable then []
  else (EnumConstant.ofParts w.draft.constants.length w.statement.parts).value

theorem listed_of_skips (w : Walk) :
    (if w.skips.value then []
      else (EnumConstant.ofParts w.draft.constants.length w.statement.parts).value)
      = w.listed := by
  rw [listed, skips]
  by_cases hp : w.statement.parts = []
  · rw [if_pos hp, hp]
    exact (ite_self []).symm
  · rw [if_neg hp]
    cases w.statement.isNested <;> cases w.statement.isExecutable <;> rfl

/-- At the end of a source the pending words still join the constants. -/
theorem pendingConstants_of_code (hs : w.span = .code)
    (hw : w.awaitsConstants = true) : w.pendingConstants = w.flush.listed := by
  rw [pendingConstants, if_pos hw, if_pos hs]
  exact w.flush.listed_of_skips

/-- In a comment they do not. -/
theorem pendingConstants_of_ne_code (hs : w.span ≠ .code)
    (hw : w.awaitsConstants = true) : w.pendingConstants = w.listed := by
  rw [pendingConstants, if_pos hw, if_neg hs]
  exact w.listed_of_skips

theorem pendingConstants_of_lineComment (hw : w.awaitsConstants = true) :
    pendingConstants { w with span := .lineComment } = w.listed :=
  pendingConstants_of_ne_code (w := { w with span := .lineComment }) nofun hw

/-- A word is pending that the end of the source makes a constant. -/
structure HoldsConstant (w : Walk) : Prop where
  awaits : w.awaitsConstants = true
  outside : w.inArguments = false
  counts : (w.statement.isNested || w.statement.isExecutable) = false
  word : w.statement.words ≠ []

theorem HoldsConstant.pendingConstants (h : w.HoldsConstant) (hs : w.span = .code) :
    ∃ c, w.pendingConstants
      = Walk.pendingConstants { w with span := .lineComment } ++ [c] := by
  rw [pendingConstants_of_code hs h.awaits, pendingConstants_of_lineComment h.awaits]
  have hcounts : (w.flush.statement.isNested || w.flush.statement.isExecutable) = false :=
    h.counts
  rw [listed, listed, hcounts, h.counts]
  exact EnumConstant.ofParts_ofWords _ _ h.word

/-- Where no constant is held, a line comment changes nothing. -/
theorem pendingConstants_commented (hs : w.span = .code) (h : ¬ w.HoldsConstant) :
    w.commented.pendingConstants = w.pendingConstants := by
  rw [commented]
  cases hin : w.inArguments with
  | true => rfl
  | false =>
      rw [if_neg Bool.false_ne_true]
      cases hw : w.awaitsConstants with
      | false =>
          rw [pendingConstants_of_not_awaits hw,
            pendingConstants_of_not_awaits (w := { w with span := .lineComment }) hw]
      | true =>
          rw [pendingConstants_of_code hs hw, pendingConstants_of_lineComment hw]
          cases hcounts : w.statement.isNested || w.statement.isExecutable with
          | true =>
              have hflush : (w.flush.statement.isNested
                || w.flush.statement.isExecutable) = true := hcounts
              rw [listed, listed, hcounts, hflush]
              rfl
          | false =>
              -- then no word is pending
              have hwords : w.statement.words = [] :=
                Classical.byContradiction fun hne => h ⟨hw, hin, hcounts, hne⟩
              have hflush : w.flush = w := by
                show { w with statement := w.statement.flush } = w
                rw [Statement.flush, hwords, Part.ofWords, List.append_nil, ← hwords]
              rw [hflush]

theorem commented_draft (w : Walk) : w.commented.draft = w.draft := by
  rw [commented]
  split <;> rfl

theorem finish_of_awaits (h : w.awaitsConstants = true) :
    w.finish.value = w.draft.withShape (.enumShape w.draft.interfaces
      (w.draft.constants ++ w.pendingConstants)) := by
  rw [finish_value, Draft.shape_of_enum (d := w.finalDraft) (kind_of_awaitsConstants h)]
  rfl

/-- **A line comment hides the word that is pending.**  What is finished after
    it is the same, but for the constant that this word would have become. -/
theorem finish_commented (hs : w.span = .code) :
    (¬ w.HoldsConstant → w.commented.finish.value = w.finish.value)
      ∧ (w.HoldsConstant → w.commented.finish.value = w.finish.value.dropConstant
          ∧ w.finish.value.dropConstant ≠ w.finish.value) := by
  refine ⟨fun h => ?_, fun h => ?_⟩
  · rw [finish_value, finish_value, finalDraft, finalDraft, commented_draft,
      pendingConstants_commented hs h]
  · obtain ⟨c, hc⟩ := h.pendingConstants hs
    have hcommented : w.commented = { w with span := .lineComment } := by
      rw [commented, h.outside]
      rfl
    have hfinish : w.finish.value = w.draft.withShape (.enumShape w.draft.interfaces
        (w.draft.constants ++ w.commented.pendingConstants ++ [c])) := by
      rw [finish_of_awaits h.awaits, hcommented, List.append_assoc, ← hc]
    have hdrop : w.finish.value.dropConstant = w.draft.withShape
        (.enumShape w.draft.interfaces
          (w.draft.constants ++ w.commented.pendingConstants)) := by
      rw [hfinish]
      show w.draft.withShape (.enumShape _ (List.dropLast _)) = _
      rw [List.dropLast_concat]
    refine ⟨?_, fun heq => ?_⟩
    · have hawaits : w.commented.awaitsConstants = true := by
        rw [hcommented]
        exact h.awaits
      rw [hdrop, finish_of_awaits hawaits, commented_draft]
    · rw [hdrop, hfinish] at heq
      have hshape : Shape.enumShape _ _ = Shape.enumShape _ _ :=
        congrArg Declaration.shape heq
      injection hshape with _ hlist
      exact absurd hlist (by simp)

end Walk

/-! ## Where reader and walk are in ordinary text together -/

/-- Reader and walk stay together to the end of a text. -/
theorem Synced.read {extra : List String} (hextra : ∀ m ∈ commentMarks, m ∉ extra)
    (r : Reader) (cs : List Char) :
    ∀ (o : Opener) (w : Walk), Synced r o cs w → r.BlocksHidden cs →
      ∃ o', Synced (r.read extra cs).1 o' [] (w.steps (r.read extra cs).2) := by
  fun_induction Reader.read extra r cs with
  | case1 r =>
      intro o w h _
      exact ⟨o, h⟩
  | case2 r cs ih =>
      intro o w h hb
      have hread := hb [] cs rfl
      rw [Reader.read_nil] at hread
      rw [prepend_fst, prepend_snd, Walk.steps_append]
      exact ih o _ (h.newline hread) hb.nextLine
  | case3 r c cs hc k ih =>
      intro o w h hb
      rw [prepend_fst, prepend_snd, Walk.steps_append]
      exact ih _ _ (h.step hextra).2 (hb.take hc extra)

/-- If no text block that is opened where words count holds a line end, the walk
    over a source that ends in ordinary text ends in ordinary code. -/
theorem span_walkOver {extra : List String} (hextra : ∀ m ∈ commentMarks, m ∉ extra)
    {a : List Char} (hblocks : TextBlocksHidden (String.ofList a))
    (hm : (Reader.read extra {} a).1.mode = .code) :
    (walkOver extra a).span = .code := by
  rw [TextBlocksHidden, String.toList_ofList] at hblocks
  have hstart : Synced {} .line a (Walk.step {} (Token.lineNumber 1)).value := by
    refine ⟨?_, fun _ => rfl, fun _ => wordSafe_nil rfl _⟩
    rw [Walk.step_lineNumber]
    rfl
  obtain ⟨o, hend⟩ := Synced.read hextra {} a .line _ hstart hblocks
  have hclose := (hend.close extra).expects
  rw [Reader.span_eq_code (.inr hm), Walk.expects_code, ← Walk.steps_append] at hclose
  rw [walkOver, tokenize_eq_read, String.toList_ofList]
  exact hclose

/-! ## Comments at the ends of lines -/

/-- A source that ends, where words count, in a word that is about to become a
    constant. -/
structure EndsInConstant (extra : List String) (a : List Char) : Prop where
  capturing : (Reader.read extra {} a).1.gather.capturing = true
  holds : (walkOver extra a).HoldsConstant

section

variable {extra : List String} {a t : List Char}

/-- What a walk that knows line texts takes over from one that knows none. -/
theorem Walk.of_unsigned {w v : Walk} (h : w.unsigned = v) :
    w.span = v.span ∧ w.annotation = v.annotation
      ∧ (w.HoldsConstant ↔ v.HoldsConstant) := by
  subst h
  exact ⟨rfl, rfl, fun h => ⟨h.awaits, h.outside, h.counts, h.word⟩,
    fun h => ⟨h.awaits, h.outside, h.counts, h.word⟩⟩

theorem commentTokens_not_line (extra : List String) (n : Nat) (t : List Char) :
    ∀ u ∈ commentTokens extra n t, u.kind.isLine = false := by
  intro u hu
  obtain ⟨word, -, rfl⟩ := List.mem_map.mp hu
  exact (Token.inLine_ofWord extra n word).not_line

variable {P : List Token} (hs : (Walk.steps {} P).span = .code)
  (ha : Walk.annotation (Walk.steps {} P) ≠ .named)
  (hk : Keyword.isKeyword extra "//" = false) (n : Nat) (t : List Char)

include hs ha hk

/-- Every walk over `P` goes through a line comment after it. -/
theorem Walk.run_comment_append {w : Walk} (hw : w.unsigned = Walk.steps {} P)
    (R : List Token) :
    w.span = .code
      ∧ (w.run (commentTokens extra n t ++ R)).value = (w.commented.run R).value := by
  obtain ⟨hspan, hannotated, -⟩ := Walk.of_unsigned hw
  rw [← hspan] at hs
  rw [← hannotated] at ha
  exact ⟨hs, Walk.run_append_ok (Walk.run_commentTokens hs ha hk n t) R⟩

/-- Before the number of a line the tokens of a line comment have no effect. -/
theorem Declaration.ofTokens_comment_line (m : Nat) (us : List Token) :
    (ofTokens (P ++ (commentTokens extra n t ++ Token.lineNumber m :: us))).value
      = (ofTokens (P ++ Token.lineNumber m :: us)).value := by
  rw [ofTokens_insert_words (commentTokens_not_line extra n t) (F := id), Except.map_id]
  · rfl
  · intro w hw
    obtain ⟨hspan, hrun⟩ := Walk.run_comment_append hs ha hk n t hw
      (Token.lineNumber m :: us)
    have hline : w.commented.step (Token.lineNumber m) = w.step (Token.lineNumber m) := by
      rw [Walk.step_lineNumber, Walk.step_lineNumber, Walk.lineNumber_commented hspan]
    rw [hrun, Walk.run, Walk.run, hline, Except.map_id]
    rfl

/-- At the end they do to the outcome what they do to the walk. -/
theorem Declaration.ofTokens_comment_append {F : Declaration → Declaration}
    (hF : ∀ w : Walk, w.unsigned = Walk.steps {} P → w.span = .code →
      w.commented.finish.value = F w.finish.value) :
    (ofTokens (P ++ commentTokens extra n t)).value = (ofTokens P).value.map F := by
  have hinsert := ofTokens_insert_words (P := P) (R := [])
    (commentTokens_not_line extra n t) (F := F) fun w hw => by
      obtain ⟨hspan, hrun⟩ := Walk.run_comment_append hs ha hk n t hw []
      rw [hrun]
      exact congrArg Except.ok (hF w hw hspan)
  rwa [List.append_nil, List.append_nil] at hinsert

/-- They hide the constant that is held there, and nothing else. -/
theorem Declaration.ofTokens_comment_end :
    (¬ (Walk.steps {} P).HoldsConstant →
        (ofTokens (P ++ commentTokens extra n t)).value = (ofTokens P).value)
      ∧ ((Walk.steps {} P).HoldsConstant →
        (ofTokens (P ++ commentTokens extra n t)).value
          = (ofTokens P).value.map dropConstant) := by
  refine ⟨fun h => ?_, fun h => ?_⟩
  · have hsame := ofTokens_comment_append hs ha hk n t (F := id) fun w hw hspan =>
      (Walk.finish_commented hspan).1 (mt (Walk.of_unsigned hw).2.2.mp h)
    rwa [Except.map_id] at hsame
  · exact ofTokens_comment_append hs ha hk n t fun w hw hspan =>
      ((Walk.finish_commented hspan).2 ((Walk.of_unsigned hw).2.2.mpr h)).1

end

/-- **TRAILING LINE COMMENTS ARE INVISIBLE, UNLESS THE SOURCE ENDS IN A CONSTANT.**
    Put a line comment at the end of a line, `a` being the source up to there and
    `b` the rest.  If the line ends in ordinary text outside angle brackets, and
    the walk in ordinary code and not after the name of an annotation, then the
    outline stays the same but for its signatures.  The one exception is the last
    line of a source that ends in a word which is about to become a constant: this
    constant is lost.  The walk is in ordinary code if no text block that is opened
    where words count holds a line end. -/
theorem outline_trailing_comment (settings : Settings)
    (hextra : ∀ m ∈ commentMarks, m ∉ settings.ignoredKeywords)
    {a b t : List Char} (hb : b = [] ∨ ∃ c, b = '\n' :: c) (ht : '\n' ∉ t)
    (hmode : (Reader.read settings.ignoredKeywords {} a).1.mode = .code)
    (hangle : (Reader.read settings.ignoredKeywords {} a).1.gather.angle = 0)
    (hnamed : Walk.annotation (walkOver settings.ignoredKeywords a) ≠ .named) :
    (TextBlocksHidden (String.ofList a) →
        (walkOver settings.ignoredKeywords a).span = .code)
      ∧ ((walkOver settings.ignoredKeywords a).span = .code →
        (¬ (b = [] ∧ EndsInConstant settings.ignoredKeywords a) →
          (outline (String.ofList (a ++ trailingComment t ++ b)) settings).value.map
              Declaration.unsigned
            = (outline (String.ofList (a ++ b)) settings).value.map
              Declaration.unsigned)
        ∧ (b = [] → EndsInConstant settings.ignoredKeywords a →
          (outline (String.ofList (a ++ trailingComment t)) settings).value.map
              Declaration.unsigned
            = ((outline (String.ofList a) settings).value.map
                Declaration.unsigned).map Declaration.dropConstant
          ∧ ∀ d, (outline (String.ofList a) settings).value = .ok d →
              d.dropConstant ≠ d)) := by
  refine ⟨fun hblocks => span_walkOver hextra hblocks hmode, fun hspan => ?_⟩
  have hk := isKeyword_of_commentMark (by decide : "//" ∈ commentMarks)
    (hextra "//" (by decide))
  obtain ⟨hspoken, hline, hnext⟩ :=
    spoken_tokenize_trailingComment settings.ignoredKeywords hmode hangle ht
  have hwalk : walkOver settings.ignoredKeywords a
      = Walk.steps {} (spoken (tokenize (String.ofList a) settings.ignoredKeywords)) :=
    Walk.steps_spoken _ _
  rw [hwalk] at hnamed hspan
  refine ⟨fun hnot => ?_, ?_⟩
  · rw [outline, outline, ← Declaration.ofTokens_spoken, ← Declaration.ofTokens_spoken]
    rcases hb with rfl | ⟨c, rfl⟩
    · rw [List.append_nil, List.append_nil, hspoken]
      cases hcap : (Reader.read settings.ignoredKeywords {} a).1.gather.capturing with
      | true =>
          refine (Declaration.ofTokens_comment_end hspan hnamed hk _ t).1 fun hholds => ?_
          rw [← hwalk] at hholds
          exact hnot ⟨rfl, hcap, hholds⟩
      | false => rw [if_neg Bool.false_ne_true, List.append_nil]
    · rw [tokenize_append_newline, tokenize_append_newline, spoken_append, spoken_append,
        hspoken, hline, hnext, List.append_assoc]
      split
      · exact Declaration.ofTokens_comment_line hspan hnamed hk _ t _ _
      · rfl
  · rintro rfl hends
    refine ⟨?_, fun d hd => ?_⟩
    · rw [outline, outline, ← Declaration.ofTokens_spoken, ← Declaration.ofTokens_spoken,
        hspoken, if_pos hends.capturing]
      exact (Declaration.ofTokens_comment_end hspan hnamed hk _ t).2 (hwalk ▸ hends.holds)
    · obtain ⟨ix, w, -, hrun, rfl⟩ := Declaration.exists_run_of_ofTokens hd
      obtain ⟨hcode, -, hiff⟩ := Walk.of_unsigned (Walk.unsigned_of_run hrun)
      rw [← hwalk] at hspan
      exact ((Walk.finish_commented (hcode.trans hspan)).2 (hiff.mpr hends.holds)).2

/-- Comments after a line of a class, and after an enumeration whose constants are
    closed by its brace. -/
theorem outline_trailing_comment_enum :
    (outline "class A \x7b // a; b\nint x; \x7d" {}).value.map Declaration.unsigned
        = (outline "class A \x7b\nint x; \x7d" {}).value.map Declaration.unsigned
      ∧ (outline "enum E \x7b A, B \x7d // x" {}).value.map Declaration.unsigned
        = ((outline "enum E \x7b A, B \x7d" {}).value.map
            Declaration.unsigned).map Declaration.dropConstant
      ∧ ((outline "enum E \x7b A, B \x7d" {}).value.toOption.map Declaration.shape)
        = some (.enumShape [] [⟨"A", "0"⟩, ⟨"B", "1"⟩])
      ∧ ((outline "enum E \x7b A, B \x7d // x" {}).value.toOption.map Declaration.shape)
        = some (.enumShape [] [⟨"A", "0"⟩]) := by
  refine ⟨?_, ?_, by decide +kernel, by decide +kernel⟩
  · have h := outline_trailing_comment {} nofun
      (a := ['c', 'l', 'a', 's', 's', ' ', 'A', ' ', '{'])
      (b := ['\n', 'i', 'n', 't', ' ', 'x', ';', ' ', '}']) (t := ['a', ';', ' ', 'b'])
      (.inr ⟨_, rfl⟩) (by decide) (by decide +kernel) (by decide +kernel)
      (by decide +kernel)
    exact (h.2 (by decide +kernel)).1 (by simp)
  · have h := outline_trailing_comment {} nofun
      (a := ['e', 'n', 'u', 'm', ' ', 'E', ' ', '{', ' ', 'A', ',', ' ', 'B', ' ', '}'])
      (b := []) (t := ['x'])
      (.inl rfl) (by decide) (by decide +kernel) (by decide +kernel)
      (by decide +kernel)
    exact ((h.2 (by decide +kernel)).2 rfl ⟨by decide +kernel, by decide +kernel,
      by decide +kernel, by decide +kernel, by decide +kernel⟩).1

end JavaOutline
