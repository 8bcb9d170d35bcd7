import JavaOutline.Outline
import JavaOutline.Proofs.CarriageReturns
import JavaOutline.Proofs.Positions
import JavaOutline.Proofs.SettledFields
import JavaOutline.Proofs.TrailingComments

/-! # Line endings

    Whether lines end in a newline or in a carriage return and a newline matters
    little to the outline of a source.

    1. At a line end the carriage return joins the last word of the line, if it shows
       at all.  This is harmless among the arguments of an annotation, where words
       are passed over, and after the equals sign of a field (`ReturnHarmless`).
    2. Line by line the walks over the two texts match, so they end with the same
       declaration (`Walk.Matches.run_withReturns`).
    3. A file is read with newlines only, so there it never matters
       (`FileTree.Holds.readText`). -/

namespace JavaOutline

open Source Text

/-! ## The last word of a line -/

/-- A word that is nothing but a word. -/
structure OrdinaryWord (extra : List String) (word : String) : Prop where
  keyword : Keyword.isKeyword extra word = false
  mark : word ∉ commentMarks
  notAt : startsWith '@' word = false

/-- It joins the statement. -/
theorem OrdinaryWord.step {extra : List String} {word : String}
    (h : OrdinaryWord extra word) {w : Walk} (hs : w.span = .code)
    (ha : w.inArguments = false) (n : Nat) :
    (w.step (Token.ofWord extra n word)).value
      = { w.addWord word with annotation := .absent } := by
  have hmark := h.mark
  simp only [commentMarks, List.mem_cons, List.not_mem_nil, or_false, not_or] at hmark
  obtain ⟨hline, hblock, hdoc, hclose⟩ := hmark
  rw [Walk.step_of_not_inArguments ha, Walk.plainStep, Token.ofWord, h.keyword]
  exact Walk.symbol_word hs ⟨hclose, hdoc, hblock, hline⟩ h.notAt

namespace Reader

/-- The word that the end of the line would end. -/
def lastWord (r : Reader) : String := String.ofList r.gather.word.reverse

/-- Its token, if there is such a word. -/
def lastTokens (extra : List String) (r : Reader) : List Token :=
  r.gather.wordToken extra r.line

theorem lastTokens_eq (extra : List String) (r : Reader) :
    r.lastTokens extra
      = if r.gather.word = [] then [] else [Token.ofWord extra r.line r.lastWord] := by
  rw [lastTokens, Gather.wordToken, lastWord]
  simp only [List.isEmpty_iff]

variable {extra : List String} {r : Reader}

/-- The last word of a line with the character that its carriage return becomes. -/
theorem ReturnCounts.toList_lastWord (h : r.ReturnCounts) :
    ∃ c, (c = '\r' ∨ c = ' ') ∧ r.withReturn.gather.word ≠ []
      ∧ r.withReturn.lastWord.toList = r.lastWord.toList ++ [c] := by
  obtain ⟨c, hc, hr⟩ := h.withReturn
  refine ⟨c, hc, ?_, ?_⟩
  · rw [hr]
    exact List.cons_ne_nil _ _
  · rw [lastWord, lastWord, hr, String.toList_ofList, String.toList_ofList,
      List.reverse_cons]

/-- It does not change what stands before an equals sign. -/
theorem ReturnCounts.equals (h : r.ReturnCounts) (heq : holds '=' r.lastWord = true) :
    holds '=' r.withReturn.lastWord = true
      ∧ before '=' r.withReturn.lastWord = before '=' r.lastWord := by
  obtain ⟨c, -, -, htext⟩ := h.toList_lastWord
  obtain ⟨hsplit, hbefore⟩ := toList_of_holds_equals heq
  have hsplit' : r.withReturn.lastWord.toList
      = (before '=' r.lastWord).toList ++ '=' :: ((Text.after '=' r.lastWord).toList ++ [c]) := by
    rw [htext, hsplit, List.append_assoc]
    rfl
  obtain ⟨hholds, hsame⟩ := before_equals hsplit' hbefore
  rw [String.ofList_toList] at hsame
  exact ⟨hholds, hsame⟩

/-- It leaves a word that is no keyword nothing but a word. -/
theorem ReturnCounts.ordinary (h : r.ReturnCounts)
    (hk : Keyword.isKeyword extra r.withReturn.lastWord = false)
    (hword : r.gather.word = [] ∨ OrdinaryWord extra r.lastWord) :
    OrdinaryWord extra r.withReturn.lastWord := by
  obtain ⟨c, hc, -, htext⟩ := h.toList_lastWord
  refine ⟨hk, ?_, ?_⟩
  · intro hmark
    have hplain : ∀ m ∈ commentMarks, '\r' ∉ m.toList ∧ ' ' ∉ m.toList := by decide
    have hmem : c ∈ r.withReturn.lastWord.toList := by
      rw [htext]
      simp
    rcases hc with rfl | rfl
    · exact (hplain _ hmark).1 hmem
    · exact (hplain _ hmark).2 hmem
  · have hat : startsWith '@' r.lastWord = false := by
      rcases hword with hnil | hword
      · rw [startsWith, lastWord, hnil, String.toList_ofList]
        rfl
      · exact hword.notAt
    rw [startsWith] at hat
    rw [startsWith, htext]
    cases hcs : r.lastWord.toList with
    | nil => rcases hc with rfl | rfl <;> rfl
    | cons d cs =>
        rw [hcs] at hat
        exact hat

end Reader

/-! ## Harmless line ends -/

/-- A line ends in the initializer of a field that is complete, and its last word is
    nothing but a word, with or without a carriage return. -/
structure EndsInInitializer (extra : List String) (r : Reader) (w : Walk) : Prop where
  span : w.span = .code
  annotation : w.annotation = .absent
  inType : w.inType = true
  closed : w.awaitsConstants = false
  word : r.gather.word = [] ∨ OrdinaryWord extra r.lastWord
  returned : Keyword.isKeyword extra r.withReturn.lastWord = false
  field : (w.steps (r.lastTokens extra)).statement.DeclaresField

/-- A carriage return at the end of a line does not matter: it does not show in the
    tokens, or it joins a word that is passed over, or one that comes after the
    equals sign of a field. -/
inductive ReturnHarmless (extra : List String) (r : Reader) (w : Walk) : Prop where
  | unseen (h : ¬ r.ReturnCounts)
  | argument (h : w.inArguments = true)
  | initializer (h : EndsInInitializer extra r w)

namespace Walk

variable {extra : List String} {r : Reader} {w v : Walk}

/-- The last word of a line is never refused. -/
theorem run_lastTokens (w : Walk) (extra : List String) (r : Reader) :
    (w.run (r.lastTokens extra)).value = .ok (w.steps (r.lastTokens extra)) := by
  rw [r.lastTokens_eq]
  split
  · rfl
  · rw [run_cons (w.refusal?_ofWord r.line r.lastWord)]
    rfl

/-- The last word of a line in an initializer. -/
theorem Matches.initializer (h : w.Matches v) (hr : EndsInInitializer extra r w)
    (hcounts : r.ReturnCounts)
    (hstarted : w.flush.statement.parts ≠ [] → w.cursor.statementLine ≠ none) :
    (w.steps (r.lastTokens extra)).Matches (v.steps (r.withReturn.lastTokens extra)) := by
  obtain ⟨-, -, hne, -⟩ := hcounts.toList_lastWord
  have hreturned := hcounts.ordinary hr.returned hr.word
  have hargs : w.inArguments = false := by rw [inArguments, hr.annotation]
  -- the two walks with the same cursor and another statement each
  obtain ⟨s, rfl, hs⟩ : ∃ s, v = w.withStatement s ∧ (s = w.statement
      ∨ (w.statement.DeclaresField ∧ s.DeclaresField
        ∧ s.verdict = w.statement.verdict)) := by
    cases h with
    | same => exact ⟨w.statement, rfl, .inl rfl⟩
    | field s inType closed started left right verdict =>
        exact ⟨s, rfl, .inr ⟨left, right, verdict⟩⟩
  let u : Walk := { w with cursor := w.cursor.mark, annotation := .absent }
  have hright : (w.withStatement s).steps (r.withReturn.lastTokens extra)
      = u.withStatement (s.addWord r.withReturn.lastWord) := by
    rw [Reader.lastTokens_eq, if_neg hne]
    exact hreturned.step (w := w.withStatement s) hr.span hargs r.line
  by_cases hnil : r.gather.word = []
  · -- a line without a last word gets one
    have hleft : w.steps (r.lastTokens extra) = w := by
      rw [r.lastTokens_eq, if_pos hnil]
      rfl
    have hfield := hr.field
    rw [hleft] at hfield
    have hstart := hstarted hfield.settled.flush_parts_ne_nil
    have hu : u.withStatement (s.addWord r.withReturn.lastWord)
        = w.withStatement (s.addWord r.withReturn.lastWord) := by
      have hmark : w.cursor.mark = w.cursor := by
        obtain ⟨n, hn⟩ := Option.ne_none_iff_exists'.mp hstart
        rw [Cursor.mark, hn, Option.getD_some, ← hn]
      show ({ w with cursor := w.cursor.mark, annotation := .absent, statement := _ } : Walk)
        = { w with statement := _ }
      rw [hmark, ← hr.annotation]
    have hadd : (s.addWord r.withReturn.lastWord).DeclaresField
        ∧ (s.addWord r.withReturn.lastWord).verdict = w.statement.verdict := by
      rcases hs with rfl | ⟨-, hs, hverdict⟩
      · exact hfield.addWord _
      · exact ⟨(hs.addWord _).1, (hs.addWord _).2.trans hverdict⟩
    rw [hleft, hright, hu]
    exact .field _ hr.inType hr.closed hstart hfield hadd.1 hadd.2
  · have hleft : w.steps (r.lastTokens extra)
        = u.withStatement (w.statement.addWord r.lastWord) := by
      rw [r.lastTokens_eq, if_neg hnil]
      exact (hr.word.resolve_left hnil).step hr.span hargs r.line
    have hfield := hr.field
    rw [hleft] at hfield
    have hadd : (s.addWord r.withReturn.lastWord).DeclaresField
        ∧ (s.addWord r.withReturn.lastWord).verdict
          = (w.statement.addWord r.lastWord).verdict := by
      rcases hs with rfl | ⟨hw, hs, hverdict⟩
      · exact Statement.DeclaresField.addWord_congr hfield hcounts.equals
      · refine ⟨(hs.addWord _).1, ?_⟩
        rw [(hs.addWord _).2, (hw.addWord _).2, hverdict]
    rw [hleft, hright]
    exact .field (w := u.withStatement (w.statement.addWord r.lastWord)) _ hr.inType
      hr.closed (Option.some_ne_none _) hfield hadd.1 hadd.2

/-- **At a harmless line end the walks match.** -/
theorem Matches.lineEnd (h : w.Matches v) (hdoc : w.Undocumented)
    (hstarted : w.flush.statement.parts ≠ [] → w.cursor.statementLine ≠ none)
    (hr : ReturnHarmless extra r w) :
    (w.steps (r.lastTokens extra)).Matches (v.steps (r.withReturn.lastTokens extra)) := by
  by_cases hcounts : r.ReturnCounts
  · cases hr with
    | unseen hunseen => exact absurd hcounts hunseen
    | argument hin =>
        -- words are passed over there
        have hin' : v.inArguments = true := by cases h <;> exact hin
        have hnone : ∀ (x : Walk) (q : Reader), x.inArguments = true →
            x.steps (q.lastTokens extra) = x := by
          intro x q hx
          rw [q.lastTokens_eq]
          split
          · rfl
          · exact step_ofWord_of_inArguments hx extra q.line q.lastWord
        rw [hnone w r hin, hnone v r.withReturn hin']
        exact h
    | initializer hend => exact h.initializer hend hcounts hstarted
  · rw [Reader.withReturn_of_not hcounts, r.lastTokens_eq]
    split
    · exact h
    · exact h.step hdoc _

end Walk

/-! ## Whole texts -/

theorem Reader.lineEnd_eq (extra : List String) (r : Reader) :
    r.lineEnd extra
      = r.lastTokens extra
        ++ [Token.sign r.line r.text.reverse, Token.lineNumber (r.line + 1)] := by
  rw [lineEnd, close, List.append_assoc]
  rfl

/-- What the end of a line adds after its last word. -/
def Reader.lineTokens (r : Reader) : List Token :=
  [Token.sign r.line r.text.reverse, Token.lineNumber (r.line + 1)]

/-- The tokens of a text after its first line. -/
theorem Reader.tokens_line (extra : List String) (r : Reader) (l t : List Char) :
    r.tokens extra (l ++ '\n' :: t)
      = (r.read extra l).2 ++ ((r.read extra l).1.lastTokens extra
          ++ ((r.read extra l).1.lineTokens
            ++ (r.read extra l).1.nextLine.tokens extra t)) := by
  rw [tokens_of_read (read_append_newline extra r l t), lineEnd_eq]
  simp only [List.append_assoc]
  rfl

/-- With carriage returns only the last word of the line differs. -/
theorem Reader.tokens_line_withReturns (extra : List String) (r : Reader)
    {l : List Char} (hl : '\n' ∉ l) (t : List Char) :
    r.tokens extra (withReturns (l ++ '\n' :: t))
      = (r.read extra l).2 ++ ((r.read extra l).1.withReturn.lastTokens extra
          ++ ((r.read extra l).1.lineTokens
            ++ (r.read extra l).1.nextLine.tokens extra (withReturns t))) := by
  rw [withReturns_append_newline hl, tokens_return extra r hl, lineEnd_eq]
  simp only [List.append_assoc]
  rfl

/-- The texts of lines do not change. -/
theorem LineIndex.gather_withReturns (extra : List String) (t : List Char) :
    ∀ (r : Reader) (n : Int) (ix : LineIndex),
      gather n ix (r.tokens extra (withReturns t)) = gather n ix (r.tokens extra t) := by
  have hwords : ∀ r : Reader, ∀ u ∈ r.lastTokens extra, u.kind.isLine = false := by
    intro r u hu
    rw [r.lastTokens_eq] at hu
    split at hu
    · exact absurd hu List.not_mem_nil
    · rw [List.mem_singleton.mp hu]
      exact (Token.inLine_ofWord extra r.line r.lastWord).not_line
  induction t using Source.line_induction with
  | last l hl =>
      intro r n ix
      rw [withReturns_of_not_mem hl]
  | line l t hl ih =>
      intro r n ix
      rw [Reader.tokens_line_withReturns extra r hl, Reader.tokens_line]
      refine gather_congr (fun n ix => ?_) n ix _
      rw [gather_tokens n ix (hwords _), gather_tokens n ix (hwords _)]
      exact gather_congr (ih _) n ix _

/-- Tokens that both texts have fail on both walks or leave them matching. -/
theorem Walk.Matches.run_walkAt {ix : LineIndex} {us ts : List Token} {v : Walk}
    (hm : (walkAt ix us).Matches v)
    (hdoc : ∀ ks, ks <+: ts → (walkAt ix (us ++ ks)).Undocumented) :
    (∃ f, ((walkAt ix us).run ts).value = .error f ∧ (v.run ts).value = .error f)
      ∨ ∃ v', ((walkAt ix us).run ts).value = .ok (walkAt ix (us ++ ts))
          ∧ (v.run ts).value = .ok v' ∧ (walkAt ix (us ++ ts)).Matches v' := by
  have hsteps : ∀ ks, (walkAt ix us).steps ks = walkAt ix (us ++ ks) := by
    intro ks
    exact (Walk.steps_append _ us ks).symm
  have hdoc' : ∀ ks, ks <+: ts → ((walkAt ix us).steps ks).Undocumented := by
    intro ks hks
    rw [hsteps]
    exact hdoc ks hks
  rcases hm.run hdoc' with hfail | ⟨w', v', hw, hv, hm'⟩
  · exact .inl hfail
  · obtain rfl : w' = walkAt ix (us ++ ts) := (Walk.eq_steps_of_run hw).trans (hsteps ts)
    exact .inr ⟨v', hw, hv, hm'⟩

/-- **Walks over the two texts end with the same declaration, or fail alike.** -/
theorem Walk.Matches.run_withReturns (extra : List String) {ix : LineIndex}
    (t : List Char) :
    ∀ {r : Reader} {us : List Token} {v : Walk}, (walkAt ix us).Matches v →
      (∀ a b, t = a ++ '\n' :: b →
        ReturnHarmless extra (r.read extra a).1 (walkAt ix (us ++ (r.read extra a).2))) →
      (∀ ks, ks <+: r.tokens extra t → (walkAt ix (us ++ ks)).Undocumented) →
      (v.run (r.tokens extra (withReturns t))).value.map (·.finish.value)
        = ((walkAt ix us).run (r.tokens extra t)).value.map (·.finish.value) := by
  induction t using Source.line_induction with
  | last l hl =>
      intro r us v hm _ hdoc
      rw [withReturns_of_not_mem hl]
      rcases hm.run_walkAt hdoc with ⟨f, hw, hv⟩ | ⟨v', hw, hv, hm'⟩
      · rw [hw, hv]
      · rw [hw, hv]
        exact congrArg Except.ok hm'.finish
  | line l t hl ih =>
      intro r us v hm hends hdoc
      rw [forall_line_ends hl (P := fun a => ReturnHarmless extra (r.read extra a).1
        (walkAt ix (us ++ (r.read extra a).2)))] at hends
      obtain ⟨hfirst, hrest⟩ := hends
      rw [Reader.tokens_line] at hdoc
      rw [Reader.tokens_line, Reader.tokens_line_withReturns extra r hl]
      let q := (r.read extra l).1
      let A := (r.read extra l).2
      let W := q.lastTokens extra
      let E := q.lineTokens
      -- the line up to its last word
      have hdocLine : ∀ ks, ks <+: A → (walkAt ix (us ++ ks)).Undocumented := by
        intro ks hks
        exact hdoc ks (hks.trans (List.prefix_append _ _))
      rcases hm.run_walkAt hdocLine with ⟨f, hw, hv⟩ | ⟨v', hw, hv, hm'⟩
      · rw [Walk.run_append_error hw, Walk.run_append_error hv]
      rw [Walk.run_append_ok hw, Walk.run_append_ok hv]
      -- the last word, with and without the carriage return
      have hword := hm'.lineEnd (hdocLine A (List.prefix_refl A))
        (walkAt_started ix (us ++ A)) hfirst
      have hsteps : (walkAt ix (us ++ A)).steps W = walkAt ix (us ++ A ++ W) :=
        (Walk.steps_append _ (us ++ A) W).symm
      rw [Walk.run_append_ok (Walk.run_lastTokens _ extra q),
        Walk.run_append_ok (Walk.run_lastTokens v' extra q.withReturn)]
      rw [hsteps] at hword ⊢
      -- the end of the line, and the lines after it
      have hdocEnd : ∀ ks, ks <+: E → (walkAt ix (us ++ A ++ W ++ ks)).Undocumented := by
        intro ks hks
        rw [List.append_assoc, List.append_assoc]
        have hend := hks.trans (List.prefix_append E (q.nextLine.tokens extra t))
        exact hdoc (A ++ (W ++ ks)) ((List.prefix_append_right_inj A).mpr
          ((List.prefix_append_right_inj W).mpr hend))
      rcases hword.run_walkAt hdocEnd with ⟨f, hw, hv⟩ | ⟨v'', hw, hv, hm''⟩
      · rw [Walk.run_append_error hw, Walk.run_append_error hv]
      rw [Walk.run_append_ok hw, Walk.run_append_ok hv]
      refine ih hm'' (fun a b hab => ?_) fun ks hks => ?_
      · have hend := hrest a b hab
        rw [Reader.read_append_newline, prepend_fst, prepend_snd, Reader.lineEnd_eq] at hend
        simp only [← List.append_assoc] at hend
        exact hend
      · simp only [List.append_assoc]
        have hend := (List.prefix_append_right_inj E).mpr hks
        exact hdoc (A ++ (W ++ (E ++ ks))) ((List.prefix_append_right_inj A).mpr
          ((List.prefix_append_right_inj W).mpr hend))

/-! ## Files -/

/-- The file at `path` can be read, and its bytes stand for the characters `cs`. -/
def FileTree.Holds (t : FileTree) (path : Path) (charset : String) (cs : List Char) :
    Prop :=
  holds '\x00' charset = false ∧ holds '\x00' path.text = false
    ∧ ∃ bytes c, t.read path = .ok bytes ∧ Charset.ofName? charset = some c
      ∧ c.decode bytes = .ok cs ∧ c.lacksMark bytes = false

/-- A file is read with newlines only. -/
theorem FileTree.Holds.readText {t : FileTree} {path : Path} {charset : String}
    {cs : List Char} (h : t.Holds path charset (withReturns cs)) (hcs : '\r' ∉ cs) :
    t.readText path charset = .ok (String.ofList cs) := by
  obtain ⟨hcharset, hpath, bytes, c, hread, hname, hdecode, hmark⟩ := h
  rw [FileTree.readText, hcharset, hpath, hread]
  simp only [hname, hdecode, hmark, newlines_withReturns hcs]
  rfl

/-! ## Outlines -/

theorem unsigned_walkAt (ix : LineIndex) (ts : List Token) :
    (walkAt ix ts).unsigned = Walk.steps {} ts :=
  (Walk.steps_unsigned { cursor := { lines := ix } } ts).symm

/-- The texts of lines have no say in what is harmless. -/
theorem ReturnHarmless.of_unsigned {extra : List String} {r : Reader} {w : Walk}
    (h : ReturnHarmless extra r w.unsigned) : ReturnHarmless extra r w := by
  cases h with
  | unseen h => exact .unseen h
  | argument h => exact .argument h
  | initializer h =>
      have hfield := h.field
      rw [Walk.steps_unsigned] at hfield
      exact .initializer
        ⟨h.span, h.annotation, h.inType, h.closed, h.word, h.returned, hfield⟩

/-- If every line end is harmless and no doc comment stands in an initializer, the
    carriage returns do not matter to the outcome. -/
theorem ofTokens_withReturns {extra : List String} {source : String}
    (hends : ∀ a b, source.toList = a ++ '\n' :: b →
      ReturnHarmless extra (Reader.read extra {} a).1 (walkUpTo extra a))
    (hdoc : ∀ ts, ts <+: tokenize source extra → (Walk.steps {} ts).Undocumented) :
    (Declaration.ofTokens
        (tokenize (String.ofList (withReturns source.toList)) extra)).value
      = (Declaration.ofTokens (tokenize source extra)).value := by
  have hix : LineIndex.ofTokens (tokenize (String.ofList (withReturns source.toList)) extra)
      = LineIndex.ofTokens (tokenize source extra) := by
    rw [tokenize_eq_read, tokenize_eq_read, String.toList_ofList]
    exact LineIndex.gather_congr
      (LineIndex.gather_withReturns extra source.toList {}) 1 [] [Token.lineNumber 1]
  cases hlines : LineIndex.ofTokens (tokenize source extra) with
  | error text =>
      rw [Declaration.ofTokens_of_error hlines,
        Declaration.ofTokens_of_error (hix.trans hlines)]
  | ok ix =>
      rw [Declaration.ofTokens_of_ok hlines, Declaration.ofTokens_of_ok (hix.trans hlines),
        tokenize_eq_read, tokenize_eq_read, String.toList_ofList, Walk.run, Walk.run]
      cases Walk.refusal? { cursor := { lines := ix } } (Token.lineNumber 1) with
      | some f => rfl
      | none =>
          -- from the first line on the walks match
          have hsource := Walk.Matches.run_withReturns extra source.toList
            (r := {}) (Walk.Matches.same (w := walkAt ix [Token.lineNumber 1]))
          refine hsource (fun a b hab => .of_unsigned ?_) fun ks hks => ?_
          · rw [unsigned_walkAt]
            exact hends a b hab
          · have hundocumented := hdoc (Token.lineNumber 1 :: ks) (by
              rw [tokenize_eq_read]
              exact List.cons_prefix_cons.mpr ⟨rfl, hks⟩)
            rw [← unsigned_walkAt ix] at hundocumented
            exact hundocumented

/-- **LINE ENDINGS MATTER IN TYPE ARGUMENTS AND LITERALS ONLY.**  Put a carriage
    return before every line end of a source.

    1. The tokens stay the same if and only if at no line end, where words count, a
       literal is open or type arguments that a space can follow.
    2. Then the outline stays the same, with all that is reported.
    3. The declaration stays the same if this happens only among the arguments of an
       annotation or after the equals sign of a field, to a word that is nothing but
       a word, and no doc comment stands in an initializer.
    4. If the text is read from a file, the declaration is always the one of the
       source without the carriage returns. -/
theorem outline_withReturns (settings : Settings) (source : String) :
    (tokenize (String.ofList (withReturns source.toList)) settings.ignoredKeywords
          = tokenize source settings.ignoredKeywords
        ↔ ∀ a b, source.toList = a ++ '\n' :: b →
          ¬ (Reader.read settings.ignoredKeywords {} a).1.ReturnCounts)
      ∧ ((∀ a b, source.toList = a ++ '\n' :: b →
            ¬ (Reader.read settings.ignoredKeywords {} a).1.ReturnCounts) →
          outline (String.ofList (withReturns source.toList)) settings
            = outline source settings)
      ∧ ((∀ a b, source.toList = a ++ '\n' :: b →
            ReturnHarmless settings.ignoredKeywords
              (Reader.read settings.ignoredKeywords {} a).1
              (walkUpTo settings.ignoredKeywords a)) →
          (∀ ts, ts <+: tokenize source settings.ignoredKeywords →
            (Walk.steps {} ts).Undocumented) →
          (outline (String.ofList (withReturns source.toList)) settings).value
            = (outline source settings).value)
      ∧ ('\r' ∉ source.toList → ∀ (t : FileTree) (path : Path) (checking : Bool),
          t.Holds path settings.encoding (withReturns source.toList) →
          (outlineFile t.reader path checking settings).value
            = (outline source settings).value.mapError fun f => .promised (.refused f)) := by
  have htokens : tokenize (String.ofList (withReturns source.toList))
        settings.ignoredKeywords = tokenize source settings.ignoredKeywords
      ↔ ∀ a b, source.toList = a ++ '\n' :: b →
        ¬ (Reader.read settings.ignoredKeywords {} a).1.ReturnCounts := by
    rw [tokenize_eq_read, tokenize_eq_read, String.toList_ofList, List.cons.injEq,
      Reader.tokens_withReturns]
    exact and_iff_right rfl
  refine ⟨htokens, fun hends => ?_, fun hends hdoc => ofTokens_withReturns hends hdoc, ?_⟩
  · rw [outline, htokens.mpr hends]
    rfl
  · intro hsource t path checking hfile
    have hread := hfile.readText hsource
    rw [String.ofList_toList] at hread
    rw [outlineFile, sourceText, FileTree.reader, hread]
    rfl

/-- A text block in an initializer, and one in an annotation. -/
def blockSource : String :=
  "class A \x7b\nString s = \"\"\"\n\na\"\"\";\n@B(\"\"\"\nc\"\"\") int y;\n\x7d"

/-- No line end of it does any harm. -/
theorem returnHarmless_blockSource :
    ∀ a b, blockSource.toList = a ++ '\n' :: b →
      ReturnHarmless [] (Reader.read [] {} a).1 (walkUpTo [] a) := by
  have hlines : blockSource.toList
      = "class A \x7b".toList ++ '\n' :: ("String s = \"\"\"".toList ++ '\n'
        :: ([] ++ '\n' :: ("a\"\"\";".toList ++ '\n' :: ("@B(\"\"\"".toList ++ '\n'
          :: ("c\"\"\") int y;".toList ++ '\n' :: ['\x7d']))))) := by decide
  have hunseen : ∀ {r : Reader} {w : Walk}, r.mode = .code ∧ r.gather.angle = 0 →
      ReturnHarmless [] r w := by
    rintro r w ⟨hmode, hangle⟩
    refine .unseen fun h => ?_
    rcases h.joins with hliteral | ⟨-, hopen, -⟩
    · rw [hmode] at hliteral
      cases hliteral
    · exact hopen hangle
  -- both line ends of the text block stand in the same statement
  have hblock : ∀ {r : Reader} {w : Walk},
      (w.span = .code ∧ w.annotation = .absent ∧ w.inType = true ∧ w.awaitsConstants = false)
        ∧ (r.gather.word = [] ∨ r.lastWord = "\"\"\"")
        ∧ Keyword.isKeyword [] r.withReturn.lastWord = false
        ∧ (w.steps (r.lastTokens [])).statement.words = ["String", "s", "=", "\"\"\""]
        ∧ (w.steps (r.lastTokens [])).statement.parts = []
        ∧ (w.steps (r.lastTokens [])).statement.hasInitializer = true
        ∧ (w.steps (r.lastTokens [])).statement.hasParams = false
        ∧ (w.steps (r.lastTokens [])).statement.isHeader = false →
      ReturnHarmless [] r w := by
    rintro r w ⟨⟨hspan, habsent, hin, hclosed⟩, hword, hreturned, hwords, hparts,
      hinit, hparams, hheader⟩
    refine .initializer ⟨hspan, habsent, hin, hclosed, hword.imp id fun h => ?_, hreturned, ?_,
      hinit, hparams, hheader⟩
    · rw [h]
      exact ⟨by decide +kernel, by decide, by decide⟩
    · refine .words ["String", "s"] "=" ["\"\"\""] hwords (by decide) ?_ (by decide) (by decide)
      rw [hparts]
      decide
  rw [hlines]
  refine (forall_line_ends (by decide)).mpr ⟨?_, (forall_line_ends (by decide)).mpr ⟨?_,
    (forall_line_ends (by decide)).mpr ⟨?_, (forall_line_ends (by decide)).mpr ⟨?_,
      (forall_line_ends (by decide)).mpr ⟨?_, (forall_line_ends (by decide)).mpr ⟨?_,
        ?_⟩⟩⟩⟩⟩⟩
  · exact hunseen (by decide +kernel)
  · exact hblock (by decide +kernel)
  · exact hblock (by decide +kernel)
  · exact hunseen (by decide +kernel)
  · exact .argument (by decide +kernel)
  · exact hunseen (by decide +kernel)
  · intro a b hab
    have hmem : '\n' ∈ ['\x7d'] := by
      rw [hab]
      simp
    exact absurd hmem (by decide)

/-- An empty class on two lines, with a carriage return between them. -/
def returnsBytes : List UInt8 := [99, 108, 97, 115, 115, 32, 65, 123, 13, 10, 125]

/-- Text blocks take part in the tokens, but not in the declaration.  Type arguments
    that go over a line end take part in both. -/
theorem outline_withReturns_blocks :
    tokenize (String.ofList (withReturns blockSource.toList)) [] ≠ tokenize blockSource []
      ∧ (outline (String.ofList (withReturns blockSource.toList)) {}).value
        = (outline blockSource {}).value
      ∧ ((outline blockSource {}).value.toOption.map fun d => d.fields.map Field.name)
        = some ["s", "y"]
      ∧ ((outline "class A \x7b\nMap<B,\nC> x;\x7d" {}).value.toOption.map
          fun d => d.fields.map Field.type) = some ["Map<B, C>"]
      ∧ ((outline "class A \x7b\r\nMap<B,\r\nC> x;\x7d" {}).value.toOption.map
          fun d => d.fields.map Field.type) = some ["Map<B,  C>"]
      ∧ (outlineFile (FileTree.reader { files := [(["A.java"], returnsBytes)] })
          (Path.ofText "A.java") false {}).value
        = (outline "class A\x7b\n\x7d" {}).value.mapError fun f => .promised (.refused f) := by
  obtain ⟨htokens, -, hvalue, -⟩ := outline_withReturns {} blockSource
  obtain ⟨-, -, -, hfile⟩ := outline_withReturns {} "class A\x7b\n\x7d"
  refine ⟨fun hsame => ?_, hvalue returnHarmless_blockSource ?_, by decide +kernel,
    by decide +kernel, by decide +kernel, hfile (by decide) _ _ false ?_⟩
  · -- the first line of the text block
    have hcounts : (Reader.read [] {} "class A \x7b\nString s = \"\"\"".toList).1.ReturnCounts :=
      ⟨by decide +kernel, .inl (by decide +kernel)⟩
    exact htokens.mp hsame _ "\na\"\"\";\n@B(\"\"\"\nc\"\"\") int y;\n\x7d".toList (by decide) hcounts
  · intro ts hts hspan
    have hnone : ∀ n < (tokenize blockSource []).length + 1,
        (Walk.steps {} ((tokenize blockSource []).take n)).span ≠ .doc := by decide +kernel
    rw [List.prefix_iff_eq_take.mp hts] at hspan
    exact absurd hspan (hnone _ (Nat.lt_succ_of_le hts.length_le))
  · exact ⟨by decide, by decide +kernel, returnsBytes, .utf8, by decide +kernel, by decide +kernel,
      by decide +kernel, rfl⟩

end JavaOutline
