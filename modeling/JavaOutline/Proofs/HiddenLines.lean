import JavaOutline.Proofs.LineNumber
import JavaOutline.Proofs.Moves

/-! # Lines without words

    A walk carries the text of every line, but it quotes only the line on
    which a statement starts, and a statement starts at a word or a keyword.
    The text of a line on which none of them stands is therefore never seen.

    `Alike` says that two token lists differ at most in the texts of lines
    that are hidden in this sense, and `ofTokens_alike` that they have the
    same declaration and the same reports.  The argument is a frame argument:
    every step of a walk commutes with exchanging the line texts
    (`step_withLines`) as long as its statement starts on a visible line
    (`Placed`). -/

namespace JavaOutline

variable {hidden : Int → Prop}

/-! ## Line texts -/

namespace LineIndex

/-- The two give the same text for every line that is not hidden. -/
def AgreeOff (hidden : Int → Prop) (ix jx : LineIndex) : Prop :=
  ∀ n, ¬ hidden n → ix.text n = jx.text n

theorem AgreeOff.refl (ix : LineIndex) : AgreeOff hidden ix ix :=
  fun _ _ => rfl

theorem text_cons (n m : Int) (s : String) (ix : LineIndex) :
    text ((n, s) :: ix) m = if m = n then s else ix.text m := by
  by_cases h : m = n
  · rw [if_pos h, text, List.lookup_cons, beq_iff_eq.mpr h]
    rfl
  · rw [if_neg h, text, List.lookup_cons, beq_eq_false_iff_ne.mpr h]
    rfl

/-- A new entry for a line, the same text if the line is visible. -/
theorem AgreeOff.cons {ix jx : LineIndex} (h : AgreeOff hidden ix jx) {n : Int}
    {s t : String} (hst : ¬ hidden n → s = t) :
    AgreeOff hidden ((n, s) :: ix) ((n, t) :: jx) := by
  intro m hm
  rw [text_cons, text_cons]
  by_cases hmn : m = n
  · rw [if_pos hmn, if_pos hmn, hst (hmn ▸ hm)]
  · rw [if_neg hmn, if_neg hmn, h m hm]

end LineIndex

/-! ## Token lists that differ in hidden lines -/

/-- The two lists, read from line `n` on, differ at most in the texts of
    hidden lines, and no word or delimiter stands on a hidden line. -/
inductive Alike (hidden : Int → Prop) : Int → List Token → List Token → Prop where
  | nil {n : Int} : Alike hidden n [] []
  | lineNumber {n : Int} {ts us : List Token} (m : Nat) :
      Alike hidden m ts us →
      Alike hidden n (Token.lineNumber m :: ts) (Token.lineNumber m :: us)
  | sign {n : Int} {ts us : List Token} (m : Nat) {l k : List Char}
      (h : ¬ hidden n → l = k) : Alike hidden n ts us →
      Alike hidden n (Token.sign m l :: ts) (Token.sign m k :: us)
  | token {n : Int} {ts us : List Token} {t : Token}
      (ht : t.kind.isLine = false) (hn : ¬ hidden n) : Alike hidden n ts us →
      Alike hidden n (t :: ts) (t :: us)

/-- Words and delimiters in front of two lists. -/
theorem Alike.tokens {n : Int} {ts us : List Token} (h : Alike hidden n ts us)
    (hn : ¬ hidden n) {xs : List Token} (hx : ∀ t ∈ xs, t.kind.isLine = false) :
    Alike hidden n (xs ++ ts) (xs ++ us) := by
  induction xs with
  | nil => exact h
  | cons x xs ih =>
      exact .token (hx x (by simp)) hn (ih (fun t ht => hx t (by simp [ht])))

theorem LineIndex.gather_token (n : Int) (ix : LineIndex) {t : Token}
    (ht : t.kind.isLine = false) (ts : List Token) :
    gather n ix (t :: ts) = gather n ix ts := by
  rw [gather]
  cases hk : t.kind <;> first | rfl | (rw [hk] at ht; exact nomatch ht)

theorem LineIndex.gather_tokens (n : Int) (ix : LineIndex) {xs : List Token}
    (hx : ∀ t ∈ xs, t.kind.isLine = false) (ts : List Token) :
    gather n ix (xs ++ ts) = gather n ix ts := by
  induction xs with
  | nil => rfl
  | cons x xs ih =>
      rw [List.cons_append, gather_token n ix (hx x (by simp))]
      exact ih fun t ht => hx t (by simp [ht])

/-- Lists that differ in hidden lines are refused together, or have indexes
    that agree on the others. -/
theorem LineIndex.gather_alike {n : Int} {ts us : List Token}
    (h : Alike hidden n ts us) {ix jx : LineIndex}
    (hix : AgreeOff hidden ix jx) :
    (∃ e, gather n ix ts = .error e ∧ gather n jx us = .error e)
      ∨ ∃ ix' jx', gather n ix ts = .ok ix' ∧ gather n jx us = .ok jx'
          ∧ AgreeOff hidden ix' jx' := by
  induction h generalizing ix jx with
  | nil => exact .inr ⟨ix, jx, rfl, rfl, hix⟩
  | lineNumber m _ ih =>
      simp only [gather, Token.lineNumber]
      cases hm : Text.integer? (toString m) with
      | none => exact .inl ⟨toString m, rfl, rfl⟩
      | some k =>
          rw [Text.eq_of_integer?_toString hm]
          exact ih hix
  | sign m hlk _ ih =>
      simp only [gather, Token.sign]
      exact ih (hix.cons (fun hn => by rw [hlk hn]))
  | token ht _ _ ih =>
      rw [gather_token _ _ ht, gather_token _ _ ht]
      exact ih hix

/-- What comes after a computation matters only at its value. -/
theorem Logged.bind_congr_value {α β : Type} {x : Logged α}
    {f g : α → Logged β} (h : f x.value = g x.value) : x >>= f = x >>= g := by
  apply Logged.ext
  · rw [value_bind, value_bind, h]
  · rw [log_bind, log_bind, h]

/-- A function taken out of a branch, whose condition may be decided in two
    ways. -/
theorem ite_eq_apply {α β : Type} (f : α → β) {c : Prop} {i j : Decidable c}
    {x y : β} {x' y' : α} (hx : c → x = f x') (hy : ¬ c → y = f y') :
    @ite _ c i x y = f (@ite _ c j x' y') := by
  by_cases h : c
  · rw [if_pos h, if_pos h, hx h]
  · rw [if_neg h, if_neg h, hy h]

/-! ## Statements start on visible lines -/

namespace Walk

/-- The walk is on line `n`, and the statement under construction, if there
    is one, starts on a visible line. -/
structure Placed (hidden : Int → Prop) (n : Int) (w : Walk) : Prop where
  line : w.cursor.line = n
  started : w.statement.parts ≠ [] ∨ w.statement.words ≠ [] →
    w.cursor.statementLine ≠ none
  visible : ∀ m ∈ w.cursor.statementLine, ¬ hidden m

variable {n : Int} {w v : Walk}

/-- No statement is under construction. -/
theorem Placed.of_empty (hl : v.cursor.line = n) (hp : v.statement.parts = [])
    (hw : v.statement.words = []) (hc : v.cursor.statementLine = none) :
    Placed hidden n v := by
  refine ⟨hl, ?_, ?_⟩
  · rintro (h | h)
    · exact absurd hp h
    · exact absurd hw h
  · rw [hc]
    exact fun _ h => nomatch h

/-- The statement starts where it did, and is begun only if it was. -/
theorem Placed.congr (h : Placed hidden n w)
    (hl : v.cursor.line = w.cursor.line)
    (hc : v.cursor.statementLine = w.cursor.statementLine)
    (hs : v.statement.parts ≠ [] ∨ v.statement.words ≠ [] →
      w.statement.parts ≠ [] ∨ w.statement.words ≠ []) : Placed hidden n v := by
  refine ⟨hl.trans h.line, ?_, ?_⟩
  · rw [hc]
    exact fun hv => h.started (hs hv)
  · rw [hc]
    exact h.visible

/-- The statement starts here at the latest. -/
theorem Placed.marked (h : Placed hidden n w) (hn : ¬ hidden n)
    (hv : v.cursor = w.cursor.mark) : Placed hidden n v := by
  refine ⟨?_, ?_, ?_⟩
  · rw [hv]
    exact h.line
  · rw [hv]
    exact fun _ h => nomatch h
  · rw [hv]
    intro m hm
    cases hs : w.cursor.statementLine with
    | none =>
        rw [Cursor.mark, hs] at hm
        cases hm
        rw [h.line]
        exact hn
    | some k =>
        rw [Cursor.mark, hs] at hm
        cases hm
        exact h.visible _ (by rw [hs]; rfl)

theorem Placed.flush (h : Placed hidden n w) : Placed hidden n w.flush := by
  refine h.congr rfl rfl ?_
  rintro (hp | hw)
  · by_cases hws : w.statement.words = []
    · refine .inl fun hparts => hp ?_
      show w.statement.parts ++ Part.ofWords w.statement.words = []
      rw [hparts, hws]
      rfl
    · exact .inr hws
  · exact absurd rfl hw

/-- A change that marks nothing begins no statement. -/
theorem Placed.gather (h : Placed hidden n w) (hn : ¬ hidden n) (c : Change) :
    Placed hidden n (w.gather c) := by
  cases c with
  | word | part => exact h.marked hn rfl
  | flush => exact h.flush
  | nested | executable | params => exact h.flush.congr rfl rfl id
  | name =>
      -- the lone word is dropped, so only the parts are left
      refine h.congr rfl rfl ?_
      rintro (hp | hw)
      · exact .inl hp
      · exact absurd rfl hw

theorem Placed.closeDoc (h : Placed hidden n w) (drops : Bool) :
    Placed hidden n
      (w.take (.closeDoc drops (drops && w.statement.words = []))).value := by
  cases drops with
  | false => exact h.congr rfl rfl id
  | true =>
      by_cases hw : w.statement.words = []
      · rw [hw]
        exact .of_empty h.line rfl hw rfl
      · rw [decide_eq_false hw]
        exact h.congr rfl rfl fun _ => .inr hw

/-- Every step on a visible line keeps statements on visible lines; only a
    line number leads to another line. -/
theorem Placed.step (h : Placed hidden n w) {t : Token}
    (ht : t.kind ≠ .lineNumber) (hn : t.kind.isLine = false → ¬ hidden n) :
    Placed hidden n (w.step t).value := by
  obtain ⟨m, hm, hstep⟩ := w.exists_move t
  rw [hstep]
  cases hm with
  | @aside _ _ r => cases r <;> exact h.congr rfl rfl id
  | line hk => exact absurd hk ht
  | @gather c _ _ hg => exact (h.gather (hn hg.notLine) c).congr rfl rfl id
  | @license c hg => exact (h.gather (hn hg.notLine) c).congr rfl rfl id
  | type _ hk => exact h.marked (hn (by rw [hk]; rfl)) rfl
  | closeDoc => exact h.closeDoc _
  | @ends c =>
      obtain ⟨d, hd⟩ := w.flush.close_frame c
      rw [take, Logged.value_bind, hd]
      exact .of_empty h.line rfl rfl rfl

/-! ## Steps commute with exchanging the line texts -/

/-- The walk with other line texts. -/
def withLines (ix : LineIndex) (w : Walk) : Walk :=
  { w with cursor := { w.cursor with lines := ix } }

variable {ix : LineIndex}

section

variable (ix : LineIndex) (w : Walk)

@[simp] theorem withLines_draft : (w.withLines ix).draft = w.draft := rfl

@[simp] theorem withLines_statement :
    (w.withLines ix).statement = w.statement := rfl

@[simp] theorem withLines_span : (w.withLines ix).span = w.span := rfl

@[simp] theorem withLines_passing :
    Walk.annotation (w.withLines ix) = w.annotation := rfl

@[simp] theorem withLines_fileBodyOpen :
    (w.withLines ix).fileBodyOpen = w.fileBodyOpen := rfl

@[simp] theorem withLines_inType : (w.withLines ix).inType = w.inType := rfl

@[simp] theorem withLines_skips : (w.withLines ix).skips = w.skips := rfl

end

/-- A statement that has parts quotes a visible line. -/
theorem Placed.signature (h : Placed hidden n w)
    (hix : w.cursor.lines.AgreeOff hidden ix) (hp : w.statement.parts ≠ []) :
    (w.withLines ix).cursor.signature = w.cursor.signature := by
  cases hs : w.cursor.statementLine with
  | none => exact absurd hs (h.started (.inl hp))
  | some m =>
      have hstart : w.cursor.startLine = m := by rw [Cursor.startLine, hs]; rfl
      have hm : ¬ hidden m := h.visible m (by rw [hs]; rfl)
      show LineIndex.text ix w.cursor.startLine
        = LineIndex.text w.cursor.lines w.cursor.startLine
      rw [hstart, hix m hm]

/-- Constants are read without a look at the line. -/
theorem readAs_withLines {r : Role}
    (hsig : r ≠ .nothing → r ≠ .constants →
      (w.withLines ix).cursor.signature = w.cursor.signature) :
    (w.withLines ix).readAs r = withLines ix <$> w.readAs r := by
  cases r with
  | nothing | loose | dependency | package => rfl
  | constants =>
      simp only [readAs, addConstants, map_bind, map_pure]
      rfl
  | field =>
      simp only [readAs, addField, map_bind, map_pure, hsig (by decide) (by decide)]
      rfl
  | method =>
      simp only [readAs, addMethod, map_bind, map_pure, hsig (by decide) (by decide)]
      rfl
  | header =>
      simp only [readAs, applyHeader, map_bind, map_pure, hsig (by decide) (by decide)]
      rfl
  | unnamed =>
      simp only [readAs, hsig (by decide) (by decide)]
      rfl

theorem close_withLines {c : Closing}
    (hsig : c.role ≠ .nothing → c.role ≠ .constants →
      (w.withLines ix).cursor.signature = w.cursor.signature) :
    (w.withLines ix).close c = withLines ix <$> w.close c := by
  have hread := readAs_withLines hsig
  apply Logged.ext
  · simp only [close, hread, Logged.value_map]
    rfl
  · simp only [close, hread, Logged.log_map]

/-- A move does not look at the line texts, unless it ends a statement. -/
theorem take_withLines {m : Move}
    (hsig : ∀ c, m = .ends c → c.role ≠ .nothing → c.role ≠ .constants →
      (w.withLines ix).cursor.signature = w.cursor.signature) :
    (w.withLines ix).take m = withLines ix <$> w.take m := by
  cases m with
  | aside _ _ r events =>
      cases r <;> exact Logged.ext rfl (List.append_nil events).symm
  | gather c _ events =>
      cases c <;> exact Logged.ext rfl (List.append_nil events).symm
  | license c => cases c <;> rfl
  | line | type => rfl
  | closeDoc drops clears =>
      simp only [take, map_bind]
      cases clears <;> rfl
  | ends c =>
      have hclose := close_withLines (w := w.flush) (hsig c rfl)
      simp only [take, map_bind]
      show (w.flush.withLines ix).close c >>= _ = _
      rw [hclose, bind_map_left]
      rfl

/-- **A step does not look at the line texts**, except at those of visible
    lines. -/
theorem step_withLines (hw : Placed hidden n w)
    (hix : w.cursor.lines.AgreeOff hidden ix) (t : Token) :
    (w.withLines ix).step t = withLines ix <$> w.step t := by
  have hview : (w.withLines ix).view = w.view := rfl
  have hmoves := w.view.moves t
  rw [step_eq, step_eq, hview]
  refine take_withLines fun c hends hread _ => ?_
  rw [hends] at hmoves
  cases hmoves with
  | ends _ _ hcloses => exact hw.flush.signature hix (hcloses.parts hread)

/-! ## Whole walks -/

/-- No step changes the line texts. -/
theorem step_lines (hw : Placed hidden n w) (t : Token) :
    (w.step t).value.cursor.lines = w.cursor.lines := by
  have h : w.step t = withLines w.cursor.lines <$> w.step t :=
    step_withLines hw (LineIndex.AgreeOff.refl _) t
  rw [h]
  rfl

theorem lineNumber_withLines (w : Walk) (text : String) :
    (w.withLines ix).lineNumber text = (w.lineNumber text).withLines ix := rfl

theorem lineNumber_lines (w : Walk) (text : String) :
    (w.lineNumber text).cursor.lines = w.cursor.lines := rfl

theorem Placed.goTo (h : Placed hidden n w) {text : String} {m : Int}
    (hm : Text.integer? text = some m) :
    Placed hidden m (w.lineNumber text) := by
  refine ⟨?_, h.started, h.visible⟩
  show (Text.integer? text).getD w.cursor.line = m
  rw [hm]
  rfl

/-- A line number that is not refused leads to its line. -/
theorem Placed.lineNumber (h : Placed hidden n w) {m : Nat}
    (hr : w.refusal? (Token.lineNumber m) = none) :
    Placed hidden m (w.lineNumber (toString m)) := by
  cases hm : Text.integer? (toString m) with
  | none =>
      simp only [refusal?, Token.lineNumber, hm] at hr
      cases hr
  | some k =>
      rw [← Text.eq_of_integer?_toString hm]
      exact h.goTo hm

/-- **Walks over lists that differ in hidden lines stay together.** -/
theorem run_alike {ts us : List Token} (h : Alike hidden n ts us)
    (hw : Placed hidden n w) (hix : w.cursor.lines.AgreeOff hidden ix) :
    (w.withLines ix).run us = Except.map (withLines ix) <$> w.run ts := by
  induction h generalizing w with
  | nil => rfl
  | lineNumber m _ ih =>
      simp only [run]
      rw [show (w.withLines ix).refusal? (Token.lineNumber m)
        = w.refusal? (Token.lineNumber m) from rfl]
      cases hr : w.refusal? (Token.lineNumber m) with
      | some f => rfl
      | none =>
          simp only [step_lineNumber, pure_bind, lineNumber_withLines]
          -- the only step to another line, hidden or not
          apply ih (hw.lineNumber hr)
          rw [lineNumber_lines]
          exact hix
  | sign m _ _ ih =>
      simp only [run, step_sign, pure_bind]
      exact ih hw hix
  | @token n ts us t ht hn _ ih =>
      have hkind : t.kind ≠ .lineNumber := by
        intro hk
        rw [hk] at ht
        cases ht
      simp only [run]
      rw [show (w.withLines ix).refusal? t = w.refusal? t from rfl]
      cases hr : w.refusal? t with
      | some f => rfl
      | none =>
          simp only [step_withLines hw hix, bind_map_left, map_bind]
          apply Logged.bind_congr_value
          apply ih (hw.step hkind (fun _ => hn))
          rw [step_lines hw]
          exact hix

/-- The end of a walk does not look at the line texts. -/
theorem finish_withLines : (w.withLines ix).finish = w.finish := by
  have hconstants : (w.withLines ix).finishConstants
      = withLines ix <$> w.finishConstants := by
    have hclose : ∀ v u : Walk, (v.withLines ix).close u.view.lastConstants
        = withLines ix <$> v.close u.view.lastConstants := by
      intro v u
      refine close_withLines fun hnothing hconstants => ?_
      exact (u.view.lastConstants_role.elim hnothing hconstants).elim
    have hview : (w.withLines ix).view = w.view := rfl
    have hwait : (w.withLines ix).awaitsConstants = w.awaitsConstants := rfl
    rw [finishConstants_eq, finishConstants_eq, hview, hwait, withLines_span]
    split
    · split
      · exact hclose w.flush w.flush
      · exact hclose w w
    · rfl
  simp only [finish, hconstants, bind_map_left, withLines_draft]

end Walk

/-- **Lines without words do not matter**: token lists that differ at most in
    the texts of such lines have the same declaration and the same reports. -/
theorem Declaration.ofTokens_alike {ts us : List Token}
    (h : Alike hidden 1 ts us) :
    Declaration.ofTokens us = Declaration.ofTokens ts := by
  rcases LineIndex.gather_alike h (LineIndex.AgreeOff.refl [])
    with ⟨e, hts, hus⟩ | ⟨ix, jx, hts, hus, hagree⟩
  · simp only [ofTokens, LineIndex.ofTokens, hts, hus]
  · have hrun := Walk.run_alike (w := { cursor := { lines := ix } }) h
      (.of_empty rfl rfl rfl rfl) hagree
    simp only [Walk.withLines] at hrun
    simp only [ofTokens, LineIndex.ofTokens, hts, hus, hrun, bind_map_left]
    apply Logged.bind_congr_value
    cases (Walk.run { cursor := { lines := ix } } ts).value with
    | error f => rfl
    | ok w =>
        show (w.withLines jx).finish >>= _ = _
        rw [Walk.finish_withLines]

end JavaOutline
