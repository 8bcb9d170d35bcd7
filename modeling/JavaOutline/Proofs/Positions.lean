import JavaOutline.Proofs.Growth
import JavaOutline.Proofs.LineMarks
import JavaOutline.Proofs.StepEffect
import Mathlib.Data.List.Induction

/-! # Positions

    Every member of an outline says on which line it starts and quotes that
    line.  This file proves that what it says is true.

    * A walk over a source is on the line of the token it takes, and knows the
      trimmed text of every line (`walkAt_line`, `gather_lineTokens`).
    * The line on which the statement under construction starts never goes back
      (`walkAt_startLine_le`), and the end of a statement brings it up to its own
      line.  Members are placed there, so their lines are in order.
    * A statement starts at the token that first marks it (`walkAt_marked`); the
      header of the type is placed there too. -/

namespace JavaOutline

open Source

/-! ## The texts of lines -/

namespace LineIndex

/-- The text of a line is the line without the blanks around it, and the lines
    before keep their texts. -/
theorem gather_lineTokens {extra : List String} {n : Nat} {s : LineStart}
    {ls : List (List Char)} {m : Int} {ix jx : LineIndex}
    (h : gather m ix (lineTokens extra n s ls) = .ok jx) :
    (∀ (i : Nat) l, ls[i]? = some l →
        jx.text ((n + i : Nat) : Int) = String.ofList (Text.trimChars l))
      ∧ ∀ k : Int, k < n → jx.text k = ix.text k := by
  induction ls generalizing n s m ix with
  | nil =>
      obtain rfl : ix = jx := Except.ok.inj h
      exact ⟨by simp, fun _ _ => rfl⟩
  | cons l ls ih =>
      rw [lineTokens, List.cons_append] at h
      have hbody := gather_lineNumber h
      rw [gather_tokens _ _ fun t ht =>
        (s.lineBody_onLine extra n l t ht).inLine.not_line] at hbody
      obtain ⟨hlater, hbefore⟩ := ih hbody
      refine ⟨?_, ?_⟩
      · intro i k hk
        cases i with
        | zero =>
            -- the entry of this line is in the index before the later lines
            obtain rfl : l = k := Option.some.inj hk
            rw [Nat.add_zero, hbefore n (by omega), text_cons, if_pos rfl]
            rfl
        | succ i =>
            rw [show n + (i + 1) = n + 1 + i by omega]
            exact hlater i k hk
      · intro k hk
        rw [hbefore k (by omega), text_cons, if_neg (by omega)]

end LineIndex

/-! ## The numbers of lines -/

theorem lineStarts_lineTokens (extra : List String) (n : Nat) (s : LineStart)
    (ls : List (List Char)) : lineStarts (lineTokens extra n s ls) = ls.length := by
  induction ls generalizing n s with
  | nil => rfl
  | cons l ls ih =>
      have hbody : lineStarts (s.lineBody extra n l ++ [Token.sign n l]) = 0 :=
        lineStarts_eq_zero fun t ht => (s.lineBody_sign extra n l t ht).2
      have hfirst : lineStarts [Token.lineNumber n] = 1 := rfl
      have hsplit : lineTokens extra n s (l :: ls)
          = [Token.lineNumber n] ++ (s.lineBody extra n l ++ [Token.sign n l])
            ++ lineTokens extra (n + 1) (s.next l) ls := by
        simp [lineTokens]
      rw [hsplit, lineStarts_append, lineStarts_append, hfirst, hbody, ih,
        List.length_cons]
      omega

section

variable {source : String} {extra : List String} {pre post : List Token} {t : Token}

/-- A token stands on the line that has started last. -/
theorem tokenize_line (h : tokenize source extra = pre ++ t :: post) :
    t.line = lineStarts (pre ++ [t]) := by
  have hline := lineTokens_line extra 1 {} (lines source.toList) pre h
  omega

/-- The first token is the number of the first line. -/
theorem lineStarts_pos (h : tokenize source extra = pre ++ post)
    (hpre : pre ≠ []) : 1 ≤ lineStarts pre := by
  obtain ⟨u, pre, rfl⟩ := List.exists_cons_of_ne_nil hpre
  rw [tokenize_eq_read] at h
  obtain ⟨rfl, -⟩ := List.cons.inj h
  show 1 ≤ lineStarts ([Token.lineNumber 1] ++ pre)
  rw [lineStarts_append]
  exact Nat.le_add_right 1 _

theorem lineStarts_le (h : tokenize source extra = pre ++ post) :
    lineStarts pre ≤ (source.toList.splitOn '\n').length := by
  have hall := lineStarts_lineTokens extra 1 {} (lines source.toList)
  rw [← tokenize, h, lineStarts_append, lines_eq_splitOn] at hall
  omega

/-- The number of a line can be read back from the token that starts it. -/
theorem integer?_of_lineNumber (hlines : LinesFit source)
    (h : tokenize source extra = pre ++ t :: post) (hk : t.kind = .lineNumber) :
    Text.integer? t.text = some t.line := by
  have ht : t ∈ tokenize source extra := by simp [h]
  have hform : ∀ u ∈ tokenize source extra, u.kind = .lineNumber →
      ∃ m : Nat, u = Token.lineNumber m := by
    rw [tokenize_eq_read, List.forall_mem_cons]
    refine ⟨fun _ => ⟨1, rfl⟩, Reader.forall_tokens extra ?_ ?_ {} source.toList ?_⟩
    · intro n u hu hkind
      have hnot := hu.inLine.not_line
      rw [hkind] at hnot
      exact nomatch hnot
    · exact fun n l hkind => nomatch hkind
    · exact fun m _ _ _ => ⟨m, rfl⟩
  obtain ⟨m, rfl⟩ := hform t ht hk
  obtain ⟨i, hi⟩ := Option.isSome_iff_exists.mp
    ((tokenize_accepted hlines extra _ ht).number rfl)
  rw [hi, Text.eq_of_integer?_toString hi]
  rfl

end

/-! ## Cursors along a walk -/

namespace Walk.Effect

variable {w v : Walk} {t : Token}

theorem lines (h : w.Effect t v) : v.cursor.lines = w.cursor.lines := by
  cases h with
  | line _ _ _ hc => exact (congrArg Cursor.lines hc :)
  | ends _ _ _ _ hc => exact (congrArg Cursor.lines hc :)
  | other _ _ hp =>
      rcases hp.cursor with hc | hc | hc <;> exact (congrArg Cursor.lines hc :)

/-- Only a line number leads to another line. -/
theorem cursor_line (h : w.Effect t v) (hk : t.kind ≠ .lineNumber) :
    v.cursor.line = w.cursor.line := by
  cases h with
  | line hkind _ _ _ => exact absurd hkind hk
  | ends _ _ _ _ hc => exact (congrArg Cursor.line hc :)
  | other _ _ hp =>
      rcases hp.cursor with hc | hc | hc <;> exact (congrArg Cursor.line hc :)

theorem cursor_lineNumber (h : w.Effect t v) (hk : t.kind = .lineNumber) :
    v.cursor.line = (Text.integer? t.text).getD w.cursor.line := by
  cases h with
  | line _ _ _ hc => exact (congrArg Cursor.line hc :)
  | ends hkind _ _ _ _ => rw [hk] at hkind; exact nomatch hkind
  | other hkind _ _ => exact absurd hk hkind

/-- As long as the lines do not go back, neither does the start of the
    statement. -/
theorem startLine_le (h : w.Effect t v)
    (hw : w.cursor.startLine ≤ w.cursor.line)
    (hline : w.cursor.line ≤ v.cursor.line) :
    w.cursor.startLine ≤ v.cursor.startLine
      ∧ v.cursor.startLine ≤ v.cursor.line := by
  have hmark : w.cursor.mark.startLine = w.cursor.startLine := rfl
  have hclear : w.cursor.clear.startLine = w.cursor.line := rfl
  cases h with
  | line _ _ _ hc =>
      rw [hc] at hline ⊢
      revert hw hline
      show w.cursor.startLine ≤ w.cursor.line → w.cursor.line ≤ _ → _ ∧ _ ≤ _
      generalize (Text.integer? t.text).getD w.cursor.line = m
      intro hw hline
      rw [Cursor.startLine] at hw
      rw [Cursor.startLine, Cursor.startLine]
      show w.cursor.statementLine.getD w.cursor.line
          ≤ w.cursor.statementLine.getD m
        ∧ w.cursor.statementLine.getD m ≤ m
      cases hs : w.cursor.statementLine with
      | none => exact ⟨hline, Int.le_refl m⟩
      | some k =>
          rw [hs] at hw
          exact ⟨Int.le_refl k, Int.le_trans hw hline⟩
  | ends _ _ _ _ hc =>
      rw [hc, hclear]
      exact ⟨hw, Int.le_refl _⟩
  | other _ _ hp =>
      rcases hp.cursor with hc | hc | hc
      · rw [hc]
        exact ⟨Int.le_refl _, hw⟩
      · rw [hc, hmark]
        exact ⟨Int.le_refl _, hw⟩
      · rw [hc, hclear]
        exact ⟨hw, Int.le_refl _⟩

end Walk.Effect

/-- A property of all beginnings of a list of tokens, one token at a time. -/
theorem forall_prefix {ts : List Token} {P : List Token → Prop} (hnil : P [])
    (hstep : ∀ pre t post, ts = pre ++ t :: post → P pre → P (pre ++ [t]))
    {pre post : List Token} (h : ts = pre ++ post) : P pre := by
  induction pre using List.reverseRecOn generalizing post with
  | nil => exact hnil
  | append_singleton pre t ih =>
      rw [List.append_assoc, List.singleton_append] at h
      exact hstep pre t post h (ih h)

/-- The walk after some tokens of a file whose lines have the texts `ix`. -/
def walkAt (ix : LineIndex) (ts : List Token) : Walk :=
  Walk.steps { cursor := { lines := ix } } ts

theorem walkAt_snoc (ix : LineIndex) (ts : List Token) (t : Token) :
    walkAt ix (ts ++ [t]) = ((walkAt ix ts).step t).value := by
  rw [walkAt, Walk.steps_append]
  rfl

theorem walkAt_effect (ix : LineIndex) (ts : List Token) (t : Token) :
    (walkAt ix ts).Effect t (walkAt ix (ts ++ [t])) := by
  rw [walkAt_snoc]
  exact Walk.effect _ t

section

variable {source : String} {extra : List String} (hlines : LinesFit source)
  (ix : LineIndex)

/-- What is known of the cursor after the tokens `ts`. -/
structure Cursor.Follows (c : Cursor) (ix : LineIndex) (ts : List Token) : Prop where
  lines : c.lines = ix
  line : c.line = max 1 (lineStarts ts)
  first : 1 ≤ c.startLine
  last : c.startLine ≤ c.line

include hlines

theorem walkAt_follows {pre post : List Token}
    (h : tokenize source extra = pre ++ post) :
    (walkAt ix pre).cursor.Follows ix pre := by
  refine forall_prefix (P := fun pre => (walkAt ix pre).cursor.Follows ix pre)
    ⟨rfl, rfl, Int.le_refl 1, Int.le_refl 1⟩ ?_ h
  intro pre t post hts ih
  have heffect := walkAt_effect ix pre t
  have hline : (walkAt ix (pre ++ [t])).cursor.line
      = max 1 (lineStarts (pre ++ [t])) := by
    have hstarts := lineStarts_pos (hts.trans (List.append_cons pre t post)) (by simp)
    by_cases hk : t.kind = .lineNumber
    · rw [heffect.cursor_lineNumber hk, integer?_of_lineNumber hlines hts hk,
        Option.getD_some, tokenize_line hts]
      omega
    · have hnone : lineStarts [t] = 0 :=
        lineStarts_eq_zero fun u hu => by rwa [List.mem_singleton.mp hu]
      rw [heffect.cursor_line hk, ih.line, lineStarts_append, hnone, Nat.add_zero]
  have hle : (walkAt ix pre).cursor.line ≤ (walkAt ix (pre ++ [t])).cursor.line := by
    rw [ih.line, hline, lineStarts_append]
    omega
  obtain ⟨hfirst, hlast⟩ := heffect.startLine_le ih.last hle
  exact ⟨heffect.lines.trans ih.lines, hline, Int.le_trans ih.first hfirst, hlast⟩

/-- A walk is on the line of the token that it takes. -/
theorem walkAt_line {pre post : List Token} {t : Token}
    (h : tokenize source extra = pre ++ t :: post) (hk : t.kind ≠ .lineNumber) :
    (walkAt ix pre).cursor.line = t.line := by
  have hnone : lineStarts [t] = 0 :=
    lineStarts_eq_zero fun u hu => by rwa [List.mem_singleton.mp hu]
  have hpre : pre ≠ [] := by
    rintro rfl
    rw [tokenize_eq_read] at h
    obtain ⟨rfl, -⟩ := List.cons.inj h
    exact hk rfl
  have hstarts := lineStarts_pos h hpre
  rw [(walkAt_follows hlines ix h).line, tokenize_line h, lineStarts_append, hnone]
  omega

/-- The start of the statement never goes back. -/
theorem walkAt_startLine_le {pre mid post : List Token}
    (h : tokenize source extra = pre ++ mid ++ post) :
    (walkAt ix pre).cursor.startLine ≤ (walkAt ix (pre ++ mid)).cursor.startLine := by
  induction mid using List.reverseRecOn generalizing post with
  | nil => exact Int.le_of_eq (by rw [List.append_nil])
  | append_singleton mid t ih =>
      have hts : tokenize source extra = pre ++ mid ++ t :: post := by
        rw [h]
        simp
      have hbefore := walkAt_follows hlines ix hts
      have hafter := walkAt_follows hlines ix
        (hts.trans (List.append_cons (pre ++ mid) t post))
      have hle : (walkAt ix (pre ++ mid)).cursor.line
          ≤ (walkAt ix (pre ++ mid ++ [t])).cursor.line := by
        rw [hbefore.line, hafter.line, lineStarts_append _ [t]]
        omega
      rw [← List.append_assoc]
      exact Int.le_trans (ih hts)
        ((walkAt_effect ix (pre ++ mid) t).startLine_le hbefore.last hle).1

/-- After the end of a statement the next one can only start on its line or
    later. -/
theorem walkAt_ended {pre mid post : List Token} {t : Token}
    (h : tokenize source extra = pre ++ t :: mid ++ post)
    (hk : t.kind = .statementEnd) (hcode : (walkAt ix pre).readsCode = true) :
    t.line ≤ (walkAt ix (pre ++ t :: mid)).cursor.startLine := by
  have hts : tokenize source extra = pre ++ t :: (mid ++ post) := by
    rw [h]
    simp
  have hstart : (walkAt ix (pre ++ [t])).cursor.startLine = t.line := by
    rw [← walkAt_line hlines ix hts (by rw [hk]; exact nofun)]
    cases walkAt_effect ix pre t with
    | line hkind _ _ _ => rw [hk] at hkind; exact nomatch hkind
    | ends _ _ _ _ hc => rw [hc]; rfl
    | other _ hother _ => rw [hother hk] at hcode; exact nomatch hcode
  have hafter : tokenize source extra = (pre ++ [t]) ++ mid ++ post := by
    rw [h]
    simp
  have hmono := walkAt_startLine_le hlines ix hafter
  rw [hstart, List.append_assoc, List.singleton_append] at hmono
  exact hmono

end

/-! ## Members -/

/-- The token `t` after the tokens `pre` ends a statement in ordinary code and
    adds the member number `i` of kind `k`, at the place `p`. -/
structure Completes (ix : LineIndex) (k : MemberKind) (i : Nat) (p : Place)
    (pre : List Token) (t : Token) : Prop where
  ending : t.kind = .statementEnd
  code : (walkAt ix pre).readsCode = true
  index : ((walkAt ix pre).draft.places k).length = i
  added : (walkAt ix (pre ++ [t])).draft.places k
    = (walkAt ix pre).draft.places k ++ [p]

/-- What is known of the members of kind `k` after the tokens `ts`. -/
structure Recorded (ix : LineIndex) (k : MemberKind) (ts : List Token) : Prop where
  sorted : ((walkAt ix ts).draft.places k).Pairwise fun p q => p.line ≤ q.line
  below : ∀ p ∈ (walkAt ix ts).draft.places k,
    p.line ≤ (walkAt ix ts).cursor.startLine
  completed : ∀ (i : Nat) p, ((walkAt ix ts).draft.places k)[i]? = some p →
    ∃ pre t post, ts = pre ++ t :: post ∧ Completes ix k i p pre t
      ∧ p = (walkAt ix pre).cursor.place

/-- No member is added by a token. -/
theorem Recorded.same {ix : LineIndex} {k : MemberKind} {ts : List Token}
    {t : Token} (h : Recorded ix k ts)
    (hplaces : (walkAt ix (ts ++ [t])).draft.places k
      = (walkAt ix ts).draft.places k)
    (hstart : (walkAt ix ts).cursor.startLine
      ≤ (walkAt ix (ts ++ [t])).cursor.startLine) :
    Recorded ix k (ts ++ [t]) := by
  refine ⟨?_, ?_, ?_⟩
  · rw [hplaces]
    exact h.sorted
  · rw [hplaces]
    exact fun p hp => Int.le_trans (h.below p hp) hstart
  · rw [hplaces]
    intro i p hp
    obtain ⟨pre, u, post, rfl, hcompletes, hplace⟩ := h.completed i p hp
    exact ⟨pre, u, post ++ [t], by simp, hcompletes, hplace⟩

/-- A member is added by the end of a statement. -/
theorem Recorded.added {ix : LineIndex} {k : MemberKind} {ts : List Token}
    {t : Token} (h : Recorded ix k ts) (hk : t.kind = .statementEnd)
    (hcode : (walkAt ix ts).readsCode = true)
    (hplaces : (walkAt ix (ts ++ [t])).draft.places k
      = (walkAt ix ts).draft.places k ++ [(walkAt ix ts).cursor.place])
    (hstart : (walkAt ix ts).cursor.startLine
      ≤ (walkAt ix (ts ++ [t])).cursor.startLine) :
    Recorded ix k (ts ++ [t]) := by
  refine ⟨?_, ?_, ?_⟩
  · rw [hplaces, List.pairwise_append]
    refine ⟨h.sorted, List.pairwise_singleton _ _, ?_⟩
    intro p hp q hq
    rw [List.mem_singleton.mp hq]
    exact h.below p hp
  · rw [hplaces]
    intro p hp
    rcases List.mem_append.mp hp with hp | hp
    · exact Int.le_trans (h.below p hp) hstart
    · rw [List.mem_singleton.mp hp]
      exact hstart
  · rw [hplaces]
    intro i p hp
    rw [List.getElem?_append] at hp
    split at hp
    · obtain ⟨pre, u, post, rfl, hcompletes, hplace⟩ := h.completed i p hp
      exact ⟨pre, u, post ++ [t], by simp, hcompletes, hplace⟩
    · obtain ⟨hi, hplace⟩ := List.getElem?_eq_some_iff.mp hp
      have hp : p = (walkAt ix ts).cursor.place := by
        rw [← hplace, List.getElem_singleton]
      refine ⟨ts, t, [], rfl, ⟨hk, hcode, ?_, ?_⟩, hp⟩
      · rw [List.length_singleton] at hi
        omega
      · rw [hp]
        exact hplaces

theorem walkAt_recorded {source : String} {extra : List String}
    (hlines : LinesFit source) (ix : LineIndex) (k : MemberKind)
    {pre post : List Token} (h : tokenize source extra = pre ++ post) :
    Recorded ix k pre := by
  refine forall_prefix (P := Recorded ix k) ?_ ?_ h
  · cases k <;> exact ⟨.nil, by simp [walkAt, Walk.steps, Draft.places], by
      simp [walkAt, Walk.steps, Draft.places]⟩
  · intro pre t post hts ih
    have hstart := walkAt_startLine_le hlines ix
      (hts.trans (List.append_cons pre t post))
    cases walkAt_effect ix pre t with
    | line _ hd _ _ => exact ih.same (by rw [hd]) hstart
    | other _ _ hp => exact ih.same (Draft.places_congr hp.fields hp.methods k) hstart
    | ends hk hcode hgains _ _ =>
        rcases hgains k with hsame | hadded
        · exact ih.same hsame hstart
        · exact ih.added hk hcode hadded hstart

/-! ## Headers -/

/-- The token `u` after the tokens `pre` marks the start of a statement, which
    is still the same one at the end of the tokens `mid` after it. -/
structure Marks (ix : LineIndex) (pre : List Token) (u : Token)
    (mid : List Token) : Prop where
  before : (walkAt ix pre).cursor.statementLine = none
  since : ∀ a b, mid = a ++ b →
    (walkAt ix (pre ++ u :: a)).cursor.statementLine = some u.line

theorem Marks.snoc {ix : LineIndex} {pre mid : List Token} {u t : Token}
    (h : Marks ix pre u mid)
    (ht : (walkAt ix (pre ++ u :: mid ++ [t])).cursor.statementLine = some u.line) :
    Marks ix pre u (mid ++ [t]) := by
  refine ⟨h.before, ?_⟩
  intro a b hab
  rcases List.append_eq_append_iff.mp hab with ⟨x, rfl, hx⟩ | ⟨x, rfl, -⟩
  · -- what follows `mid` is nothing or the new token
    rcases List.singleton_eq_append_iff.mp hx with ⟨rfl, -⟩ | ⟨rfl, -⟩
    · exact h.since _ [] (by simp)
    · rw [List.append_assoc] at ht
      exact ht
  · exact h.since a x rfl

/-- How a token moves the start of the statement. -/
theorem Walk.Effect.statementLine {w v : Walk} {t : Token} (h : w.Effect t v) :
    v.cursor.statementLine = w.cursor.statementLine
      ∨ (t.kind ≠ .lineNumber ∧ w.cursor.statementLine = none
        ∧ v.cursor.statementLine = some w.cursor.line)
      ∨ v.cursor.statementLine = none := by
  cases h with
  | line _ _ _ hc => exact .inl (congrArg Cursor.statementLine hc :)
  | ends _ _ _ _ hc => exact .inr (.inr (congrArg Cursor.statementLine hc :))
  | other hk _ hp =>
      rcases hp.cursor with hc | hc | hc
      · exact .inl (congrArg Cursor.statementLine hc)
      · have hmark : v.cursor.statementLine
            = some (w.cursor.statementLine.getD w.cursor.line) :=
          congrArg Cursor.statementLine hc
        cases hs : w.cursor.statementLine with
        | none =>
            rw [hs] at hmark
            exact .inr (.inl ⟨hk, rfl, hmark⟩)
        | some m =>
            rw [hs] at hmark
            exact .inl hmark
      · exact .inr (.inr (congrArg Cursor.statementLine hc :))

/-- A statement that has started was marked by a token on the line where it
    starts. -/
theorem walkAt_marked {source : String} {extra : List String}
    (hlines : LinesFit source) (ix : LineIndex) {ts post : List Token}
    (h : tokenize source extra = ts ++ post) {m : Int}
    (hm : (walkAt ix ts).cursor.statementLine = some m) :
    ∃ pre u mid, ts = pre ++ u :: mid ∧ Marks ix pre u mid ∧ u.line = m := by
  revert m
  refine forall_prefix (P := fun ts => ∀ {m : Int},
    (walkAt ix ts).cursor.statementLine = some m →
    ∃ pre u mid, ts = pre ++ u :: mid ∧ Marks ix pre u mid ∧ u.line = m) ?_ ?_ h
  · exact fun hm => nomatch hm
  · intro ts t post hts ih m hm
    rcases (walkAt_effect ix ts t).statementLine with hsame | ⟨hk, hnone, hmark⟩ | hnone
    · obtain ⟨pre, u, mid, rfl, hmarks, rfl⟩ := ih (hsame.symm.trans hm)
      exact ⟨pre, u, mid ++ [t], by simp, hmarks.snoc hm, rfl⟩
    · have hline : t.line = m := by
        rw [← walkAt_line hlines ix hts hk]
        exact Option.some.inj (hmark.symm.trans hm)
      refine ⟨ts, t, [], rfl, ⟨hnone, ?_⟩, hline⟩
      intro a b hab
      obtain ⟨rfl, -⟩ := List.nil_eq_append_iff.mp hab
      rw [hline]
      exact hm
    · exact nomatch hnone.symm.trans hm

/-- The token is the brace that ends the header of the file's type. -/
structure Walk.EndsHeader (w : Walk) (t : Token) : Prop where
  code : w.readsCode = true
  ending : t.kind = .statementEnd
  brace : t.text = "\x7b"
  header : w.statement.isHeader = true
  kept : w.flush.skips.value = false

theorem walkAt_headsType (ix : LineIndex) (ts : List Token) :
    (walkAt ix ts).HeadsType := by
  refine forall_prefix (P := fun ts => (walkAt ix ts).HeadsType) ?_ ?_
    (List.append_nil ts).symm
  · exact fun hheader => absurd hheader Bool.false_ne_true
  · intro ts t post _ ih
    cases walkAt_effect ix ts t with
    | line _ hd hs _ =>
        rw [Walk.HeadsType, Walk.inType, hd, hs]
        exact ih
    | ends _ _ _ hs _ =>
        rw [Walk.HeadsType, hs]
        exact fun hheader => absurd hheader Bool.false_ne_true
    | other _ _ hp => exact hp.header ih

/-- A statement that is under construction has started somewhere. -/
theorem walkAt_started (ix : LineIndex) (ts : List Token)
    (h : (walkAt ix ts).flush.statement.parts ≠ []) :
    (walkAt ix ts).cursor.statementLine ≠ none := by
  have hplaced : ∃ n, (walkAt ix ts).Placed (fun _ => False) n := by
    refine forall_prefix
      (P := fun ts => ∃ n, (walkAt ix ts).Placed (fun _ => False) n) ?_ ?_
      (List.append_nil ts).symm
    · exact ⟨1, .of_empty rfl rfl rfl rfl⟩
    · rintro ts t post - ⟨n, ih⟩
      rw [walkAt_snoc]
      by_cases hk : t.kind = .lineNumber
      · rw [Walk.step_of_isLine (by rw [hk]; rfl), Walk.plainStep, hk]
        exact ⟨_, rfl, ih.started, ih.visible⟩
      · exact ⟨n, ih.step hk fun _ => id⟩
  obtain ⟨n, hplaced⟩ := hplaced
  exact hplaced.flush.started (.inl h)

/-- The brace after the header writes what the header says, and ends the
    statement. -/
theorem Walk.EndsHeader.applies {w : Walk} {t : Token} (h : w.EndsHeader t) :
    (w.step t).value.draft
        = (w.draft.applyHeader w.flush.statement.parts w.statement.doc
            w.cursor.signature).value
      ∧ (w.step t).value.statement = {} := by
  have hspan : ¬ w.span ≠ .code := fun hne => hne (w.span_of_readsCode h.code)
  have hbrace : t.text ≠ ";" := by
    rw [h.brace]
    decide
  have hheader : w.flush.statement.isHeader = true := h.header
  rw [step_of_not_inArguments (w.not_inArguments_of_readsCode h.code), plainStep,
    h.ending]
  show (w.statementEnd t.text t.line).value.draft = _
    ∧ (w.statementEnd t.text t.line).value.statement = _
  rw [statementEnd, if_neg hspan]
  simp only [if_neg hbrace, Logged.value_bind, beginBlock, h.kept]
  refine ⟨?_, rfl⟩
  show (if _ then _ else _ : Walk).draft = _
  rw [blockStatement, if_pos hheader]
  split <;> rfl

/-- The brace after the header places the type where the header started, and no
    other header follows. -/
theorem Walk.EndsHeader.step {w : Walk} {t : Token} (h : w.EndsHeader t)
    (hw : w.HeadsType) :
    (w.step t).value.PastHeader
      ∧ (w.step t).value.draft.signature = w.cursor.signature := by
  obtain ⟨_, _, _, _, _, hd⟩ := w.draft.applyHeader_frame w.flush.statement.parts
    w.statement.doc w.cursor.signature
  have hstep := h.applies
  rw [hd] at hstep
  refine ⟨⟨?_, ?_⟩, ?_⟩
  · rw [inType, hstep.1]
    exact hw h.header
  · rw [hstep.2]
  · rw [hstep.1]
    rfl

/-! ## Whole sources -/

/-- The place is a line of the source: its number is that of a line, and its
    text is the line without the blanks around it. -/
structure Place.IsLineOf (source : String) (p : Place) : Prop where
  first : 1 ≤ p.line
  last : p.line ≤ (source.toList.splitOn '\n').length
  text : (source.toList.splitOn '\n')[(p.line - 1).toNat]?.map
      (fun l => String.ofList (Text.trimChars l)) = some p.signature

theorem walkAt_place {source : String} {extra : List String}
    (hlines : LinesFit source) {ix : LineIndex}
    (hix : LineIndex.ofTokens (tokenize source extra) = .ok ix)
    {pre post : List Token} (h : tokenize source extra = pre ++ post) :
    (walkAt ix pre).cursor.place.IsLineOf source := by
  have hfollows := walkAt_follows hlines ix h
  have hcount := lineStarts_le h
  have hsome : 1 ≤ (source.toList.splitOn '\n').length :=
    List.length_pos_iff.mpr (List.splitOnP_ne_nil _ _)
  have hlast : (walkAt ix pre).cursor.startLine
      ≤ (source.toList.splitOn '\n').length := by
    have hline := hfollows.line
    have hstart := hfollows.last
    omega
  have hfirst := hfollows.first
  refine ⟨hfirst, hlast, ?_⟩
  obtain ⟨i, hi⟩ : ∃ i : Nat, (walkAt ix pre).cursor.startLine = ((1 + i : Nat) : Int) :=
    ⟨((walkAt ix pre).cursor.startLine - 1).toNat, by omega⟩
  have hget := List.getElem?_eq_getElem (l := source.toList.splitOn '\n') (i := i)
    (by omega)
  obtain ⟨htexts, -⟩ := LineIndex.gather_lineTokens hix
  rw [lines_eq_splitOn] at htexts
  have htext := htexts i _ hget
  show ((source.toList.splitOn '\n')[((walkAt ix pre).cursor.startLine - 1).toNat]?).map _
    = some (LineIndex.text (walkAt ix pre).cursor.lines (walkAt ix pre).cursor.startLine)
  rw [hfollows.lines, hi, htext, show (((1 + i : Nat) : Int) - 1).toNat = i by omega,
    hget]
  rfl

/-- The end of a file changes neither the members nor the place of the type. -/
theorem Walk.finish_places (w : Walk) :
    (∀ k, w.finish.value.places k = w.draft.places k)
      ∧ w.finish.value.signature = w.draft.signature := by
  have hvalue : w.finish.value = w.finishConstants.value.draft.finish.value := rfl
  rw [hvalue, finishConstants_draft, Draft.finish_value]
  refine ⟨fun k => ?_, rfl⟩
  cases k <;> rfl

/-- **POSITIONS ARE TRUE.**  Every member of an outline is placed at a line of
    the source.  It was completed by the end of a statement in ordinary code;
    its line is not after the line of that token, and not before the line of any
    end of a statement in ordinary code before it.  The lines of the fields are
    in order, and so are those of the methods.  If a header was applied, the
    declaration quotes the line on which the header was first marked. -/
theorem outline_positions {source : String} (settings : Settings)
    (hlines : LinesFit source) :
    ∃ ix d, LineIndex.ofTokens (tokenize source settings.ignoredKeywords) = .ok ix
      ∧ (outline source settings).value = .ok d
      ∧ (∀ k (i : Nat) p, (d.places k)[i]? = some p →
          p.IsLineOf source
          ∧ ∃ pre t post,
            tokenize source settings.ignoredKeywords = pre ++ t :: post
            ∧ Completes ix k i p pre t ∧ p.line ≤ t.line
            ∧ ∀ a u b, pre = a ++ u :: b → u.kind = .statementEnd →
              (walkAt ix a).readsCode = true → u.line ≤ p.line)
      ∧ (∀ k, (d.places k).Pairwise fun p q => p.line ≤ q.line)
      ∧ ∀ pre t post,
          tokenize source settings.ignoredKeywords = pre ++ t :: post →
          (walkAt ix pre).EndsHeader t →
          ∃ a u b, pre = a ++ u :: b ∧ Marks ix a u b
            ∧ Place.IsLineOf source ⟨u.line, d.signature⟩ := by
  obtain ⟨ix, hix⟩ := LineIndex.gather_of_accepted
    (tokenize_accepted hlines settings.ignoredKeywords) 1 []
  obtain ⟨hplaces, hsignature⟩ := Walk.finish_places
    (walkAt ix (tokenize source settings.ignoredKeywords))
  have hall : ∀ k, Recorded ix k (tokenize source settings.ignoredKeywords) :=
    fun k => walkAt_recorded hlines ix k (List.append_nil _).symm
  refine ⟨ix, _, hix, outline_of_gather settings hlines hix, ?_, ?_, ?_⟩
  · intro k i p hp
    obtain ⟨pre, t, post, hts, hcompletes, rfl⟩ :=
      (hall k).completed i p ((congrArg (·[i]?) (hplaces k)).symm.trans hp)
    refine ⟨walkAt_place hlines hix hts, pre, t, post, hts, hcompletes, ?_, ?_⟩
    · rw [← walkAt_line hlines ix hts (by rw [hcompletes.ending]; exact nofun)]
      exact (walkAt_follows hlines ix hts).last
    · rintro a u b rfl hk hcode
      exact walkAt_ended hlines ix hts hk hcode
  · intro k
    exact (congrArg (List.Pairwise fun p q : Place => p.line ≤ q.line)
      (hplaces k)).mpr (hall k).sorted
  · intro pre t post hts hheader
    obtain ⟨hpast, hquoted⟩ := hheader.step (walkAt_headsType ix pre)
    rw [← walkAt_snoc] at hpast hquoted
    -- nothing after the brace changes the line text of the type
    have hkept : (walkAt ix (tokenize source settings.ignoredKeywords)).draft.signature
        = (walkAt ix pre).cursor.signature := by
      obtain ⟨_, _, _, _, hgrown⟩ := (hpast.steps post).draft
      have hsplit : walkAt ix (tokenize source settings.ignoredKeywords)
          = (walkAt ix (pre ++ [t])).steps post := by
        rw [hts, List.append_cons]
        exact Walk.steps_append _ _ _
      rw [hsplit, hgrown]
      exact hquoted
    cases hs : (walkAt ix pre).cursor.statementLine with
    | none =>
        exact absurd hs (walkAt_started ix pre
          (Walk.parts_ne_nil_of_skips hheader.kept))
    | some m =>
        obtain ⟨a, u, b, hpre, hmarks, rfl⟩ := walkAt_marked hlines ix hts hs
        refine ⟨a, u, b, hpre, hmarks, ?_⟩
        have hplace := walkAt_place hlines hix hts
        have hstart : (walkAt ix pre).cursor.startLine = u.line := by
          rw [Cursor.startLine, hs]
          rfl
        have hsame : (⟨u.line, (walkAt ix
            (tokenize source settings.ignoredKeywords)).finish.value.signature⟩ : Place)
            = (walkAt ix pre).cursor.place := by
          rw [hsignature, hkept, ← hstart]
          rfl
        exact hsame ▸ hplace

/-- A type whose field starts on the line before its name. -/
def splitField : String := "class A \x7b\n  int\n    x;\n\x7d"

theorem outline_positions_splitField :
    ∃ d, (outline splitField {}).value = .ok d
      ∧ d.places .field = [⟨2, "int"⟩]
      ∧ Place.IsLineOf splitField ⟨2, "int"⟩
      ∧ Place.IsLineOf splitField ⟨1, d.signature⟩ := by
  have hlines : LinesFit splitField := linesFit_ofList (by decide)
  obtain ⟨ix, d, hix, hd, hmembers, -, hheader⟩ := outline_positions {} hlines
  have hfields : (outline splitField {}).value.toOption.map (·.places .field)
      = some [⟨2, "int"⟩] := by decide +kernel
  rw [hd] at hfields
  have hfields : d.places .field = [⟨2, "int"⟩] := Option.some.inj hfields
  obtain rfl : ix = [(4, "\x7d"), (3, "x;"), (2, "int"), (1, "class A \x7b")] := by
    have htexts : (LineIndex.ofTokens (tokenize splitField [])).toOption
        = some [(4, "\x7d"), (3, "x;"), (2, "int"), (1, "class A \x7b")] := by
      decide +kernel
    rw [hix] at htexts
    exact Option.some.inj htexts
  refine ⟨d, hd, hfields, (hmembers .field 0 _ (by rw [hfields]; rfl)).1, ?_⟩
  -- the brace is the fourth token, and the keyword before the name the second
  obtain ⟨a, u, b, hpre, hmarks, hline⟩ := hheader
    [Token.lineNumber 1, ⟨.keyword, "class", 1⟩, ⟨.symbol, "A", 1⟩]
    ⟨.statementEnd, "\x7b", 1⟩ ((tokenize splitField []).drop 4) (by decide +kernel)
    ⟨by decide +kernel, rfl, rfl, by decide +kernel, by decide +kernel⟩
  have hone : ∀ v ∈ [Token.lineNumber 1, ⟨.keyword, "class", 1⟩, ⟨.symbol, "A", 1⟩],
      v.line = 1 := by simp [Token.lineNumber]
  have hu := hone u (by rw [hpre]; simp)
  rwa [hu] at hline

end JavaOutline
