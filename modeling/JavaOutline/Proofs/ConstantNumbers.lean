import JavaOutline.Proofs.HeaderOnce
import JavaOutline.Proofs.LaterTypes

/-! # The numbers of the constants

    The constants of an enumeration are numbered from zero without a gap, at
    every moment of a walk, and the list of them is closed once.

      * `Walk.lists` says what one step can do to the constants: add some, numbered
        from the ones that are there, and only while constants are awaited.
      * `Walk.Closed` is the state after the first semicolon of the type; every
        step keeps it (`Closed.step`), and nothing is added in it. -/

namespace JavaOutline

/-- The values are the numbers from zero, in order. -/
def Numbered (cs : List EnumConstant) : Prop :=
  cs.map EnumConstant.value = (List.range cs.length).map toString

instance (cs : List EnumConstant) : Decidable (Numbered cs) :=
  inferInstanceAs (Decidable (_ = _))

theorem numbered_snoc {cs : List EnumConstant} (h : Numbered cs) (name : String) :
    Numbered (cs ++ [⟨name, toString cs.length⟩]) := by
  rw [Numbered, List.map_append, h, List.length_append, List.length_singleton,
    List.range_succ, List.map_append]
  rfl

/-- A statement numbers its constants from those that are there. -/
theorem Numbered.append_ofParts {cs : List EnumConstant} (h : Numbered cs)
    (ps : List Part) :
    Numbered (cs ++ (EnumConstant.ofParts cs.length ps).value) := by
  -- the parts are read from the left, so the constants read before come along
  suffices hfold : ∀ read, Numbered (cs ++ read) →
      Numbered (cs ++ (Logged.fold (EnumConstant.step cs.length) read ps).value) from
    hfold [] (by rwa [List.append_nil])
  induction ps with
  | nil => exact fun _ hread => hread
  | cons p ps ih =>
      intro read hread
      rw [Logged.fold, Logged.value_bind]
      refine ih _ ?_
      rw [EnumConstant.step]
      split
      · have hnumber : ((cs.length : Int) + (read.length : Int))
            = ((cs ++ read).length : Int) := by
          rw [List.length_append, Int.natCast_add]
        rw [hnumber, Logged.value_pure, ← List.append_assoc]
        exact numbered_snoc hread p.text
      · exact hread

namespace Walk

variable {w v : Walk} {t : Token}

/-! ## One step -/

/-- The walk `v` has the constants of `w`, and more of them only if `w` awaits
    constants. -/
structure Lists (w v : Walk) : Prop where
  constants : v.draft.constants = w.draft.constants
    ∨ (w.awaitsConstants = true ∧ ∃ ps, v.draft.constants
        = w.draft.constants ++ (EnumConstant.ofParts w.draft.constants.length ps).value)
  done : w.constantsDone = true → v.constantsDone = true

theorem Lists.same (hc : v.draft.constants = w.draft.constants)
    (hd : v.constantsDone = w.constantsDone) : w.Lists v :=
  ⟨.inl hc, fun h => hd.trans h⟩

theorem Lists.numbered (h : w.Lists v) (hw : Numbered w.draft.constants) :
    Numbered v.draft.constants := by
  rcases h.constants with hsame | ⟨-, ps, hmore⟩
  · rwa [hsame]
  · rw [hmore]
    exact hw.append_ofParts ps

theorem Lists.isPrefix (h : w.Lists v) : w.draft.constants <+: v.draft.constants := by
  rcases h.constants with hsame | ⟨-, ps, hmore⟩
  · exact ⟨[], by rw [hsame, List.append_nil]⟩
  · rw [hmore]
    exact List.prefix_append _ _

/-- Only a statement that is read as a list of constants adds any. -/
theorem constants_readAs {text : String} {r : Role} (hr : w.view.Admits text r) :
    (w.readAs r).value.draft.constants = w.draft.constants
      ∨ (w.awaitsConstants = true ∧ ∃ ps, (w.readAs r).value.draft.constants
        = w.draft.constants
          ++ (EnumConstant.ofParts w.draft.constants.length ps).value) := by
  cases r with
  | constants => exact .inr ⟨hr, w.statement.parts, rfl⟩
  | header =>
      obtain ⟨_, _, _, _, _, hd⟩ := w.draft.applyHeader_frame w.statement.parts
        w.statement.doc w.cursor.signature
      refine .inl ?_
      show (w.draft.applyHeader _ _ _).value.constants = _
      rw [hd]
      rfl
  | _ => exact .inl rfl

/-- **What one step can do to the constants.** -/
theorem lists (w : Walk) (t : Token) : w.Lists (w.step t).value := by
  obtain ⟨m, hm, hstep⟩ := w.exists_move t
  rw [hstep]
  cases hm with
  | @aside _ _ r => cases r <;> exact .same rfl rfl
  | line | gather | license | type | closeDoc => exact .same rfl rfl
  | ends _ _ hcloses =>
      refine ⟨constants_readAs (w := w.flush) hcloses.admits, fun hdone => ?_⟩
      show (_ || w.constantsDone) = true
      rw [hdone, Bool.or_true]

/-- The end of a file numbers its constants like a statement. -/
theorem lists_finalDraft (w : Walk) : w.Lists { w with draft := w.finalDraft } := by
  refine ⟨?_, id⟩
  cases hawaits : w.awaitsConstants with
  | false => exact .inl (by rw [finalDraft_of_nil (pendingConstants_of_not_awaits hawaits)])
  | true =>
      refine .inr ⟨rfl, ?_⟩
      have hdraft : (if w.span = .code then w.flush else w).draft = w.draft := by
        split <;> rfl
      show ∃ ps, w.draft.constants ++ w.pendingConstants = _
      rw [pendingConstants, if_pos hawaits]
      dsimp only
      -- words may still be pending, but the draft is the same with and without them
      generalize (if w.span = .code then w.flush else w) = v at hdraft ⊢
      rw [hdraft]
      split
      · exact ⟨[], rfl⟩
      · exact ⟨_, rfl⟩

/-! ## Closed lists -/

/-- The type has begun, and no constants are awaited. -/
structure Closed (w : Walk) : Prop where
  inType : w.inType = true
  closed : w.awaitsConstants = false

/-- A type that has begun stays what it is. -/
theorem kind_step_of_inType (h : w.inType = true) (t : Token) :
    (w.step t).value.draft.kind = w.draft.kind := by
  cases w.headerEffect t with
  | begins _ hfresh => cases hfresh.symm.trans h
  | ends _ hkind => exact hkind
  | other _ _ hkeeps => exact hkeeps.kind

theorem Lists.closed (h : w.Lists v) (hkind : v.draft.kind = w.draft.kind)
    (hw : w.awaitsConstants = false) : v.awaitsConstants = false := by
  rw [awaitsConstants, hkind]
  rw [awaitsConstants] at hw
  cases hdone : w.constantsDone with
  | true => rw [h.done hdone, Bool.not_true, Bool.and_false]
  | false =>
      rw [hdone, Bool.not_false, Bool.and_true] at hw
      rw [hw, Bool.false_and]

theorem Closed.step (h : w.Closed) (t : Token) :
    (w.step t).value.Closed
      ∧ (w.step t).value.draft.constants = w.draft.constants := by
  have hkind := kind_step_of_inType h.inType t
  refine ⟨⟨?_, (w.lists t).closed hkind h.closed⟩, ?_⟩
  · rw [Walk.inType, hkind]
    exact h.inType
  · refine (w.lists t).constants.resolve_right fun hmore => ?_
    cases h.closed.symm.trans hmore.1

theorem Closed.steps (h : w.Closed) (ts : List Token) :
    (w.steps ts).Closed ∧ (w.steps ts).draft.constants = w.draft.constants := by
  induction ts generalizing w with
  | nil => exact ⟨h, rfl⟩
  | cons t ts ih =>
      obtain ⟨hclosed, hconstants⟩ := h.step t
      obtain ⟨hclosed', hconstants'⟩ := ih hclosed
      exact ⟨hclosed', hconstants'.trans hconstants⟩

theorem Closed.finalDraft (h : w.Closed) : w.finalDraft = w.draft :=
  finalDraft_of_nil (pendingConstants_of_not_awaits h.closed)

/-- A semicolon in the type closes its constants. -/
theorem closed_of_semicolon (hin : w.inType = true) (hends : w.EndsStatement t)
    (htext : t.text = ";") : (w.step t).value.Closed := by
  have hkind := kind_step_of_inType hin t
  refine ⟨by rw [inType, hkind]; exact hin, ?_⟩
  cases hawaits : w.awaitsConstants with
  | false => exact (w.lists t).closed hkind hawaits
  | true =>
      have hdone : (w.step t).value.constantsDone = true := by
        obtain ⟨m, hm, hstep⟩ := w.exists_move t
        obtain ⟨c, rfl, hcloses⟩ := hm.of_statementEnd hends.code hends.ending
        rw [hstep]
        show (c.constantsDone || _) = true
        rw [hcloses.done htext hawaits, Bool.true_or]
      rw [awaitsConstants, hdone, Bool.not_true, Bool.and_false]

end Walk

/-! ## Whole walks -/

theorem numbered_walkAt (ix : LineIndex) (ts : List Token) :
    Numbered (walkAt ix ts).draft.constants := by
  induction ts using List.reverseRecOn with
  | nil => rfl
  | append_singleton ts t ih =>
      rw [walkAt_snoc]
      exact ((walkAt ix ts).lists t).numbered ih

theorem walkAt_constants_grow (ix : LineIndex) (ts us : List Token) :
    (walkAt ix ts).draft.constants <+: (walkAt ix (ts ++ us)).draft.constants := by
  induction us using List.reverseRecOn with
  | nil => exact ⟨[], by rw [List.append_nil, List.append_nil]⟩
  | append_singleton us t ih =>
      rw [← List.append_assoc, walkAt_snoc]
      exact ih.trans ((walkAt ix (ts ++ us)).lists t).isPrefix

/-- The token `t` is a semicolon in ordinary code, and the word `enum` stood in
    ordinary code before it. -/
structure ClosesConstants (ix : LineIndex) (pre : List Token) (t : Token) : Prop where
  keyword : ∃ a u b, pre = a ++ u :: b ∧ TypeAt ix a u ∧ u.text = "enum"
  ends : (walkAt ix pre).EndsStatement t
  text : t.text = ";"

theorem TypeAt.inType {ix : LineIndex} {a : List Token} {u : Token}
    (h : TypeAt ix a u) (b : List Token) :
    (walkAt ix (a ++ u :: b)).inType = true := by
  cases headerPhase ix (a ++ u :: b) with
  | before hnone => exact absurd h (hnone a u b rfl)
  | within _ _ _ _ hfirst hkind | past _ _ _ _ hfirst hkind => exact hfirst.inType hkind

theorem ClosesConstants.closed {ix : LineIndex} {pre : List Token} {t : Token}
    (h : ClosesConstants ix pre t) : (walkAt ix (pre ++ [t])).Closed := by
  obtain ⟨a, u, b, rfl, htype, -⟩ := h.keyword
  rw [walkAt_snoc]
  exact Walk.closed_of_semicolon (htype.inType b) h.ends h.text

/-- The tokens `pre` are taken without refusal, and lead to the walk `w`. -/
def Reaches (ix : LineIndex) (pre : List Token) (w : Walk) : Prop :=
  (Walk.run { cursor := { lines := ix } } pre).value = .ok w

theorem Reaches.eq_walkAt {ix : LineIndex} {pre : List Token} {w : Walk}
    (h : Reaches ix pre w) : w = walkAt ix pre :=
  Walk.eq_steps_of_run h

/-- An enumeration has the constants of its draft. -/
theorem Draft.constants_of_shape {d : Draft} {interfaces : List String}
    {cs : List EnumConstant} (h : d.shape = .enumShape interfaces cs) :
    cs = d.constants := by
  rw [shape] at h
  split at h
  · cases h
  · exact (Shape.enumShape.inj h).2.symm
  · cases h

/-- **CONSTANTS ARE NUMBERED WITHOUT A GAP, AND CLOSED ONCE.**  Of every list of
    tokens: wherever a walk over it stands, the constants are numbered from zero, and
    they still are when the file ends there.  The list of them only grows at its end.
    From the first semicolon on that stands in ordinary code after the word `enum`,
    neither a token nor the end of the file changes it.  The declaration has what
    the list is in the end. -/
theorem constants_numbered_closed (ts : List Token) (ix : LineIndex)
    (hix : LineIndex.ofTokens ts = .ok ix) :
    (∀ pre post w, ts = pre ++ post → Reaches ix pre w →
        Numbered w.draft.constants ∧ Numbered w.finishConstants.value.draft.constants)
      ∧ (∀ pre mid post w v, ts = pre ++ mid ++ post →
          Reaches ix pre w → Reaches ix (pre ++ mid) v →
          w.draft.constants <+: v.draft.constants
          ∧ v.draft.constants <+: v.finishConstants.value.draft.constants)
      ∧ (∀ pre t mid post w v, ts = pre ++ [t] ++ mid ++ post → ClosesConstants ix pre t →
          Reaches ix (pre ++ [t]) w → Reaches ix (pre ++ [t] ++ mid) v →
          v.draft.constants = w.draft.constants
          ∧ v.finishConstants.value.draft.constants = w.draft.constants)
      ∧ ∀ d interfaces cs, (Declaration.ofTokens ts).value = .ok d →
          d.shape = .enumShape interfaces cs →
          ∃ w, Reaches ix ts w ∧ cs = w.finishConstants.value.draft.constants := by
  refine ⟨?_, ?_, ?_, ?_⟩
  · intro pre post w _ hw
    obtain rfl := hw.eq_walkAt
    have hnumbered := numbered_walkAt ix pre
    rw [Walk.finishConstants_draft]
    exact ⟨hnumbered, (Walk.lists_finalDraft _).numbered hnumbered⟩
  · intro pre mid post w v _ hw hv
    obtain rfl := hw.eq_walkAt
    obtain rfl := hv.eq_walkAt
    rw [Walk.finishConstants_draft]
    exact ⟨walkAt_constants_grow ix pre mid, List.prefix_append _ _⟩
  · intro pre t mid post w v _ hcloses hw hv
    obtain rfl := hw.eq_walkAt
    obtain rfl := hv.eq_walkAt
    obtain ⟨hclosed, hconstants⟩ := hcloses.closed.steps mid
    have hafter : walkAt ix (pre ++ [t] ++ mid)
        = (walkAt ix (pre ++ [t])).steps mid := Walk.steps_append _ _ _
    have hfinal : (walkAt ix (pre ++ [t] ++ mid)).finalDraft.constants
        = (walkAt ix (pre ++ [t])).draft.constants := by
      rw [hafter, hclosed.finalDraft, hconstants]
    rw [Walk.finishConstants_draft, ← Walk.finalDraft, hfinal, hafter]
    exact ⟨hconstants, rfl⟩
  · intro d interfaces cs hd hshape
    obtain ⟨jx, w, hjx, hrun, rfl⟩ := Declaration.exists_run_of_ofTokens hd
    obtain rfl : jx = ix := Except.ok.inj (hjx.symm.trans hix)
    refine ⟨w, hrun, ?_⟩
    rw [Walk.finishConstants_draft, ← Walk.finalDraft]
    rw [Walk.finish_value] at hshape
    exact Draft.constants_of_shape hshape

/-- An enumeration whose second constant has a body, and a field after its
    constants. -/
def constantWithBody : List Token :=
  [⟨.keyword, "enum", 1⟩, ⟨.symbol, "E", 1⟩, ⟨.statementEnd, "\x7b", 1⟩,
    ⟨.symbol, "A", 1⟩, ⟨.join, ",", 1⟩, ⟨.symbol, "B", 1⟩, ⟨.statementEnd, "\x7b", 1⟩,
    ⟨.symbol, "C", 2⟩, ⟨.statementEnd, ";", 2⟩,
    ⟨.symbol, "int", 3⟩, ⟨.symbol, "x", 3⟩, ⟨.statementEnd, ";", 3⟩]

/-- The third constant goes on with the numbers, and the field is none. -/
theorem constants_numbered_closed_body :
    LineIndex.ofTokens constantWithBody = .ok []
      ∧ ∃ w v, Reaches [] (constantWithBody.take 9) w ∧ Reaches [] constantWithBody v
        ∧ ClosesConstants [] (constantWithBody.take 8) ⟨.statementEnd, ";", 2⟩
        ∧ w.draft.constants = [⟨"A", "0"⟩, ⟨"B", "1"⟩, ⟨"C", "2"⟩]
        ∧ Numbered w.draft.constants
        ∧ v.draft.constants = w.draft.constants
        ∧ v.finishConstants.value.draft.constants = w.draft.constants := by
  have hix : LineIndex.ofTokens constantWithBody = .ok [] := by decide +kernel
  have hw : Reaches [] (constantWithBody.take 9) (walkAt [] (constantWithBody.take 9)) :=
    rfl
  have hv : Reaches [] constantWithBody (walkAt [] constantWithBody) := rfl
  have hcloses : ClosesConstants [] (constantWithBody.take 8) ⟨.statementEnd, ";", 2⟩ :=
    ⟨⟨[], ⟨.keyword, "enum", 1⟩, _, rfl, ⟨rfl, rfl, rfl⟩, rfl⟩, ⟨by decide +kernel, rfl⟩, rfl⟩
  obtain ⟨hnumbered, -, hclosed, -⟩ := constants_numbered_closed constantWithBody [] hix
  refine ⟨hix, _, _, hw, hv, hcloses, by decide +kernel, ?_, ?_⟩
  · exact (hnumbered _ (constantWithBody.drop 9) _ rfl hw).1
  · exact hclosed (constantWithBody.take 8) ⟨.statementEnd, ";", 2⟩
      (constantWithBody.drop 9) [] _ _ rfl hcloses hw hv

end JavaOutline
