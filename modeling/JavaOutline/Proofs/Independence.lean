import JavaOutline.Proofs.DocEffect
import JavaOutline.Proofs.DraftCongruence
import JavaOutline.Proofs.InStatement
import JavaOutline.Proofs.StepEffect

/-! # Statements are independent

    Take a whole statement out of the body of a type, and the declaration loses
    at most the record of that statement.

    1. Inside the statement the walk only gathers (`Walk.Within.steps`), and at its
       end it is the walk from before the statement again, with at most one member
       more (`Walk.Within.ends`).
    2. `Draft.Inserts` says that one draft is another one with some members put in
       at a fixed place.  It is kept by all that a walk does to a draft
       (`congruence_inserts`), so the rest of the tokens keeps it. -/

namespace JavaOutline

/-! ## Members put in at a fixed place -/

/-- The second draft is the first one with the fields `xs` put in after `fs` and
    the methods `ys` put in after `ms`. -/
def Draft.Inserts (fs xs : List Field) (ms ys : List Method) (d e : Draft) : Prop :=
  ∃ fs' ms', d.fields = fs ++ fs' ∧ d.methods = ms ++ ms'
    ∧ e = { d with fields := fs ++ xs ++ fs', methods := ms ++ ys ++ ms' }

/-- The same for declarations. -/
def Declaration.Inserts (fs xs : List Field) (ms ys : List Method)
    (d e : Declaration) : Prop :=
  ∃ fs' ms', d.fields = fs ++ fs' ∧ d.methods = ms ++ ms'
    ∧ e = { d with fields := fs ++ xs ++ fs', methods := ms ++ ys ++ ms' }

section

variable {fs xs : List Field} {ms ys : List Method} {d e : Draft}

/-- A header does not look at the members. -/
theorem Draft.applyHeader_withMembers (d : Draft) (ps : List Part) (doc : Doc)
    (signature : String) (fields : List Field) (methods : List Method) :
    (Draft.applyHeader { d with fields, methods } ps doc signature).value
      = { (d.applyHeader ps doc signature).value with fields, methods } := by
  have hread := fold_headerStep_map (g := fun d : Draft => { d with fields, methods })
    (fun d slot p => by
      rw [headerStep, headerStep]
      cases p.kind with
      | identifier => cases slot <;> rfl
      | _ => rfl) ps d .free
  rw [applyHeader, applyHeader, Logged.value_bind, Logged.value_bind, hread]
  rfl

/-- A change that has nothing to do with members. -/
theorem Draft.Inserts.map (h : d.Inserts fs xs ms ys e) {g : Draft → Draft}
    (hg : ∀ (d : Draft) (fields : List Field) (methods : List Method),
      g { d with fields, methods } = { g d with fields, methods })
    (hfields : (g d).fields = d.fields) (hmethods : (g d).methods = d.methods) :
    (g d).Inserts fs xs ms ys (g e) := by
  obtain ⟨fs', ms', hfs, hms, rfl⟩ := h
  exact ⟨fs', ms', hfields.trans hfs, hmethods.trans hms, hg _ _ _⟩

/-- More members at the end do not move those that are put in. -/
theorem Draft.Inserts.withMembers (h : d.Inserts fs xs ms ys e) (fs₁ : List Field)
    (ms₁ : List Method) :
    Draft.Inserts fs xs ms ys
      { d with fields := d.fields ++ fs₁, methods := d.methods ++ ms₁ }
      { e with fields := e.fields ++ fs₁, methods := e.methods ++ ms₁ } := by
  obtain ⟨fs', ms', hfs, hms, rfl⟩ := h
  refine ⟨fs' ++ fs₁, ms' ++ ms₁, ?_, ?_, ?_⟩
  · rw [hfs, List.append_assoc]
  · rw [hms, List.append_assoc]
  · simp only [List.append_assoc]

/-- Whatever a walk does to two drafts, the members that are put in stay where
    they are. -/
theorem congruence_inserts (fs xs : List Field) (ms ys : List Method) :
    Draft.Congruence (Draft.Inserts fs xs ms ys) where
  sameKind := by
    rintro d _ ⟨_, _, -, -, rfl⟩
    rfl
  sameConstants := by
    rintro d _ ⟨_, _, -, -, rfl⟩
    rfl
  withKind kind h := h.map (g := fun d => { d with kind }) (fun _ _ _ => rfl) rfl rfl
  withLicense license h :=
    h.map (g := fun d => { d with license }) (fun _ _ _ => rfl) rfl rfl
  withPackage packageName h :=
    h.map (g := fun d => { d with packageName }) (fun _ _ _ => rfl) rfl rfl
  withDependencies names h :=
    h.map (g := fun d => { d with dependencies := d.dependencies ++ names })
      (fun _ _ _ => rfl) rfl rfl
  withConstants cs h :=
    h.map (g := fun d => { d with constants := d.constants ++ cs })
      (fun _ _ _ => rfl) rfl rfl
  withFields fs₁ h := by
    have hmore := h.withMembers fs₁ []
    rwa [List.append_nil, List.append_nil] at hmore
  withMethods ms₁ h := by
    have hmore := h.withMembers [] ms₁
    rwa [List.append_nil, List.append_nil] at hmore
  applyHeader {d e} ps doc signature h := by
    obtain ⟨_, _, _, _, _, hframe⟩ := d.applyHeader_frame ps doc signature
    refine h.map (g := fun d => (d.applyHeader ps doc signature).value)
      (fun d => d.applyHeader_withMembers ps doc signature) ?_ ?_
    · rw [hframe]
      rfl
    · rw [hframe]
      rfl

theorem Draft.Inserts.finish (h : d.Inserts fs xs ms ys e) :
    d.finish.value.Inserts fs xs ms ys e.finish.value := by
  rw [finish_value, finish_value]
  obtain ⟨fs', ms', hfs, hms, rfl⟩ := h
  exact ⟨fs', ms', hfs, hms, rfl⟩

end

/-! ## Through a statement -/

namespace Walk

variable {w v : Walk}

/-- The walk `v` is inside a statement that began where `w` stood. -/
def Within (w v : Walk) : Prop :=
  ∃ s a start, s.isHeader = false ∧ v = w.amid w.draft.license s a start

/-- A token of a statement: no token of a line, no mark of a comment, and not the
    word before the name of a package. -/
structure Inner (t : Token) : Prop where
  line : t.kind.isLine = false
  mark : t.kind = .symbol → t.text ∉ commentMarks
  package : t.kind = .keyword → t.text ≠ "package"

theorem Inner.refusal? {t : Token} (ht : Inner t)
    (hend : t.kind = .statementEnd → w.readsCode = false) :
    w.refusal? t = none := by
  rw [Walk.refusal?]
  cases hk : t.kind with
  | lineNumber =>
      have hline := ht.line
      rw [hk] at hline
      cases hline
  | statementEnd => rw [hend hk]; rfl
  | _ => rfl

theorem Within.step (h : w.Within v) (hspan : w.span = .code) (hin : w.inType = true)
    {t : Token} (ht : Inner t) (hend : t.kind = .statementEnd → v.readsCode = false) :
    w.Within (v.step t).value := by
  obtain ⟨s, a, start, hs, rfl⟩ := h
  have hspan' : (w.amid w.draft.license s a start).span = .code := hspan
  -- an argument, the parenthesis before the first one, or a token of the statement
  cases hargs : (w.amid w.draft.license s a start).inArguments with
  | true =>
      obtain ⟨d, hd⟩ := step_of_inArguments hargs ht.line
      rw [hd]
      cases t.kind <;> exact ⟨s, _, start, hs, rfl⟩
  | false =>
      have hcode := (readsCode_iff _).mpr ⟨hspan', hargs⟩
      by_cases hopen : a = .named ∧ t.kind = .paramStart
      · obtain ⟨rfl, hk⟩ := hopen
        refine ⟨s, .arguments 1, start, hs, ?_⟩
        rw [step_of_not_inArguments hargs, plainStep, hk]
        show (w.amid w.draft.license s .named start).paramStart = _
        rw [paramStart, if_neg (not_not_intro hspan')]
        rfl
      · obtain ⟨license, b, start', hstep, hgathered⟩ :=
          step_amid (w := w.amid w.draft.license s a start) hcode hin ht.line
            (fun hk => Bool.false_ne_true ((hend hk).symm.trans hcode)) ht.mark
            fun ha hk => hopen ⟨ha, hk⟩
        have hkeep : license = w.draft.license :=
          hgathered.license.resolve_right fun h => ht.package h.1 h.2
        rw [hstep, hkeep]
        exact ⟨s.take t, b, start', (s.take_isHeader t).trans hs, rfl⟩

/-- A statement under way is not refused. -/
theorem Within.run (h : w.Within v) (hspan : w.span = .code) (hin : w.inType = true)
    {ts : List Token} (hts : ∀ t ∈ ts, Inner t)
    (hends : ∀ us t vs, ts = us ++ t :: vs → t.kind = .statementEnd →
      (v.steps us).readsCode = false) :
    (v.run ts).value = .ok (v.steps ts) ∧ w.Within (v.steps ts) := by
  induction ts generalizing v with
  | nil => exact ⟨rfl, h⟩
  | cons t ts ih =>
      have ht := hts t (by simp)
      have hend : t.kind = .statementEnd → v.readsCode = false := hends [] t ts rfl
      have hrest := ih (h.step hspan hin ht hend) (fun u hu => hts u (by simp [hu]))
        fun us u vs hsplit => hends (t :: us) u vs (by rw [hsplit]; rfl)
      rw [Walk.run_cons (ht.refusal? hend)]
      exact hrest

/-- At the end of the statement the walk is where it was before, with at most one
    member more. -/
theorem Within.ends (h : w.Within v) (hfresh : w.statement = {})
    (hstart : w.cursor.statementLine = none) (hin : w.inType = true)
    (hwait : w.awaitsConstants = false) (hcode : v.readsCode = true) {t : Token}
    (hk : t.kind = .statementEnd)
    (ha : Walk.annotation (v.step t).value = w.annotation) :
    w.GainsMember (v.step t).value := by
  obtain ⟨s, a, start, hs, rfl⟩ := h
  have hspan := span_of_readsCode _ hcode
  have hstep : ((w.amid w.draft.license s a start).step t).value
      = ((w.amid w.draft.license s a start).statementEnd t.text t.line).value := by
    rw [step_of_not_inArguments (not_inArguments_of_readsCode _ hcode), plainStep, hk]
  rw [hstep] at ha ⊢
  obtain ⟨fs, ms, hone, hv⟩ := gainsMember_statementEnd
    (w := w.amid w.draft.license s a start) hspan hin hwait hs t.text t.line
  refine ⟨fs, ms, hone, ?_⟩
  rw [hv] at ha ⊢
  have ha' : a = w.annotation := ha
  have hcursor : ({ w.cursor with statementLine := none } : Cursor) = w.cursor := by
    rw [← hstart]
  show { w.withMembers fs ms with
    statement := {}, annotation := a,
    cursor := { w.cursor with statementLine := none } } = w.withMembers fs ms
  rw [ha', hcursor, ← hfresh]
  rfl

end Walk

/-! ## Taking a statement out -/

/-- The tokens lead to the start of a member: a statement of a type has just
    ended, constants are no longer to come, and no annotation is under way. -/
structure AtMember (P : List Token) : Prop where
  ended : ∃ P₀ t, P = P₀ ++ [t] ∧ t.kind = .statementEnd
    ∧ (Walk.steps {} P₀).readsCode = true
  inType : (Walk.steps {} P).inType = true
  closed : (Walk.steps {} P).awaitsConstants = false
  annotation : Walk.annotation (Walk.steps {} P) = .absent

/-- After the tokens `P` the tokens `S` are one statement, with the annotations
    before it and in it. -/
structure OneStatement (P S : List Token) : Prop where
  inner : ∀ t ∈ S, Walk.Inner t
  ended : ∃ S₀ t, S = S₀ ++ [t] ∧ t.kind = .statementEnd
    ∧ (t.text = ";" ∨ t.text = "\x7b")
    ∧ (Walk.steps {} (P ++ S₀)).readsCode = true
  only : ∀ S₁ t S₂, S = S₁ ++ t :: S₂ → t.kind = .statementEnd →
    (Walk.steps {} (P ++ S₁)).readsCode = true → S₂ = []
  annotation : Walk.annotation (Walk.steps {} (P ++ S)) = .absent

namespace Walk

/-- The walk stands at the start of a member. -/
structure Fresh (w : Walk) : Prop where
  statement : w.statement = {}
  start : w.cursor.statementLine = none
  span : w.span = .code
  inType : w.inType = true
  closed : w.awaitsConstants = false
  annotation : w.annotation = .absent

theorem Fresh.of_unsigned {w : Walk} (h : w.unsigned.Fresh) : w.Fresh :=
  ⟨h.statement, h.start, h.span, h.inType, h.closed, h.annotation⟩

end Walk

theorem AtMember.fresh {P : List Token} (h : AtMember P) : (Walk.steps {} P).Fresh := by
  obtain ⟨P₀, t, rfl, hk, hcode⟩ := h.ended
  have hsnoc : Walk.steps {} (P₀ ++ [t]) = ((Walk.steps {} P₀).step t).value :=
    Walk.steps_append {} P₀ [t]
  have hspan : ((Walk.steps {} P₀).step t).value.span = .code := by
    have hother : ∀ k, .statementEnd ≠ k → t.kind ≠ k := fun k hne => hk ▸ hne
    exact (Walk.span_step _ (hother _ (by decide)) (hother _ (by decide))).trans
      (Walk.span_of_readsCode _ hcode)
  have hended : ((Walk.steps {} P₀).step t).value.statement = {}
      ∧ ((Walk.steps {} P₀).step t).value.cursor.statementLine = none := by
    cases (Walk.steps {} P₀).effect t with
    | line hline => cases hk.symm.trans hline
    | ends _ _ _ hstatement hcursor =>
        exact ⟨hstatement, congrArg Cursor.statementLine hcursor⟩
    | other _ hnot => cases (hnot hk).symm.trans hcode
  rw [← hsnoc] at hspan hended
  exact ⟨hended.1, hended.2, hspan, h.inType, h.closed, h.annotation⟩

/-- A walk over one statement is not refused, and gains at most one member. -/
theorem OneStatement.run {P S : List Token} (hS : OneStatement P S) {w : Walk}
    (hw : w.Fresh) (hP : w.unsigned = Walk.steps {} P) :
    ∃ v, (w.run S).value = .ok v ∧ w.GainsMember v := by
  have hafter : ∀ ts, Walk.steps {} (P ++ ts) = (w.steps ts).unsigned := by
    intro ts
    rw [Walk.steps_append, ← hP, Walk.steps_unsigned]
  obtain ⟨S₀, t, rfl, hk, htext, hcode⟩ := hS.ended
  have hlast : (w.steps S₀).readsCode = true := by
    rw [hafter] at hcode
    exact hcode
  have hends : ∀ us u vs, S₀ = us ++ u :: vs → u.kind = .statementEnd →
      (w.steps us).readsCode = false := by
    rintro us u vs rfl hu
    refine Bool.eq_false_iff.mpr fun hread => ?_
    have hnil := hS.only us u (vs ++ [t]) (by simp) hu (by rw [hafter]; exact hread)
    exact absurd hnil (by simp)
  have hwithin : w.Within w :=
    ⟨w.statement, w.annotation, w.cursor.statementLine, by rw [hw.statement], rfl⟩
  obtain ⟨hrun, hthere⟩ := hwithin.run hw.span hw.inType
    (fun u hu => hS.inner u (by simp [hu])) hends
  refine ⟨((w.steps S₀).step t).value, ?_, ?_⟩
  · have haccepted : (w.steps S₀).refusal? t = none := by
      rw [Walk.refusal?, hk]
      rcases htext with htext | htext <;> simp [htext]
    rw [Walk.run_append_ok hrun, Walk.run_cons haccepted]
    rfl
  · have hann := hS.annotation
    rw [hafter, Walk.steps_append] at hann
    exact hthere.ends hw.statement hw.start hw.inType hw.closed hlast hk
      (hann.trans hw.annotation.symm)

/-- A statement has no tokens of lines, so it has no say in the texts of lines. -/
theorem LineIndex.ofTokens_inner {S : List Token} (hS : ∀ t ∈ S, Walk.Inner t)
    (P R : List Token) : ofTokens (P ++ (S ++ R)) = ofTokens (P ++ R) :=
  gather_congr (fun n ix => gather_tokens n ix (fun t ht => (hS t ht).line) R) 1 [] P

/-- **STATEMENTS ARE INDEPENDENT.**  Put a whole statement where a statement of a
    type has just ended.  Then the same failure comes out as without it, or the
    same declaration with at most one record more, which comes right after the
    records of the tokens before it. -/
theorem ofTokens_insert_statement {P S R : List Token} (hP : AtMember P)
    (hS : OneStatement P S) :
    (∃ f, (Declaration.ofTokens (P ++ R)).value = .error f
        ∧ (Declaration.ofTokens (P ++ (S ++ R))).value = .error f)
      ∨ ∃ d e fs xs ms ys, (Declaration.ofTokens (P ++ R)).value = .ok d
          ∧ (Declaration.ofTokens (P ++ (S ++ R))).value = .ok e
          ∧ fs.map Field.unsigned = (Walk.steps {} P).draft.fields
          ∧ ms.map Method.unsigned = (Walk.steps {} P).draft.methods
          ∧ xs.length + ys.length ≤ 1
          ∧ d.Inserts fs xs ms ys e := by
  have hsame := LineIndex.ofTokens_inner hS.inner P R
  cases hix : LineIndex.ofTokens (P ++ R) with
  | error text =>
      exact .inl ⟨_, Declaration.ofTokens_of_error hix,
        Declaration.ofTokens_of_error (hsame.trans hix)⟩
  | ok ix =>
      rw [Declaration.ofTokens_of_ok hix, Declaration.ofTokens_of_ok (hsame.trans hix)]
      cases hrun : (Walk.run { cursor := { lines := ix } } P).value with
      | error f =>
          rw [Walk.run_append_error hrun, Walk.run_append_error hrun]
          exact .inl ⟨f, rfl, rfl⟩
      | ok w =>
          have hwP := Walk.unsigned_of_run hrun
          have hfresh : w.Fresh := by
            apply Walk.Fresh.of_unsigned
            rw [hwP]
            exact hP.fresh
          obtain ⟨_, hstatement, xs, ys, hone, rfl⟩ := hS.run hfresh hwP
          have hR := congruence_inserts w.draft.fields xs w.draft.methods ys
          have hrelated : w.Related (Draft.Inserts w.draft.fields xs w.draft.methods ys)
              (w.withMembers xs ys) :=
            ⟨_, rfl, [], [], by simp, by simp, by simp⟩
          rw [Walk.run_append_ok hrun, Walk.run_append_ok hrun,
            Walk.run_append_ok hstatement]
          rcases hR.bisimulation.run hrelated R with ⟨f, hu, hv⟩ | ⟨u, v, hu, hv, hend⟩
          · rw [hu, hv]
            exact .inl ⟨f, rfl, rfl⟩
          · rw [hu, hv]
            obtain ⟨e, he, hinserts⟩ := hR.finishConstants hend
            refine .inr ⟨_, _, w.draft.fields, xs, w.draft.methods, ys, rfl, rfl,
              congrArg (·.draft.fields) hwP, congrArg (·.draft.methods) hwP, hone, ?_⟩
            show u.finish.value.Inserts _ _ _ _ v.finish.value
            rw [Walk.finish, Walk.finish, Logged.value_bind, Logged.value_bind, he]
            exact hinserts.finish

/-- The statement `@A(;) int x;` and the statement `int y;`. -/
def annotatedField : List Token :=
  [⟨.symbol, "@A", 1⟩, ⟨.paramStart, "(", 1⟩, ⟨.statementEnd, ";", 1⟩,
    ⟨.paramEnd, ")", 1⟩, ⟨.symbol, "int", 1⟩, ⟨.symbol, "x", 1⟩,
    ⟨.statementEnd, ";", 1⟩]

def plainField : List Token :=
  [⟨.symbol, "int", 1⟩, ⟨.symbol, "y", 1⟩, ⟨.statementEnd, ";", 1⟩]

theorem ofTokens_insert_statement_field :
    ∃ d e, (Declaration.ofTokens (openClass ++ plainField)).value = .ok d
      ∧ (Declaration.ofTokens (openClass ++ (annotatedField ++ plainField))).value = .ok e
      ∧ d.fields.map Field.name = ["y"] ∧ e.fields.map Field.name = ["x", "y"]
      ∧ ∃ fs xs ms ys, xs.length + ys.length ≤ 1 ∧ d.Inserts fs xs ms ys e := by
  have hP : AtMember openClass :=
    ⟨⟨openClass.dropLast, _, rfl, rfl, by decide +kernel⟩, by decide +kernel,
      by decide +kernel, by decide +kernel⟩
  have hS : OneStatement openClass annotatedField := by
    refine ⟨?_, ⟨annotatedField.dropLast, _, rfl, rfl, .inl rfl, by decide +kernel⟩, ?_,
      by decide +kernel⟩
    · have hinner : ∀ t ∈ annotatedField, t.kind.isLine = false
          ∧ (t.kind = .symbol → t.text ∉ commentMarks)
          ∧ (t.kind = .keyword → t.text ≠ "package") := by decide
      intro t ht
      obtain ⟨hline, hmark, hpackage⟩ := hinner t ht
      exact ⟨hline, hmark, hpackage⟩
    · have hends : ∀ n < annotatedField.length,
          annotatedField[n]?.map Token.kind = some .statementEnd →
          (Walk.steps {} (openClass ++ annotatedField.take n)).readsCode = true →
          annotatedField.drop (n + 1) = [] := by decide +kernel
      intro S₁ t S₂ hsplit hk hcode
      have hend := hends S₁.length (by rw [hsplit]; simp) (by rw [hsplit]; simp [hk])
        (by rw [hsplit, List.take_left]; exact hcode)
      rwa [hsplit, ← List.drop_drop, List.drop_left] at hend
  have hd : (Declaration.ofTokens (openClass ++ plainField)).value.toOption.map
      (·.fields.map Field.name) = some ["y"] := by decide +kernel
  have he : (Declaration.ofTokens
      (openClass ++ (annotatedField ++ plainField))).value.toOption.map
      (·.fields.map Field.name) = some ["x", "y"] := by decide +kernel
  rcases ofTokens_insert_statement (R := plainField) hP hS
    with ⟨f, hf, -⟩ | ⟨d, e, fs, xs, ms, ys, hd', he', -, -, hone, hinserts⟩
  · rw [hf] at hd
    exact nomatch hd
  · rw [hd'] at hd
    rw [he'] at he
    exact ⟨d, e, hd', he', Option.some.inj hd, Option.some.inj he, fs, xs, ms, ys, hone,
      hinserts⟩

end JavaOutline
