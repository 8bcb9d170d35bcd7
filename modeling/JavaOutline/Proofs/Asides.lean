import JavaOutline.Proofs.DocEffect
import JavaOutline.Proofs.Nesting

/-! # Asides in code

    An annotation with arguments and a block comment may stand anywhere in code, in
    the middle of any statement, and hold almost anything.

    1. `Declaration.ofTokens_insert`: tokens put in between two others matter only
       through the walk over them and over what follows.
    2. The walk comes out of the arguments of an annotation as it went in
       (`Walk.run_arguments`), so the annotation leaves no trace.
    3. It comes out of a block comment with another text to take as the licence.
       `Walk.relicense` is a walk with other texts of this kind.  No step looks at
       them except to hand them on (`Walk.step_relicense`), and only the word before
       the name of a package writes the licence. -/

namespace JavaOutline

open Text

/-! ## Tokens put in -/

namespace Walk

/-- Go on from where a walk has got. -/
def resume (ts : List Token) : Except Failure Walk → Logged (Except Failure Walk)
  | .error f => pure (.error f)
  | .ok w => w.run ts

/-- The declaration of a walk, unless it was refused a token. -/
def conclude : Except Failure Walk → Logged (Except Failure Declaration)
  | .error f => pure (.error f)
  | .ok w => Except.ok <$> w.finish

theorem run_append (w : Walk) (ts us : List Token) :
    w.run (ts ++ us) = w.run ts >>= resume us := by
  induction ts generalizing w with
  | nil => rfl
  | cons t ts ih =>
      rw [List.cons_append, run, run]
      cases w.refusal? t with
      | some f => rfl
      | none =>
          show w.step t >>= (fun v => v.run (ts ++ us)) = (w.step t >>= (run · ts)) >>= _
          rw [bind_assoc]
          exact bind_congr ih

/-- A token that is taken and reports nothing. -/
theorem run_cons_pure {w v : Walk} {t : Token} (hr : w.refusal? t = none)
    (hstep : w.step t = pure v) (ts : List Token) : w.run (t :: ts) = v.run ts := by
  rw [run, hr, hstep]
  rfl

end Walk

theorem Declaration.ofTokens_eq_run {ts : List Token} {ix : LineIndex}
    (hix : LineIndex.ofTokens ts = .ok ix) :
    ofTokens ts = Walk.run { cursor := { lines := ix } } ts >>= Walk.conclude := by
  rw [ofTokens, hix]
  refine bind_congr fun r => ?_
  cases r <;> rfl

/-- **Tokens put in** change a declaration only as the walk over them and over the
    rest does. -/
theorem Declaration.ofTokens_insert {P S R : List Token}
    (hS : ∀ t ∈ S, t.kind.isLine = false) {G : (Declaration → Declaration) → Prop}
    (hid : G id)
    (h : ∀ ix w, (Walk.run { cursor := { lines := ix } } P).value = .ok w →
      ∃ g, G g ∧ w.run (S ++ R) >>= Walk.conclude
        = Except.map g <$> (w.run R >>= Walk.conclude)) :
    ∃ g, G g ∧ ofTokens (P ++ (S ++ R)) = Except.map g <$> ofTokens (P ++ R) := by
  have hlines : LineIndex.ofTokens (P ++ (S ++ R)) = LineIndex.ofTokens (P ++ R) :=
    LineIndex.gather_congr (fun n ix => LineIndex.gather_tokens n ix hS R) 1 [] P
  cases hix : LineIndex.ofTokens (P ++ R) with
  | error text =>
      refine ⟨id, hid, ?_⟩
      rw [ofTokens, ofTokens, hlines, hix]
      rfl
  | ok ix =>
      rw [ofTokens_eq_run (hlines.trans hix), ofTokens_eq_run hix, Walk.run_append,
        Walk.run_append, bind_assoc, bind_assoc]
      cases hrun : (Walk.run { cursor := { lines := ix } } P).value with
      | error f =>
          refine ⟨id, hid, ?_⟩
          rw [map_bind]
          apply Logged.bind_congr_value
          rw [hrun]
          rfl
      | ok w =>
          obtain ⟨g, hg, hsame⟩ := h ix w hrun
          refine ⟨g, hg, ?_⟩
          rw [map_bind]
          apply Logged.bind_congr_value
          rw [hrun]
          exact hsame

/-- After the tokens `P` a walk is in ordinary code and past any annotation. -/
def AtCode (P : List Token) : Prop :=
  ∀ w, (Walk.run {} P).value = .ok w → w.span = .code ∧ w.annotation = .absent

instance (P : List Token) : Decidable (AtCode P) :=
  decidable_of_iff ((Walk.run {} P).value.toOption.all
      (fun w => decide (w.span = .code ∧ w.annotation = .absent)) = true) <| by
    unfold AtCode
    cases (Walk.run {} P).value <;> simp [Except.toOption]

theorem AtCode.of_run {P : List Token} (h : AtCode P) {ix : LineIndex} {w : Walk}
    (hrun : (Walk.run { cursor := { lines := ix } } P).value = .ok w) :
    w.span = .code ∧ w.annotation = .absent := by
  have hunsigned := Walk.run_unsigned { cursor := { lines := ix } } P
  rw [hrun] at hunsigned
  exact h w.unsigned hunsigned

/-! ## Annotations -/

/-- Tokens that can stand between the parentheses of an annotation: no tokens of
    lines, and the parentheses among them are balanced. -/
structure IsArguments (A : List Token) : Prop where
  lines : ∀ t ∈ A, t.kind.isLine = false
  balanced : Balanced (fun t => t.kind == .paramStart) (fun t => t.kind == .paramEnd) A

namespace Walk

/-- The walk with another annotation under way. -/
def annotated (a : Annotation) (w : Walk) : Walk := { w with annotation := a }

theorem run_argument (w : Walk) (d : Int) {t : Token} (ht : t.kind.isLine = false)
    (ts : List Token) :
    (w.annotated (.arguments d)).run (t :: ts)
      = (annotationArgument (w.annotated (.arguments d)) d t.kind).run ts := by
  refine run_cons_pure ?_ ?_ ts
  · rw [refusal?]
    have hcode : (w.annotated (.arguments d)).readsCode = false :=
      Bool.and_false _
    cases hk : t.kind with
    | lineNumber =>
        rw [hk] at ht
        cases ht
    | statementEnd =>
        rw [hcode]
        rfl
    | _ => rfl
  · show (if t.kind.isLine then _ else _) = _
    rw [ht]
    rfl

/-- **Balanced arguments are passed over**: at their end the walk is as deep in
    parentheses as the ones it closes. -/
theorem run_arguments (w : Walk) {A : List Token} {n : Nat}
    (hlines : ∀ t ∈ A, t.kind.isLine = false)
    (h : BalancedFrom (fun t => t.kind == .paramStart) (fun t => t.kind == .paramEnd)
      n A) (R : List Token) :
    (w.annotated (.arguments (n + 1))).run (A ++ R)
      = (w.annotated (.arguments 1)).run R := by
  induction A generalizing n with
  | nil =>
      rw [BalancedFrom.nil_iff.mp h]
      rfl
  | cons t A ih =>
      have hrest : ∀ u ∈ A, u.kind.isLine = false := fun u hu => hlines u (by simp [hu])
      rw [List.cons_append, run_argument w _ (hlines t (by simp))]
      obtain ⟨m, hm, hA⟩ := BalancedFrom.cons_iff.mp h
      rw [← ih hrest hA]
      -- a parenthesis goes one deeper or one less deep, all else stays
      cases hk : t.kind with
      | paramStart =>
          obtain rfl : m = n + 1 := by simpa [hk] using hm
          rfl
      | paramEnd =>
          obtain rfl : m + 1 = n := by simpa [hk] using hm
          have hdeep : ((m + 1 : Nat) : Int) + 1 ≠ 1 := by omega
          have hless : ((m + 1 : Nat) : Int) + 1 - 1 = m + 1 := by omega
          simp only [annotationArgument, if_neg hdeep, hless]
          rfl
      | _ =>
          obtain rfl : m = n := by simpa [hk] using hm
          rfl

/-- An annotation with its arguments leaves a walk where it was. -/
theorem run_annotation_with {w : Walk} (hspan : w.span = .code)
    (habsent : w.annotation = .absent) {a o c : Token} {A : List Token}
    (ha : a.kind = .symbol) (hname : startsWith '@' a.text = true)
    (ho : o.kind = .paramStart) (hA : IsArguments A) (hc : c.kind = .paramEnd)
    (R : List Token) : w.run ([a, o] ++ A ++ [c] ++ R) = w.run R := by
  have hne : ∀ v : String, startsWith '@' v = false → a.text ≠ v := by
    rintro v hv rfl
    exact Bool.false_ne_true (hv.symm.trans hname)
  have hnamed : w.step a = pure (w.annotated .named) := by
    rw [step, habsent]
    show w.plainStep a = _
    rw [plainStep, ha]
    show w.symbol a.text = _
    rw [symbol, hspan, if_neg (by decide), if_neg (hne "*/" (by decide))]
    show pure (w.codeSymbol a.text) = _
    rw [codeSymbol, if_neg (hne "/**" (by decide)), if_neg (hne "/*" (by decide)),
      if_neg (hne "//" (by decide)), if_pos hname]
    rfl
  have hopen : (w.annotated .named).step o = pure (w.annotated (.arguments 1)) := by
    show (w.annotated .named).plainStep o = _
    rw [plainStep, ho]
    show pure (if w.span ≠ .code then _ else _) = _
    rw [if_neg (not_not_intro hspan)]
    rfl
  have hclose : c.kind.isLine = false := by
    rw [hc]
    rfl
  have hsame : w.annotated .absent = w := by
    rw [annotated, ← habsent]
  show w.run (a :: o :: (A ++ [c] ++ R)) = _
  rw [run_cons_pure (by rw [refusal?, ha]) hnamed,
    run_cons_pure (by rw [refusal?, ho]) hopen, List.append_assoc]
  -- the opening parenthesis is not counted among the arguments
  show (w.annotated (.arguments ((0 : Nat) + 1))).run (A ++ c :: R) = _
  rw [run_arguments w hA.lines (balancedFrom_zero.mpr hA.balanced), run_argument w 1 hclose, hc]
  show (w.annotated .absent).run R = _
  rw [hsame]

end Walk

/-- **ANNOTATIONS ARE TRANSPARENT.**  Put an annotation with arguments anywhere in
    code, also in the middle of a statement.  Whatever the arguments are, the same
    declaration or the same failure comes out, with the same reports. -/
theorem ofTokens_annotation_transparent {P A R : List Token} {a o c : Token} (hP : AtCode P)
    (ha : a.kind = .symbol) (hname : startsWith '@' a.text = true)
    (ho : o.kind = .paramStart) (hA : IsArguments A) (hc : c.kind = .paramEnd) :
    Declaration.ofTokens (P ++ ([a, o] ++ A ++ [c] ++ R))
      = Declaration.ofTokens (P ++ R) := by
  have hlines : ∀ t ∈ [a, o] ++ A ++ [c], t.kind.isLine = false := by
    simp only [List.forall_mem_append, List.forall_mem_cons]
    exact ⟨⟨⟨by rw [ha]; rfl, by rw [ho]; rfl, by simp⟩, hA.lines⟩, by rw [hc]; rfl,
      by simp⟩
  obtain ⟨g, rfl, hsame⟩ := Declaration.ofTokens_insert (P := P) (R := R) (G := (· = id))
    hlines rfl fun ix w hrun => by
      obtain ⟨hspan, habsent⟩ := hP.of_run hrun
      refine ⟨id, rfl, ?_⟩
      rw [Walk.run_annotation_with hspan habsent ha hname ho hA hc, Except.map_id, id_map]
  rw [hsame, Except.map_id, id_map]

/-- Arguments that hold parentheses, a type word, a terminator of no known text, the
    opener of a comment and an annotation. -/
def oddArguments : List Token :=
  [⟨.symbol, "max", 1⟩, ⟨.paramStart, "(", 1⟩, ⟨.keyword, "class", 1⟩,
    ⟨.statementEnd, "?", 1⟩, ⟨.paramEnd, ")", 1⟩, ⟨.symbol, "/*", 1⟩,
    ⟨.symbol, "@Min", 1⟩, ⟨.paramStart, "(", 1⟩, ⟨.paramEnd, ")", 1⟩]

/-- An annotation between the type and the name of a method. -/
theorem ofTokens_annotation_transparent_odd :
    AtCode (openClass ++ [⟨.symbol, "int", 1⟩]) ∧ IsArguments oddArguments
      ∧ Declaration.ofTokens (openClass ++ [⟨.symbol, "int", 1⟩]
          ++ ([⟨.symbol, "@Size", 1⟩, ⟨.paramStart, "(", 1⟩] ++ oddArguments
            ++ [⟨.paramEnd, ")", 1⟩] ++ intMethod.tail))
        = Declaration.ofTokens (openClass ++ [⟨.symbol, "int", 1⟩] ++ intMethod.tail) := by
  have hcode : AtCode (openClass ++ [⟨.symbol, "int", 1⟩]) := by decide +kernel
  have hargs : IsArguments oddArguments := ⟨by decide, by decide⟩
  exact ⟨hcode, hargs,
    ofTokens_annotation_transparent hcode rfl (by decide) rfl hargs rfl⟩

/-! ## Block comments -/

/-- A change that two computations hand on is handed on by one after the other. -/
theorem Logged.bind_map_comm {α β : Type} {φ : α → α} {ψ : β → β} {x y : Logged α}
    {f : α → Logged β} (hx : y = φ <$> x) (hf : ∀ a, f (φ a) = ψ <$> f a) :
    y >>= f = ψ <$> (x >>= f) := by
  rw [hx, bind_map_left, map_bind]
  exact bind_congr hf

/-- A draft with another licence. -/
def Draft.withLicense (l : String) (d : Draft) : Draft := { d with license := l }

/-- A declaration with another licence. -/
def Declaration.withLicense (l : String) (d : Declaration) : Declaration :=
  { d with license := l }

namespace Draft

/-- A header does not look at the licence. -/
theorem applyHeader_withLicense (l : String) (d : Draft) (ps : List Part) (doc : Doc)
    (signature : String) :
    (d.withLicense l).applyHeader ps doc signature
      = withLicense l <$> d.applyHeader ps doc signature := by
  have hfold : ∀ (ps : List Part) (d : Draft) (slot : HeaderSlot),
      Logged.fold headerStep (d.withLicense l, slot) ps
        = (fun r => (withLicense l r.1, r.2)) <$> Logged.fold headerStep (d, slot) ps := by
    intro ps
    induction ps with
    | nil => exact fun _ _ => rfl
    | cons p ps ih =>
        intro d slot
        have hstep : headerStep (d.withLicense l, slot) p
            = (fun r => (withLicense l r.1, r.2)) <$> headerStep (d, slot) p := by
          rw [headerStep, headerStep]
          cases p.kind with
          | identifier => cases slot <;> rfl
          | _ => rfl
        rw [Logged.fold, Logged.fold, hstep, bind_map_left, map_bind]
        exact bind_congr fun r => ih r.1 r.2
  rw [applyHeader, applyHeader, hfold, bind_map_left, map_bind]
  rfl

theorem finish_withLicense (l : String) (d : Draft) :
    (d.withLicense l).finish = Declaration.withLicense l <$> d.finish := by
  have hkind : (d.withLicense l).kind = d.kind := rfl
  have hclass : (d.withLicense l).toClass = Declaration.withLicense l <$> d.toClass :=
    ite_eq_apply (Declaration.withLicense l <$> ·) (fun _ => rfl) fun _ => rfl
  rw [finish, finish, hkind]
  cases d.kind with
  | none =>
      show d.reportNoType >>= _ = _
      rw [map_bind, hclass]
  | some k =>
      cases k with
      | classKind => exact hclass
      | interfaceKind | enumKind => rfl

end Draft

namespace Walk

/-- The walk with another licence, another block comment to take it from, and other
    words of the block comment that it is in. -/
def relicense (l h : String) (ws : List String) (w : Walk) : Walk :=
  { w with draft := w.draft.withLicense l, headerComment := h, commentWords := ws }

section

variable (l h : String) (ws : List String) (w : Walk)

/-- No statement is read differently. -/
theorem readAs_relicense (r : Role) :
    (w.relicense l h ws).readAs r = relicense l h ws <$> w.readAs r := by
  cases r with
  | nothing | dependency | package | unnamed | loose => rfl
  | constants =>
      simp only [readAs, addConstants, map_bind]
      rfl
  | field =>
      simp only [readAs, addField, map_bind]
      rfl
  | method =>
      simp only [readAs, addMethod, map_bind]
      rfl
  | header =>
      simp only [readAs, applyHeader, map_bind]
      show (w.draft.withLicense l).applyHeader w.statement.parts w.statement.doc
        w.cursor.signature >>= _ = _
      rw [Draft.applyHeader_withLicense, bind_map_left]
      rfl

theorem close_relicense (c : Closing) :
    (w.relicense l h ws).close c = relicense l h ws <$> w.close c := by
  have hread := readAs_relicense l h ws w c.role
  apply Logged.ext
  · simp only [close, hread, Logged.value_map]
    rfl
  · simp only [close, hread, Logged.log_map]

/-- A move only hands the texts of comments on, and one move writes the licence. -/
theorem take_relicense (m : Move) :
    ∃ l' h' ws', (w.relicense l h ws).take m = relicense l' h' ws' <$> w.take m
      ∧ (l' = l ∨ ∃ c, m = .license c) := by
  cases m with
  | aside _ _ r events =>
      have hlog := (List.append_nil events).symm
      cases r with
      | nothing | openDoc | docWord => exact ⟨l, h, ws, Logged.ext rfl hlog, .inl rfl⟩
      | openBlock => exact ⟨l, h, [], Logged.ext rfl hlog, .inl rfl⟩
      | blockWord word => exact ⟨l, h, ws ++ [word], Logged.ext rfl hlog, .inl rfl⟩
      | closeBlock => exact ⟨l, joinWords ws, [], Logged.ext rfl hlog, .inl rfl⟩
  | gather c _ events =>
      have hlog := (List.append_nil events).symm
      exact ⟨l, h, ws, Logged.ext rfl hlog, .inl rfl⟩
  | license c => exact ⟨if h ≠ "" then h else l, h, ws, rfl, .inr ⟨c, rfl⟩⟩
  | line | type => exact ⟨l, h, ws, rfl, .inl rfl⟩
  | closeDoc =>
      refine ⟨l, h, ws, ?_, .inl rfl⟩
      simp only [take, map_bind]
      rfl
  | ends c =>
      refine ⟨l, h, ws, ?_, .inl rfl⟩
      exact Logged.bind_map_comm (close_relicense l h ws w.flush c) fun _ => rfl

/-- **A step only hands the texts of comments on**: it looks at them in no other
    way, and the licence stays unless the name of a package comes next. -/
theorem step_relicense (t : Token) :
    ∃ l' h' ws', (w.relicense l h ws).step t = relicense l' h' ws' <$> w.step t
      ∧ (l' = l ∨ (t.kind = .keyword ∧ t.text = "package")) := by
  have hview : (w.relicense l h ws).view = w.view := rfl
  have hmoves := w.view.moves t
  obtain ⟨l', h', ws', hsame, hl'⟩ := take_relicense l h ws w (w.view.move t)
  refine ⟨l', h', ws', by rw [step_eq, step_eq, hview, hsame], hl'.imp_right ?_⟩
  rintro ⟨c, hlicense⟩
  rw [hlicense] at hmoves
  cases hmoves with
  | license _ hk hword => exact ⟨hk, hword⟩

/-- The same for a whole walk. -/
theorem run_relicense (ts : List Token) :
    ∃ l' h' ws', (w.relicense l h ws).run ts = Except.map (relicense l' h' ws') <$> w.run ts
      ∧ (l' = l ∨ ∃ t ∈ ts, t.kind = .keyword ∧ t.text = "package") := by
  induction ts generalizing l h ws w with
  | nil => exact ⟨l, h, ws, rfl, .inl rfl⟩
  | cons t ts ih =>
      have hrefusal : (w.relicense l h ws).refusal? t = w.refusal? t := rfl
      rw [run, run, hrefusal]
      cases w.refusal? t with
      | some f => exact ⟨l, h, ws, rfl, .inl rfl⟩
      | none =>
          obtain ⟨l₁, h₁, ws₁, hstep, hl₁⟩ := step_relicense l h ws w t
          obtain ⟨l₂, h₂, ws₂, hrun, hl₂⟩ := ih l₁ h₁ ws₁ (w.step t).value
          refine ⟨l₂, h₂, ws₂, ?_, ?_⟩
          · show (w.relicense l h ws).step t >>= (run · ts) = _ <$> (w.step t >>= (run · ts))
            rw [hstep, bind_map_left, map_bind]
            exact Logged.bind_congr_value hrun
          · rcases hl₂ with rfl | ⟨u, hu, hpackage⟩
            · exact hl₁.imp_right fun hpackage => ⟨t, by simp, hpackage⟩
            · exact .inr ⟨u, by simp [hu], hpackage⟩

theorem finish_relicense :
    (w.relicense l h ws).finish = Declaration.withLicense l <$> w.finish := by
  have hconstants : (w.relicense l h ws).finishConstants
      = relicense l h ws <$> w.finishConstants := by
    have hview : (w.relicense l h ws).view = w.view := rfl
    have hwait : (w.relicense l h ws).awaitsConstants = w.awaitsConstants := rfl
    have hspan : (w.relicense l h ws).span = w.span := rfl
    rw [finishConstants_eq, finishConstants_eq, hview, hwait, hspan]
    split
    · split
      · exact close_relicense l h ws w.flush _
      · exact close_relicense l h ws w _
    · rfl
  rw [finish, finish]
  exact Logged.bind_map_comm hconstants fun v => v.draft.finish_withLicense l

/-- Where no package is named, the licence stays. -/
theorem license_of_run {v : Walk} {ts : List Token}
    (hts : ∀ t ∈ ts, t.kind = .keyword → t.text ≠ "package")
    (hrun : (w.run ts).value = .ok v) : v.draft.license = w.draft.license := by
  obtain ⟨l', h', ws', hsame, hl'⟩ := run_relicense w.draft.license w.headerComment
    w.commentWords w ts
  have hkept : l' = w.draft.license :=
    hl'.resolve_right fun ⟨t, ht, hk, hword⟩ => hts t ht hk hword
  have hvalue : (w.run ts).value = Except.map (relicense l' h' ws') (w.run ts).value :=
    congrArg Logged.value hsame
  rw [hrun] at hvalue
  rw [← hkept]
  exact congrArg (fun u : Walk => u.draft.license) (Except.ok.inj hvalue)

end

/-- What the declaration of a walk with other texts of comments says. -/
theorem conclude_relicense (l h : String) (ws : List String) (r : Except Failure Walk) :
    conclude (r.map (relicense l h ws))
      = Except.map (Declaration.withLicense l) <$> conclude r := by
  cases r with
  | error f => rfl
  | ok w =>
      show Except.ok <$> (w.relicense l h ws).finish = _ <$> (Except.ok <$> w.finish)
      rw [finish_relicense, Functor.map_map, Functor.map_map]
      rfl

/-- A walk with its own licence has the same declaration. -/
theorem conclude_relicense_own (l h : String) (ws : List String)
    {r : Except Failure Walk} (hr : ∀ w, r = .ok w → w.draft.license = l) :
    conclude (r.map (relicense l h ws)) = conclude r := by
  cases r with
  | error f => rfl
  | ok w =>
      show Except.ok <$> (w.relicense l h ws).finish = Except.ok <$> w.finish
      rw [finish_relicense, ← hr w rfl]
      exact congrArg (Except.ok <$> ·)
        (finish_relicense w.draft.license w.headerComment w.commentWords w).symm

/-! ### The words of the comment -/

/-- The walk inside a block comment, of which it has read the words `ws`. -/
def inBlock (w : Walk) (ws : List String) : Walk :=
  { w with span := .blockComment, commentWords := ws, annotation := .absent }

/-- Inside a block comment words are only gathered. -/
theorem run_inBlock (w : Walk) {C : List Token} (hC : ∀ t ∈ C, t.inDoc = true)
    (ws : List String) (R : List Token) :
    ∃ ws', (w.inBlock ws).run (C ++ R) = (w.inBlock ws').run R := by
  induction C generalizing ws with
  | nil => exact ⟨ws, rfl⟩
  | cons t C ih =>
      have hword : ∃ ws', (w.inBlock ws).step t = pure (w.inBlock ws') := by
        show ∃ ws', (w.inBlock ws).plainStep t = _
        rw [plainStep]
        rcases Token.kind_of_inDoc (hC t (by simp)) with hk | ⟨hk, hclose⟩
        · rw [hk]
          exact ⟨ws ++ [t.text], rfl⟩
        · rw [hk]
          refine ⟨if t.text = "*" then ws else ws ++ [t.text], ?_⟩
          show (w.inBlock ws).symbol t.text = _
          have hspan : (w.inBlock ws).span = .blockComment := rfl
          rw [symbol, hspan, if_neg (by decide), if_neg hclose]
          rfl
      have haccepted : (w.inBlock ws).refusal? t = none := by
        rw [refusal?]
        rcases Token.kind_of_inDoc (hC t (by simp)) with hk | ⟨hk, -⟩ <;> rw [hk]
      obtain ⟨ws₁, hstep⟩ := hword
      obtain ⟨ws₂, hrest⟩ := ih (fun u hu => hC u (by simp [hu])) ws₁
      refine ⟨ws₂, ?_⟩
      rw [List.cons_append, run_cons_pure haccepted hstep, hrest]

end Walk

/-- The tokens of a block comment with the words `C`. -/
def blockTokens (n : Int) (C : List Token) (m : Int) : List Token :=
  ⟨.symbol, "/*", n⟩ :: (C ++ [⟨.symbol, "*/", m⟩])

/-- A block comment leaves a walk where it was, with another text to take as the
    licence. -/
theorem Walk.run_blockTokens {w : Walk} (hspan : w.span = .code)
    (habsent : w.annotation = .absent) {C : List Token} (hC : ∀ t ∈ C, t.inDoc = true)
    (n m : Int) (R : List Token) :
    ∃ h, w.run (blockTokens n C m ++ R) = (w.relicense w.draft.license h []).run R := by
  have hopen : w.step ⟨.symbol, "/*", n⟩ = pure (w.inBlock []) := by
    rw [step, habsent]
    show w.symbol "/*" = _
    rw [symbol, hspan]
    rfl
  obtain ⟨ws, hwords⟩ := w.run_inBlock hC [] (⟨.symbol, "*/", m⟩ :: R)
  refine ⟨joinWords ws, ?_⟩
  show w.run (_ :: (C ++ [_] ++ R)) = _
  rw [run_cons_pure rfl hopen, List.append_assoc]
  refine hwords.trans ?_
  have hclose : (w.inBlock ws).step ⟨.symbol, "*/", m⟩
      = pure (w.relicense w.draft.license (joinWords ws) []) := by
    rw [relicense, hspan, habsent]
    rfl
  rw [run_cons_pure rfl hclose]

/-- **BLOCK COMMENTS SHOW IN THE LICENCE ONLY.**  Put a block comment anywhere in
    code, also in the middle of a statement.  Whatever its words are, the same
    failure comes out, or the same declaration up to the licence, with the same
    reports; and the licence is another one only if a package is named after the
    comment. -/
theorem ofTokens_insert_blockComment {P C R : List Token} (hP : AtCode P)
    (hC : ∀ t ∈ C, t.inDoc = true) (n m : Int) :
    (Declaration.ofTokens (P ++ (blockTokens n C m ++ R))).log
        = (Declaration.ofTokens (P ++ R)).log
      ∧ ((∃ f, (Declaration.ofTokens (P ++ R)).value = .error f
          ∧ (Declaration.ofTokens (P ++ (blockTokens n C m ++ R))).value = .error f)
        ∨ ∃ d license, (Declaration.ofTokens (P ++ R)).value = .ok d
          ∧ (Declaration.ofTokens (P ++ (blockTokens n C m ++ R))).value
              = .ok { d with license }
          ∧ (license ≠ d.license →
              ∃ t ∈ R, t.kind = .keyword ∧ t.text = "package")) := by
  have hlines : ∀ t ∈ blockTokens n C m, t.kind.isLine = false := by
    simp only [blockTokens, List.forall_mem_cons, List.forall_mem_append]
    refine ⟨rfl, fun t ht => ?_, rfl, by simp⟩
    rcases Token.kind_of_inDoc (hC t ht) with hk | ⟨hk, -⟩ <;> (rw [hk]; rfl)
  obtain ⟨g, ⟨hlicense, hsame⟩, heq⟩ := Declaration.ofTokens_insert (P := P) (R := R)
    (G := fun g => (∀ d, ∃ license, g d = { d with license })
      ∧ ((¬ ∃ t ∈ R, t.kind = .keyword ∧ t.text = "package") → g = id))
    hlines ⟨fun d => ⟨d.license, rfl⟩, fun _ => rfl⟩ fun ix w hrun => by
      obtain ⟨hspan, habsent⟩ := hP.of_run hrun
      obtain ⟨h, hcomment⟩ := Walk.run_blockTokens hspan habsent hC n m R
      obtain ⟨l', h', ws', hrest, hl'⟩ := w.run_relicense w.draft.license h [] R
      rw [hcomment, hrest, bind_map_left]
      by_cases hpackage : ∃ t ∈ R, t.kind = .keyword ∧ t.text = "package"
      · refine ⟨Declaration.withLicense l',
          ⟨fun d => ⟨l', rfl⟩, fun hnone => absurd hpackage hnone⟩, ?_⟩
        rw [map_bind]
        exact bind_congr (Walk.conclude_relicense l' h' ws')
      · refine ⟨id, ⟨fun d => ⟨d.license, rfl⟩, fun _ => rfl⟩, ?_⟩
        rw [Except.map_id, id_map]
        apply Logged.bind_congr_value
        refine Walk.conclude_relicense_own l' h' ws' fun v hv => ?_
        rw [hl'.resolve_right hpackage]
        exact w.license_of_run
          (fun t ht hk hword => hpackage ⟨t, ht, hk, hword⟩) hv
  rw [heq]
  refine ⟨List.append_nil _, ?_⟩
  cases hvalue : (Declaration.ofTokens (P ++ R)).value with
  | error f => exact .inl ⟨f, rfl, congrArg (Except.map g) hvalue⟩
  | ok d =>
      obtain ⟨license, hg⟩ := hlicense d
      refine .inr ⟨d, license, rfl, ?_, fun hne => ?_⟩
      · exact (congrArg (Except.map g) hvalue).trans (congrArg Except.ok hg)
      · refine Classical.byContradiction fun hnone => hne ?_
        rw [hsame hnone] at hg
        exact (congrArg Declaration.license hg).symm

def packageClass : List Token :=
  [⟨.keyword, "package", 1⟩, ⟨.symbol, "p", 1⟩, ⟨.statementEnd, ";", 1⟩,
    ⟨.keyword, "class", 1⟩, ⟨.symbol, "A", 1⟩, ⟨.statementEnd, "\x7b", 1⟩]

/-- A comment before the package is its licence, whatever words it holds. -/
theorem ofTokens_insert_blockComment_package :
    AtCode [Token.lineNumber 1]
      ∧ (∀ t ∈ [⟨.symbol, "Free", 1⟩, ⟨.keyword, "class", 1⟩, ⟨.symbol, "/*", 1⟩],
          Token.inDoc t = true)
      ∧ ∃ d, (Declaration.ofTokens ([Token.lineNumber 1] ++ packageClass)).value = .ok d
        ∧ d.license = ""
        ∧ (Declaration.ofTokens ([Token.lineNumber 1]
            ++ (blockTokens 1
              [⟨.symbol, "Free", 1⟩, ⟨.keyword, "class", 1⟩, ⟨.symbol, "/*", 1⟩] 1
              ++ packageClass))).value = .ok { d with license := "Free class /*" } := by
  have hcode : AtCode [Token.lineNumber 1] := by decide +kernel
  have hwords : ∀ t ∈ [⟨.symbol, "Free", 1⟩, ⟨.keyword, "class", 1⟩, ⟨.symbol, "/*", 1⟩],
      Token.inDoc t = true := by decide
  have hd : (Declaration.ofTokens ([Token.lineNumber 1] ++ packageClass)).value.toOption.map
      Declaration.license = some "" := by decide +kernel
  have he : (Declaration.ofTokens ([Token.lineNumber 1]
      ++ (blockTokens 1 [⟨.symbol, "Free", 1⟩, ⟨.keyword, "class", 1⟩, ⟨.symbol, "/*", 1⟩] 1
        ++ packageClass))).value.toOption.map Declaration.license
        = some "Free class /*" := by decide +kernel
  refine ⟨hcode, hwords, ?_⟩
  rcases (ofTokens_insert_blockComment (R := packageClass) hcode hwords 1 1).2
    with ⟨f, hf, -⟩ | ⟨d, license, hd', he', -⟩
  · rw [hf] at hd
    cases hd
  · rw [hd'] at hd
    rw [he'] at he
    obtain rfl : license = "Free class /*" := Option.some.inj he
    exact ⟨d, hd', Option.some.inj hd, he'⟩

end JavaOutline
