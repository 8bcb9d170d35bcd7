import JavaOutline.Proofs.DocEffect
import JavaOutline.Proofs.Positions

/-! # The header of the type is read once

    A walk reads the header of one type only.  The kind is that of the first
    keyword in ordinary code that begins a type.  What the header says is written
    at the brace that ends the statement of this keyword, and at no other token.

    1. `Walk.headerEffect` says what one step can do to the kind and to the header.
    2. `HeaderPhase` says how far the header has been read: no type has begun, the
       statement of its keyword is under way, or that statement has ended.  Every
       step keeps it (`HeaderPhase.step`). -/

namespace JavaOutline

/-- What the header of a type says. -/
structure TypeHeader where
  name : String := ""
  access : String := ""
  modifiers : List String := []
  parents : List String := []
  interfaces : List String := []
  signature : String := ""
  author : String := ""
  version : String := ""
  description : String := ""
  deprecated : String := ""
  see : String := ""
  deriving DecidableEq, Repr

/-- What is known of the header. -/
def Draft.header (d : Draft) : TypeHeader where
  name := d.name
  access := d.access
  modifiers := d.modifiers
  parents := d.parents
  interfaces := d.interfaces
  signature := d.signature
  author := d.author
  version := d.version
  description := d.description
  deprecated := d.deprecated
  see := d.see

namespace Walk

variable {w v : Walk} {t : Token}

/-! ## One step -/

/-- The token begins a type, as far as the walk can tell. -/
structure BeginsType (w : Walk) (t : Token) : Prop where
  code : w.readsCode = true
  keyword : t.kind = .keyword
  word : Keyword.isTypeWord t.text = true

/-- The token ends a statement for the walk. -/
structure EndsStatement (w : Walk) (t : Token) : Prop where
  code : w.readsCode = true
  ending : t.kind = .statementEnd

/-- Nothing is written into the header, and no header begins. -/
structure KeepsHeader (w v : Walk) : Prop where
  kind : v.draft.kind = w.draft.kind
  header : v.draft.header = w.draft.header
  reading : v.statement.isHeader = true → w.statement.isHeader = true

theorem KeepsHeader.same (hd : v.draft = w.draft)
    (hs : v.statement.isHeader = w.statement.isHeader) : w.KeepsHeader v :=
  ⟨by rw [hd], by rw [hd], fun h => hs ▸ h⟩

/-- What a token can do to the kind and to the header. -/
inductive HeaderEffect (w : Walk) (t : Token) (v : Walk) : Prop where
  /-- The first type begins. -/
  | begins (type : w.BeginsType t) (fresh : w.inType = false)
      (kind : v.draft.kind = TypeKind.ofWord? t.text)
      (header : v.draft.header = w.draft.header) : HeaderEffect w t v
  /-- A statement ends. -/
  | ends (statement : w.EndsStatement t) (kind : v.draft.kind = w.draft.kind)
      (header : v.draft.header = w.draft.header
        ∨ (w.statement.isHeader = true ∧ t.text ≠ ";"))
      (reading : v.statement.isHeader = false) : HeaderEffect w t v
  /-- Anything else. -/
  | other (type : w.BeginsType t → w.inType = true)
      (statement : ¬ w.EndsStatement t) (keeps : w.KeepsHeader v) : HeaderEffect w t v

/-- Only a statement that is read as the header writes it. -/
theorem header_readAs {text : String} {r : Role} (hr : w.view.Admits text r) :
    (w.readAs r).value.draft.header = w.draft.header
      ∨ (w.statement.isHeader = true ∧ text ≠ ";") := by
  cases r with
  | header => exact .inr hr
  | _ => exact .inl rfl

/-- **What one step can do to the header.** -/
theorem headerEffect (w : Walk) (t : Token) : w.HeaderEffect t (w.step t).value := by
  have hother : t.kind ≠ .keyword → t.kind ≠ .statementEnd → ∀ {v : Walk},
      w.KeepsHeader v → w.HeaderEffect t v := fun hkey hend _ h =>
    .other (fun htype => absurd htype.keyword hkey) (fun hends => hend hends.ending) h
  obtain ⟨m, hm, hstep⟩ := w.exists_move t
  rw [hstep]
  cases hm with
  | @aside _ _ r _ _ hquiet =>
      refine .other (fun htype => absurd htype.keyword (hquiet htype.code).plain.1)
        (fun hends => (hquiet hends.code).plain.2 hends.ending) ?_
      cases r <;> exact .same rfl rfl
  | line hk => exact hother (by rw [hk]; decide) (by rw [hk]; decide) (.same rfl rfl)
  | @gather c _ _ hg =>
      exact .other (fun htype => hg.type htype.keyword htype.word)
        (fun hends => hg.notEnd hends.ending) (.same rfl (w.statement.change_isHeader c))
  | @license c hg =>
      refine .other (fun htype => hg.type htype.keyword htype.word)
        (fun hends => hg.notEnd hends.ending) ⟨rfl, rfl, fun hheader => ?_⟩
      rwa [← w.statement.change_isHeader c]
  | type hcode hk hword hfresh => exact .begins ⟨hcode, hk, hword⟩ hfresh rfl rfl
  | closeDoc hk =>
      exact hother (by rw [hk]; decide) (by rw [hk]; decide)
        ⟨rfl, rfl, fun hheader => (Bool.and_eq_true_iff.mp hheader).2⟩
  | ends hcode hk hcloses =>
      exact .ends ⟨hcode, hk⟩ (w.flush.readAs_kind _)
        (header_readAs (w := w.flush) hcloses.admits) rfl

end Walk

/-! ## First tokens -/

/-- After the tokens `a` the token `u` is the first one for which `Q` holds. -/
structure First (Q : List Token → Token → Prop) (a : List Token) (u : Token) : Prop where
  here : Q a u
  earlier : ∀ x y z, a = x ++ y :: z → ¬ Q x y

theorem First.unique {Q : List Token → Token → Prop} {a a' b b' : List Token}
    {u u' : Token} (h : First Q a u) (h' : First Q a' u')
    (heq : a ++ u :: b = a' ++ u' :: b') : a = a' ∧ u = u' := by
  rcases List.append_eq_append_iff.mp heq with ⟨c, ha', hrest⟩ | ⟨c, ha, hrest⟩
  · cases c with
    | nil =>
        rw [List.append_nil] at ha'
        exact ⟨ha'.symm, (List.cons.inj hrest).1⟩
    | cons x c =>
        obtain ⟨rfl, -⟩ := List.cons.inj hrest
        exact absurd h.here (h'.earlier a u c ha')
  · cases c with
    | nil =>
        rw [List.append_nil] at ha
        exact ⟨ha, (List.cons.inj hrest).1.symm⟩
    | cons x c =>
        obtain ⟨rfl, -⟩ := List.cons.inj hrest
        exact absurd h'.here (h.earlier a' u' c ha)

/-- A property that holds at no token of a list does not hold at one more either. -/
theorem forall_snoc {Q : List Token → Token → Prop} {ts : List Token} {t : Token}
    (h : ∀ x y z, ts = x ++ y :: z → ¬ Q x y) (ht : ¬ Q ts t) :
    ∀ x y z, ts ++ [t] = x ++ y :: z → ¬ Q x y := by
  intro x y z heq
  cases z using List.reverseRecOn with
  | nil =>
      obtain ⟨rfl, hy⟩ := List.append_inj' heq rfl
      obtain ⟨rfl, -⟩ := List.cons.inj hy
      exact ht
  | append_singleton z last =>
      have hlast : ts ++ [t] = (x ++ y :: z) ++ [last] := by simpa using heq
      exact h x y z (List.append_inj' hlast rfl).1

/-! ## How far the header has been read -/

/-- After the tokens `a` the token `u` begins a type. -/
def TypeAt (ix : LineIndex) (a : List Token) (u : Token) : Prop :=
  (walkAt ix a).BeginsType u

/-- After the tokens `pre` and `c` the token `t` ends a statement. -/
def EndAfter (ix : LineIndex) (pre c : List Token) (t : Token) : Prop :=
  (walkAt ix (pre ++ c)).EndsStatement t

/-- How far the header has been read. -/
inductive HeaderPhase (ix : LineIndex) (ts : List Token) : Prop where
  /-- No type has begun. -/
  | before (none : ∀ x y z, ts = x ++ y :: z → ¬ TypeAt ix x y)
      (kind : (walkAt ix ts).draft.kind = Option.none)
      (reading : (walkAt ix ts).statement.isHeader = false) : HeaderPhase ix ts
  /-- The first statement since the type has begun is still under way. -/
  | within (a : List Token) (u : Token) (c : List Token)
      (split : ts = a ++ [u] ++ c) (first : First (TypeAt ix) a u)
      (kind : (walkAt ix ts).draft.kind = TypeKind.ofWord? u.text)
      (under : ∀ x y z, c = x ++ y :: z → ¬ EndAfter ix (a ++ [u]) x y) :
      HeaderPhase ix ts
  /-- That statement has ended. -/
  | past (a : List Token) (u : Token) (c : List Token)
      (split : ts = a ++ [u] ++ c) (first : First (TypeAt ix) a u)
      (kind : (walkAt ix ts).draft.kind = TypeKind.ofWord? u.text)
      (reading : (walkAt ix ts).statement.isHeader = false) : HeaderPhase ix ts

theorem First.inType {ix : LineIndex} {a ts : List Token} {u : Token}
    (h : First (TypeAt ix) a u)
    (hkind : (walkAt ix ts).draft.kind = TypeKind.ofWord? u.text) :
    (walkAt ix ts).inType = true := by
  obtain ⟨k, hk⟩ := TypeKind.exists_ofWord? h.here.word
  rw [Walk.inType, hkind, hk]
  rfl

theorem HeaderPhase.step {ix : LineIndex} {ts : List Token} (h : HeaderPhase ix ts)
    (t : Token) : HeaderPhase ix (ts ++ [t]) := by
  have heffect := (walkAt ix ts).headerEffect t
  rw [← walkAt_snoc] at heffect
  cases h with
  | before hnone hkind hreading =>
      have hout : (walkAt ix ts).inType = false := by
        rw [Walk.inType, hkind]
        rfl
      cases heffect with
      | begins htype _ hkind' _ =>
          refine .within ts t [] (List.append_nil _).symm ⟨htype, hnone⟩ hkind' ?_
          intro x y z hnil
          exact absurd hnil (by simp)
      | ends hends hkind' _ hreading' =>
          refine .before (forall_snoc hnone fun htype => ?_) (hkind'.trans hkind) hreading'
          cases hends.ending.symm.trans htype.keyword
      | other htype _ hkeeps =>
          refine .before (forall_snoc hnone fun hbegins => ?_) (hkeeps.kind.trans hkind) ?_
          · cases hout.symm.trans (htype hbegins)
          · exact Bool.eq_false_iff.mpr fun hread =>
              Bool.false_ne_true (hreading.symm.trans (hkeeps.reading hread))
  | within a u c hsplit hfirst hkind hunder =>
      have hin := hfirst.inType hkind
      have hsplit' : ts ++ [t] = a ++ [u] ++ (c ++ [t]) := by
        rw [hsplit, List.append_assoc]
      cases heffect with
      | begins _ hfresh => cases hfresh.symm.trans hin
      | ends _ hkind' _ hreading' =>
          exact .past a u (c ++ [t]) hsplit' hfirst (hkind'.trans hkind) hreading'
      | other _ hends hkeeps =>
          refine .within a u (c ++ [t]) hsplit' hfirst (hkeeps.kind.trans hkind) ?_
          refine forall_snoc hunder fun hend => hends ?_
          rw [hsplit]
          exact hend
  | past a u c hsplit hfirst hkind hreading =>
      have hin := hfirst.inType hkind
      have hsplit' : ts ++ [t] = a ++ [u] ++ (c ++ [t]) := by
        rw [hsplit, List.append_assoc]
      cases heffect with
      | begins _ hfresh => cases hfresh.symm.trans hin
      | ends _ hkind' _ hreading' =>
          exact .past a u (c ++ [t]) hsplit' hfirst (hkind'.trans hkind) hreading'
      | other _ _ hkeeps =>
          refine .past a u (c ++ [t]) hsplit' hfirst (hkeeps.kind.trans hkind) ?_
          exact Bool.eq_false_iff.mpr fun hread =>
            Bool.false_ne_true (hreading.symm.trans (hkeeps.reading hread))

/-- **Every list of tokens leaves the header in one of the three phases.** -/
theorem headerPhase (ix : LineIndex) (ts : List Token) : HeaderPhase ix ts := by
  induction ts using List.reverseRecOn with
  | nil => exact .before (by simp) rfl rfl
  | append_singleton ts t ih => exact ih.step t

/-- The token changes what is known of the header. -/
def WritesHeader (ix : LineIndex) (pre : List Token) (t : Token) : Prop :=
  (walkAt ix (pre ++ [t])).draft.header ≠ (walkAt ix pre).draft.header

/-- Only the end of the first statement since the type has begun writes the
    header, and it is no semicolon. -/
theorem WritesHeader.place {ix : LineIndex} {pre : List Token} {t : Token}
    (h : WritesHeader ix pre t) :
    t.text ≠ ";" ∧ ∃ a u c, pre = a ++ [u] ++ c ∧ First (TypeAt ix) a u
      ∧ First (EndAfter ix (a ++ [u])) c t := by
  have heffect := (walkAt ix pre).headerEffect t
  rw [← walkAt_snoc] at heffect
  cases heffect with
  | begins _ _ _ hsame => exact absurd hsame h
  | other _ _ hkeeps => exact absurd hkeeps.header h
  | ends hends _ hheader _ =>
      obtain ⟨hread, htext⟩ := hheader.resolve_left h
      refine ⟨htext, ?_⟩
      cases headerPhase ix pre with
      | before _ _ hreading => exact nomatch hreading.symm.trans hread
      | past _ _ _ _ _ _ hreading => exact nomatch hreading.symm.trans hread
      | within a u c hsplit hfirst _ hunder =>
          refine ⟨a, u, c, hsplit, hfirst, ?_, hunder⟩
          rw [EndAfter, ← hsplit]
          exact hends

/-! ## Whole token lists -/

/-- A token that a walk has taken was not refused. -/
theorem Walk.refusal?_of_run {w v : Walk} {pre post : List Token} {t : Token}
    (h : (w.run (pre ++ t :: post)).value = .ok v) :
    (w.steps pre).refusal? t = none := by
  induction pre generalizing w with
  | nil =>
      rw [List.nil_append, run] at h
      cases hr : w.refusal? t with
      | some f =>
          rw [hr] at h
          cases h
      | none => exact hr
  | cons u pre ih =>
      rw [List.cons_append, run] at h
      cases hr : w.refusal? u with
      | some f =>
          rw [hr] at h
          cases h
      | none =>
          rw [hr] at h
          exact ih h

/-- An end of a statement that is not refused is a semicolon or a brace. -/
theorem Walk.EndsStatement.text {w : Walk} {t : Token} (h : w.EndsStatement t)
    (hr : w.refusal? t = none) : t.text = ";" ∨ t.text = "\x7b" := by
  by_contra hne
  rw [not_or] at hne
  rw [refusal?, h.ending, h.code] at hr
  simp [hne.1, hne.2] at hr

theorem Draft.Grows.header {d e : Draft} (h : d.Grows e) : e.header = d.header := by
  obtain ⟨fs, ms, cs, license, rfl⟩ := h
  rfl

theorem Walk.kind_finish (w : Walk) :
    w.finish.value.kind = w.draft.kind.getD .classKind := by
  rw [finish, Logged.value_bind, Draft.finish_value, finishConstants_draft]
  show (Draft.shape { w.draft with
    constants := w.draft.constants ++ w.pendingConstants }).kind = _
  rw [Draft.shape]
  cases w.draft.kind with
  | none => rfl
  | some k => cases k <;> rfl

/-- Where no type begins there is no kind. -/
theorem kind_walkAt_of_none {ix : LineIndex} {ts : List Token}
    (h : ∀ x y z, ts = x ++ y :: z → ¬ TypeAt ix x y) :
    (walkAt ix ts).draft.kind = none := by
  cases headerPhase ix ts with
  | before _ hkind _ => exact hkind
  | within a u c hsplit hfirst | past a u c hsplit hfirst =>
      exact absurd hfirst.here (h a u c (by simp [hsplit]))

/-- The kind is that of the first type. -/
theorem First.kind_walkAt {ix : LineIndex} {a b : List Token} {u : Token}
    (h : First (TypeAt ix) a u) :
    (walkAt ix (a ++ u :: b)).draft.kind = TypeKind.ofWord? u.text := by
  cases headerPhase ix (a ++ u :: b) with
  | before hnone _ _ => exact absurd h.here (hnone a u b rfl)
  | within a' u' c hsplit hfirst hkind | past a' u' c hsplit hfirst hkind =>
      rw [List.append_assoc] at hsplit
      obtain ⟨-, rfl⟩ := h.unique hfirst hsplit
      exact hkind

/-- Two tokens of one list that write the header are one token. -/
theorem WritesHeader.unique {ix : LineIndex} {pre post pre' post' : List Token}
    {t t' : Token} (h : WritesHeader ix pre t) (h' : WritesHeader ix pre' t')
    (heq : pre ++ t :: post = pre' ++ t' :: post') : pre = pre' := by
  obtain ⟨-, a, u, c, rfl, hfirst, hend⟩ := h.place
  obtain ⟨-, a', u', c', rfl, hfirst', hend'⟩ := h'.place
  simp only [List.append_assoc, List.singleton_append] at heq
  obtain ⟨rfl, rfl⟩ := hfirst.unique hfirst' heq
  have hrest : c ++ t :: post = c' ++ t' :: post' :=
    (List.cons.inj (List.append_cancel_left heq)).2
  obtain ⟨rfl, -⟩ := hend.unique hend' hrest
  rfl

/-- What is known when a header ends is known in the end. -/
theorem Walk.EndsHeader.header_walkAt {ix : LineIndex} {pre : List Token} {t : Token}
    (h : (walkAt ix pre).EndsHeader t) (post : List Token) :
    (walkAt ix (pre ++ t :: post)).draft.header
      = (walkAt ix pre).flush.applyHeader.value.draft.header := by
  have hpast := (h.step (walkAt_headsType ix pre)).1
  have hkept := (hpast.steps post).draft.header
  have hafter : walkAt ix (pre ++ t :: post)
      = ((walkAt ix pre).step t).value.steps post :=
    Walk.steps_append _ pre (t :: post)
  rw [hafter, hkept, h.applies.1]
  rfl

/-- **THE HEADER IS READ ONCE.**  Of every list of tokens that has a declaration:
    the kind is that of the first token that begins a type, and `class` if there is
    none.  At most one token writes what is known of the header: the brace that ends
    the first statement since the type has begun.  And where a header ends, what it
    says is what is known in the end. -/
theorem ofTokens_header_once {ts : List Token} {d : Declaration}
    (h : (Declaration.ofTokens ts).value = .ok d) :
    ∃ ix, LineIndex.ofTokens ts = .ok ix ∧ d = (walkAt ix ts).finish.value
      ∧ ((∀ x y z, ts = x ++ y :: z → ¬ TypeAt ix x y) → d.kind = .classKind)
      ∧ (∀ a u b, ts = a ++ u :: b → First (TypeAt ix) a u →
          TypeKind.ofWord? u.text = some d.kind)
      ∧ (∀ pre t post, ts = pre ++ t :: post → WritesHeader ix pre t →
          t.text = "\x7b" ∧ ∃ a u c, pre = a ++ [u] ++ c ∧ First (TypeAt ix) a u
            ∧ First (EndAfter ix (a ++ [u])) c t)
      ∧ (∀ pre t post pre' t' post', ts = pre ++ t :: post → ts = pre' ++ t' :: post' →
          WritesHeader ix pre t → WritesHeader ix pre' t' → pre = pre')
      ∧ ∀ pre t post, ts = pre ++ t :: post → (walkAt ix pre).EndsHeader t →
          (walkAt ix ts).draft.header
            = (walkAt ix pre).flush.applyHeader.value.draft.header := by
  obtain ⟨ix, w, hix, hrun, rfl⟩ := Declaration.exists_run_of_ofTokens h
  obtain rfl : w = walkAt ix ts := Walk.eq_steps_of_run hrun
  refine ⟨ix, hix, rfl, fun hnone => ?_, ?_, ?_, ?_, ?_⟩
  · rw [Walk.kind_finish, kind_walkAt_of_none hnone]
    rfl
  · rintro a u b rfl hfirst
    obtain ⟨k, hk⟩ := TypeKind.exists_ofWord? hfirst.here.word
    rw [Walk.kind_finish, hfirst.kind_walkAt, hk]
    rfl
  · rintro pre t post rfl hwrites
    obtain ⟨htext, a, u, c, hsplit, hfirst, hend⟩ := hwrites.place
    have hends : (walkAt ix pre).EndsStatement t := by
      rw [hsplit]
      exact hend.here
    -- a token that ends a statement and is taken is a semicolon or a brace
    exact ⟨(hends.text (Walk.refusal?_of_run hrun)).resolve_left htext, a, u, c,
      hsplit, hfirst, hend⟩
  · intro pre t post pre' t' post' hts hts' hwrites hwrites'
    exact hwrites.unique hwrites' (hts.symm.trans hts')
  · rintro pre t post rfl hheader
    exact hheader.header_walkAt post

/-- An enumeration with a class after its header. -/
def nestedClass : List Token :=
  [Token.lineNumber 1, ⟨.keyword, "enum", 1⟩, ⟨.symbol, "E", 1⟩,
    ⟨.statementEnd, "\x7b", 1⟩, ⟨.keyword, "class", 1⟩, ⟨.symbol, "B", 1⟩,
    ⟨.statementEnd, "\x7b", 1⟩]

/-- The brace after the name of the class is not the one that counts. -/
theorem ofTokens_header_once_nested :
    ∃ d ix, (Declaration.ofTokens nestedClass).value = .ok d
      ∧ LineIndex.ofTokens nestedClass = .ok ix
      ∧ d.name = "E" ∧ d.kind = .enumKind
      ∧ ¬ WritesHeader ix nestedClass.dropLast ⟨.statementEnd, "\x7b", 1⟩ := by
  have hname : (Declaration.ofTokens nestedClass).value.toOption.map Declaration.name
      = some "E" := by decide +kernel
  obtain ⟨d, hd⟩ : ∃ d, (Declaration.ofTokens nestedClass).value = .ok d := by
    cases h : (Declaration.ofTokens nestedClass).value with
    | ok d => exact ⟨d, rfl⟩
    | error f =>
        rw [h] at hname
        cases hname
  obtain ⟨ix, hix, -, -, hkind, -, honce, -⟩ := ofTokens_header_once hd
  rw [hd] at hname
  have hlines : ix = [] := by
    have hnone : LineIndex.ofTokens nestedClass = .ok [] := by decide +kernel
    exact Except.ok.inj (hix.symm.trans hnone)
  subst hlines
  refine ⟨d, [], hd, hix, Option.some.inj hname, ?_, fun hsecond => ?_⟩
  · have hfirst : First (TypeAt []) [Token.lineNumber 1] ⟨.keyword, "enum", 1⟩ := by
      refine ⟨⟨by decide +kernel, rfl, rfl⟩, ?_⟩
      intro x y z hsplit hbegins
      have hy : y ∈ [Token.lineNumber 1] := by rw [hsplit]; simp
      rw [List.mem_singleton.mp hy] at hbegins
      cases hbegins.keyword
    exact (Option.some.inj (hkind _ _ _ rfl hfirst)).symm
  · have hwrites : WritesHeader [] (nestedClass.take 3) ⟨.statementEnd, "\x7b", 1⟩ := by
      unfold WritesHeader
      decide +kernel
    have hsame : nestedClass.take 3 = nestedClass.dropLast :=
      honce _ _ _ _ _ _ rfl rfl hwrites hsecond
    exact absurd hsame (by decide)

end JavaOutline
