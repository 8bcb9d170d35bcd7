import JavaOutline.Proofs.HeaderOnce
import JavaOutline.Proofs.QuotedLines

/-! # Which token lists have no declaration

    Token lists need not come from a source, and some have no declaration.  There are
    two reasons.  A line number may be no integer; this is found before the walk
    begins, so nothing is reported.  Or a statement may end, in ordinary code, in
    neither a semicolon nor a brace; the walk stops at the first such token.

      * Whether a token is in ordinary code is read off the tokens before it
        (`Context.after`).
      * `Walk.run_of_taken` and `Walk.run_of_refused` say how far a walk gets.
      * The log of a walk that stops is that of the walk over the tokens before.  The
        line texts that it quotes are those of the whole list. -/

namespace JavaOutline

open Text

/-! ## Tokens that are refused -/

/-- The token is a line number that is no integer. -/
structure Token.IsBadLine (t : Token) : Prop where
  kind : t.kind = .lineNumber
  text : integer? t.text = none

/-- After the tokens `pre` a statement ends in ordinary code, in neither a semicolon
    nor a brace. -/
structure BadEnd (pre : List Token) (t : Token) : Prop where
  kind : t.kind = .statementEnd
  semicolon : t.text ≠ ";"
  brace : t.text ≠ "\x7b"
  code : (Context.after pre).readsCode = true

instance (pre : List Token) (t : Token) : Decidable (BadEnd pre t) :=
  decidable_of_iff (t.kind = .statementEnd ∧ t.text ≠ ";" ∧ t.text ≠ "\x7b"
      ∧ (Context.after pre).readsCode = true)
    ⟨fun h => ⟨h.1, h.2.1, h.2.2.1, h.2.2.2⟩,
      fun h => ⟨h.kind, h.semicolon, h.brace, h.code⟩⟩

theorem readsCode_walkAt (ix : LineIndex) (ts : List Token) :
    (walkAt ix ts).readsCode = (Context.after ts).readsCode :=
  congrArg Context.readsCode (Walk.context_steps { cursor := { lines := ix } } ts)

theorem BadEnd.refusal? {pre : List Token} {t : Token} (h : BadEnd pre t)
    (ix : LineIndex) :
    (walkAt ix pre).refusal? t = some (.statementEnd t.text t.line) := by
  have hcode : (walkAt ix pre).readsCode = true := (readsCode_walkAt ix pre).trans h.code
  rw [Walk.refusal?, h.kind]
  simp [hcode, h.semicolon, h.brace]

/-- No other token is refused. -/
theorem refusal?_eq_none {pre : List Token} {t : Token} (hline : ¬ t.IsBadLine)
    (hend : ¬ BadEnd pre t) (ix : LineIndex) : (walkAt ix pre).refusal? t = none := by
  rw [Walk.refusal?]
  cases hk : t.kind with
  | lineNumber =>
      cases hi : integer? t.text with
      | none => exact absurd ⟨hk, hi⟩ hline
      | some m => rfl
  | statementEnd =>
      refine if_neg fun hbad => hend ?_
      simp only [Bool.and_eq_true, bne_iff_ne, ne_eq] at hbad
      obtain ⟨⟨hcode, hsemicolon⟩, hbrace⟩ := hbad
      exact ⟨hk, hsemicolon, hbrace, (readsCode_walkAt ix pre).symm.trans hcode⟩
  | _ => rfl

/-- If a property holds somewhere in a list, there is a first place. -/
theorem First.exists_of {Q : List Token → Token → Prop} {ts : List Token}
    (h : ∃ a u b, ts = a ++ u :: b ∧ Q a u) :
    ∃ a u b, ts = a ++ u :: b ∧ First Q a u := by
  induction ts using List.reverseRecOn with
  | nil =>
      obtain ⟨a, u, b, hnil, -⟩ := h
      simp at hnil
  | append_singleton ts t ih =>
      by_cases hts : ∃ a u b, ts = a ++ u :: b ∧ Q a u
      · obtain ⟨a, u, b, rfl, hfirst⟩ := ih hts
        exact ⟨a, u, b ++ [t], by simp, hfirst⟩
      · have hnone : ∀ x y z, ts = x ++ y :: z → ¬ Q x y := fun x y z hsplit hq =>
          hts ⟨x, y, z, hsplit, hq⟩
        refine ⟨ts, t, [], rfl, ?_, hnone⟩
        by_contra ht
        obtain ⟨a, u, b, hsplit, hq⟩ := h
        exact forall_snoc hnone ht a u b hsplit hq

/-! ## How far a walk gets -/

namespace Walk

variable {ix : LineIndex} {pre post : List Token} {t : Token}

/-- A walk that is refused nothing goes through. -/
theorem run_of_taken {ts : List Token}
    (h : ∀ x y z, ts = x ++ y :: z → (walkAt ix x).refusal? y = none) :
    (run { cursor := { lines := ix } } ts).value = .ok (walkAt ix ts) := by
  induction ts using List.reverseRecOn with
  | nil => rfl
  | append_singleton ts t ih =>
      have hts := ih fun x y z hsplit => h x y (z ++ [t]) (by simp [hsplit])
      rw [run_append, Logged.value_bind, hts, walkAt_snoc]
      exact run_cons (h ts t [] rfl) []

/-- A walk stops at a token that it is refused. -/
theorem run_of_refused {f : Failure}
    (hpre : (run { cursor := { lines := ix } } pre).value = .ok (walkAt ix pre))
    (ht : (walkAt ix pre).refusal? t = some f) (post : List Token) :
    run { cursor := { lines := ix } } (pre ++ t :: post)
      = ⟨.error f, (run { cursor := { lines := ix } } pre).log⟩ := by
  have hstop : (walkAt ix pre).run (t :: post) = pure (.error f) := by
    rw [run, ht]
  rw [run_append]
  apply Logged.ext
  · rw [Logged.value_bind, hpre]
    show ((walkAt ix pre).run (t :: post)).value = _
    rw [hstop]
    rfl
  · rw [Logged.log_bind, hpre]
    show _ ++ ((walkAt ix pre).run (t :: post)).log = _
    rw [hstop, Logged.log_pure, List.append_nil]

/-- The tokens that keep track of lines report nothing. -/
theorem log_run_of_isLine (w : Walk) {ts : List Token}
    (h : ∀ t ∈ ts, t.kind.isLine = true) : (w.run ts).log = [] := by
  induction ts generalizing w with
  | nil => rfl
  | cons t ts ih =>
      have hstep : (w.step t).log = [] := by
        have hline := h t (by simp)
        rw [step_of_isLine hline, plainStep]
        cases hk : t.kind with
        | lineNumber | sign => rfl
        | _ =>
            rw [hk] at hline
            cases hline
      rw [run]
      cases w.refusal? t with
      | some f => rfl
      | none =>
          show (w.step t).log ++ ((w.step t).value.run ts).log = []
          rw [hstep, ih _ fun u hu => h u (List.mem_cons_of_mem t hu)]
          rfl

end Walk

/-! ## The texts of lines -/

namespace LineIndex

/-- Without such a line number the texts of all lines are found. -/
theorem exists_gather {ts : List Token} (h : ∀ t ∈ ts, ¬ t.IsBadLine) (n : Int)
    (ix : LineIndex) : ∃ jx, gather n ix ts = .ok jx := by
  induction ts generalizing n ix with
  | nil => exact ⟨ix, rfl⟩
  | cons t ts ih =>
      have hrest := ih fun x hx => h x (List.mem_cons_of_mem t hx)
      rw [gather]
      cases hk : t.kind with
      | lineNumber =>
          cases hi : integer? t.text with
          | none => exact absurd ⟨hk, hi⟩ (h t List.mem_cons_self)
          | some m => exact hrest m ix
      | sign => exact hrest n _
      | _ => exact hrest n ix

/-- The first line number that is no integer is found at once. -/
theorem gather_badLine {a : List Token} {u : Token} (ha : ∀ t ∈ a, ¬ t.IsBadLine)
    (hu : u.IsBadLine) (b : List Token) (n : Int) (ix : LineIndex) :
    gather n ix (a ++ u :: b) = .error u.text := by
  obtain ⟨jx, hjx⟩ := exists_gather ha n ix
  obtain ⟨m, hrest⟩ := gather_append hjx
  rw [hrest, gather, hu.kind]
  simp only [hu.text]

/-- Only the tokens that keep track of lines are looked at. -/
theorem gather_filter (n : Int) (ix : LineIndex) (ts : List Token) :
    gather n ix ts = gather n ix (ts.filter fun t => t.kind.isLine) := by
  induction ts generalizing n ix with
  | nil => rfl
  | cons t ts ih =>
      rw [List.filter_cons]
      cases hline : t.kind.isLine with
      | false =>
          rw [if_neg Bool.false_ne_true, ← ih]
          exact gather_token n ix hline ts
      | true =>
          rw [if_pos rfl, gather, gather]
          cases hk : t.kind with
          | lineNumber =>
              dsimp only
              cases integer? t.text with
              | none => rfl
              | some m => exact ih m ix
          | sign => exact ih n _
          | _ => exact ih n ix

/-- Without the text of a line nothing is added. -/
theorem gather_of_no_sign {ts : List Token} (h : ∀ t ∈ ts, t.kind ≠ .sign) {n : Int}
    {ix jx : LineIndex} (hix : gather n ix ts = .ok jx) : jx = ix := by
  induction ts generalizing n with
  | nil => exact (Except.ok.inj hix).symm
  | cons t ts ih =>
      have hrest : ∀ {m}, gather m ix ts = .ok jx → jx = ix :=
        ih fun x hx => h x (List.mem_cons_of_mem t hx)
      rw [gather] at hix
      cases hk : t.kind with
      | lineNumber =>
          rw [hk] at hix
          cases hi : integer? t.text with
          | none =>
              simp only [hi] at hix
              cases hix
          | some m =>
              simp only [hi] at hix
              exact hrest hix
      | sign => exact absurd hk (h t List.mem_cons_self)
      | _ =>
          rw [hk] at hix
          exact hrest hix

end LineIndex

/-! ## Whole token lists -/

/-- The walk over a token list, before it is made a declaration. -/
def Walk.ofTokens (ts : List Token) : Logged (Except Failure Walk) :=
  match LineIndex.ofTokens ts with
  | .error text => pure (.error (.lineNumber text))
  | .ok ix => run { cursor := { lines := ix } } ts

/-- A declaration is made when the walk is over. -/
theorem Declaration.ofTokens_eq_conclude (ts : List Token) :
    ofTokens ts = Walk.ofTokens ts >>= Walk.conclude := by
  cases hix : LineIndex.ofTokens ts with
  | error text =>
      rw [ofTokens, Walk.ofTokens, hix]
      rfl
  | ok ix => rw [ofTokens_eq_run hix, Walk.ofTokens, hix]

theorem Walk.ofTokens_of_ok {ts : List Token} {ix : LineIndex}
    (h : LineIndex.ofTokens ts = .ok ix) :
    ofTokens ts = run { cursor := { lines := ix } } ts := by
  rw [ofTokens, h]

/-- A walk that stops has no declaration, and nothing more is reported. -/
theorem Declaration.ofTokens_of_stop {ts : List Token} {f : Failure}
    {log : List Event} (h : Walk.ofTokens ts = ⟨.error f, log⟩) :
    ofTokens ts = ⟨.error f, log⟩ := by
  rw [ofTokens_eq_conclude, h]
  exact Logged.ext rfl (List.append_nil log)

/-- What is known of the tokens `pre`, `t` and `post` if a walk over them stops at
    `t`. -/
structure Stops (pre : List Token) (t : Token) (post : List Token) : Prop where
  failure : (Declaration.ofTokens (pre ++ t :: post)).value
    = .error (.statementEnd t.text t.line)
  /-- The tokens before it are taken. -/
  before : ∃ w, (Walk.ofTokens pre).value = .ok w
  /-- The reports are those about the tokens before it, followed by the entries that
      give the numbers and the texts of the lines that are left. -/
  log : (Declaration.ofTokens (pre ++ t :: post)).log
    = (Walk.ofTokens (pre ++ post.filter fun u => u.kind.isLine)).log
  /-- They are those about the tokens before it alone, but for quotes. -/
  unquoted : (Declaration.ofTokens (pre ++ t :: post)).log.map Event.unquoted
    = (Walk.ofTokens pre).log.map Event.unquoted
  /-- If no line text follows, the quotes are the same too. -/
  textless : (∀ u ∈ post, u.kind ≠ .sign) →
    (Declaration.ofTokens (pre ++ t :: post)).log = (Walk.ofTokens pre).log

theorem First.stops {pre post : List Token} {t : Token}
    (hlines : ∀ u ∈ pre ++ t :: post, ¬ u.IsBadLine) (h : First BadEnd pre t) :
    Stops pre t post := by
  have hbefore : ∀ u ∈ pre, ¬ u.IsBadLine := fun u hu => hlines u (by simp [hu])
  obtain ⟨ix, hix⟩ := LineIndex.exists_gather hlines 1 []
  obtain ⟨jx, hjx⟩ := LineIndex.exists_gather hbefore 1 []
  have htaken : ∀ kx, (Walk.run { cursor := { lines := kx } } pre).value
      = .ok (walkAt kx pre) := by
    intro kx
    refine Walk.run_of_taken fun x y z hsplit => ?_
    exact refusal?_eq_none (hbefore y (by simp [hsplit])) (h.earlier x y z hsplit) kx
  have hpre : Walk.ofTokens pre = Walk.run { cursor := { lines := jx } } pre :=
    Walk.ofTokens_of_ok hjx
  have hstop : Declaration.ofTokens (pre ++ t :: post)
      = ⟨.error (.statementEnd t.text t.line),
          (Walk.run { cursor := { lines := ix } } pre).log⟩ := by
    apply Declaration.ofTokens_of_stop
    rw [Walk.ofTokens_of_ok hix]
    exact Walk.run_of_refused (htaken ix) (h.here.refusal? ix) post
  have hline : t.kind.isLine = false := by rw [h.here.kind]; rfl
  refine ⟨by rw [hstop], ⟨_, by rw [hpre, htaken]⟩, ?_, ?_, ?_⟩
  · have hsame : LineIndex.ofTokens (pre ++ post.filter fun u => u.kind.isLine) = .ok ix := by
      rw [← hix]
      refine (LineIndex.gather_congr (fun n kx => ?_) 1 [] pre).symm
      rw [LineIndex.gather_token n kx hline, LineIndex.gather_filter]
    rw [hstop, Walk.ofTokens_of_ok hsame, Walk.run_append, Logged.log_bind, htaken ix]
    show _ = _ ++ ((walkAt ix pre).run _).log
    rw [Walk.log_run_of_isLine _ fun u hu => (List.mem_filter.mp hu).2, List.append_nil]
  · rw [hstop, hpre]
    exact Walk.log_run_lines ix jx pre
  · intro hsign
    obtain ⟨m, hm⟩ := LineIndex.gather_append hjx
    have hrest : LineIndex.gather m jx (t :: post) = .ok ix := (hm _).symm.trans hix
    have hnone : ∀ u ∈ t :: post, u.kind ≠ .sign := by
      refine List.forall_mem_cons.mpr ⟨?_, hsign⟩
      rw [h.here.kind]
      decide
    rw [hstop, hpre, LineIndex.gather_of_no_sign hnone hrest]

/-- A line number that is no integer is found before anything is reported. -/
theorem Declaration.ofTokens_of_badLine {ts : List Token} (h : ∃ t ∈ ts, t.IsBadLine) :
    ∃ text, ofTokens ts = ⟨.error (.lineNumber text), []⟩ := by
  obtain ⟨t, ht, hbad⟩ := h
  obtain ⟨x, z, rfl⟩ := List.append_of_mem ht
  obtain ⟨a, u, b, hsplit, hfirst⟩ := First.exists_of (Q := fun _ t => t.IsBadLine)
    ⟨x, t, z, rfl, hbad⟩
  have hbefore : ∀ v ∈ a, ¬ v.IsBadLine := by
    intro v hv
    obtain ⟨p, q, rfl⟩ := List.append_of_mem hv
    exact hfirst.earlier p v q rfl
  refine ⟨u.text, ?_⟩
  rw [hsplit, ofTokens, LineIndex.ofTokens, LineIndex.gather_badLine hbefore hfirst.here]
  rfl

/-- Where nothing is refused there is a declaration. -/
theorem Declaration.exists_ofTokens {ts : List Token} (hlines : ∀ t ∈ ts, ¬ t.IsBadLine)
    (hends : ¬ ∃ pre t post, ts = pre ++ t :: post ∧ BadEnd pre t) :
    ∃ d, (ofTokens ts).value = .ok d := by
  obtain ⟨ix, hix⟩ := LineIndex.exists_gather hlines 1 []
  have hrun : (Walk.run { cursor := { lines := ix } } ts).value = .ok (walkAt ix ts) := by
    refine Walk.run_of_taken fun x y z hsplit => ?_
    exact refusal?_eq_none (hlines y (by simp [hsplit]))
      (fun h => hends ⟨x, y, z, hsplit, h⟩) ix
  refine ⟨(walkAt ix ts).finish.value, ?_⟩
  rw [ofTokens_eq_run hix, Logged.value_bind, hrun]
  rfl

/-- **A TOKEN LIST FAILS EXACTLY WHEN IT SHOULD.**  It fails for a line number, and
    reports nothing, if and only if some line number is no integer.  Of all other
    lists, those fail in which a statement ends in ordinary code in neither a semicolon
    nor a brace.  The failure names the first such token and its line, and the reports
    are those about the tokens before it, but for the line texts they quote: these are
    looked up in the whole list.  A list without such a token has a declaration. -/
theorem ofTokens_fails_exactly (ts : List Token) :
    ((∃ text, (Declaration.ofTokens ts).value = .error (.lineNumber text))
        ↔ ∃ t ∈ ts, t.IsBadLine)
      ∧ (∀ text, (Declaration.ofTokens ts).value = .error (.lineNumber text) →
          (Declaration.ofTokens ts).log = [])
      ∧ ((∀ t ∈ ts, ¬ t.IsBadLine) →
          ((∃ text line, (Declaration.ofTokens ts).value = .error (.statementEnd text line))
            ↔ ∃ pre t post, ts = pre ++ t :: post ∧ BadEnd pre t)
          ∧ (∀ pre t post, ts = pre ++ t :: post → First BadEnd pre t → Stops pre t post)
          ∧ ((¬ ∃ pre t post, ts = pre ++ t :: post ∧ BadEnd pre t) →
              ∃ d, (Declaration.ofTokens ts).value = .ok d)) := by
  have hstops : (∀ t ∈ ts, ¬ t.IsBadLine) → ∀ pre t post, ts = pre ++ t :: post →
      First BadEnd pre t → Stops pre t post := by
    rintro hlines pre t post rfl hfirst
    exact hfirst.stops hlines
  have hline : ∀ text, (Declaration.ofTokens ts).value = .error (.lineNumber text) →
      ∃ t ∈ ts, t.IsBadLine := by
    intro text hfails
    by_contra hnone
    have hlines : ∀ t ∈ ts, ¬ t.IsBadLine := fun t ht hbad => hnone ⟨t, ht, hbad⟩
    by_cases hends : ∃ pre t post, ts = pre ++ t :: post ∧ BadEnd pre t
    · obtain ⟨pre, t, post, rfl, hfirst⟩ := First.exists_of hends
      cases hfails.symm.trans (hfirst.stops hlines).failure
    · obtain ⟨d, hd⟩ := Declaration.exists_ofTokens hlines hends
      cases hfails.symm.trans hd
  refine ⟨⟨?_, fun hbad => ?_⟩, ?_, ?_⟩
  · rintro ⟨text, hfails⟩
    exact hline text hfails
  · obtain ⟨text, hfails⟩ := Declaration.ofTokens_of_badLine hbad
    exact ⟨text, by rw [hfails]⟩
  · intro text hfails
    obtain ⟨text', hsilent⟩ := Declaration.ofTokens_of_badLine (hline text hfails)
    rw [hsilent]
  · intro hlines
    refine ⟨⟨?_, ?_⟩, hstops hlines, Declaration.exists_ofTokens hlines⟩
    · rintro ⟨text, line, hfails⟩
      by_contra hends
      obtain ⟨d, hd⟩ := Declaration.exists_ofTokens hlines hends
      cases hfails.symm.trans hd
    · intro hends
      obtain ⟨pre, t, post, hsplit, hfirst⟩ := First.exists_of hends
      rw [hsplit]
      exact ⟨t.text, t.line, (hstops hlines pre t post hsplit hfirst).failure⟩

/-- An import without a name. -/
def unnamedImport : List Token := [⟨.keyword, "import", 1⟩, ⟨.statementEnd, ";", 1⟩]

/-- Among the arguments of an annotation the end of a statement is not looked at;
    after them it is. -/
theorem ofTokens_fails_exactly_annotated :
    let pre : List Token := [⟨.symbol, "@A", 1⟩, ⟨.paramStart, "(", 1⟩,
      ⟨.statementEnd, "?", 1⟩, ⟨.paramEnd, ")", 1⟩] ++ unnamedImport
    let t : Token := ⟨.statementEnd, "?", 2⟩
    let post : List Token := [⟨.sign, "import;", 2⟩]
    (∀ u ∈ pre ++ t :: post, ¬ u.IsBadLine) ∧ First BadEnd pre t ∧ Stops pre t post := by
  intro pre t post
  have hlines : ∀ u ∈ pre ++ t :: post, ¬ u.IsBadLine := by
    intro u hu hbad
    have hkinds : ∀ u ∈ pre ++ t :: post, u.kind ≠ .lineNumber := by decide
    exact hkinds u hu hbad.kind
  have hfirst : First BadEnd pre t := by
    refine ⟨by decide +kernel, fun x y z hsplit hbad => ?_⟩
    have hall : ∀ i < 6, ∀ u ∈ pre[i]?, ¬ BadEnd (pre.take i) u := by decide +kernel
    have hx : x = pre.take x.length := by rw [hsplit, List.take_left]
    have hy : y ∈ pre[x.length]? := by rw [hsplit]; simp
    have hlength : x.length < 6 := by
      have hlength : 6 = (x ++ y :: z).length := congrArg List.length hsplit
      rw [List.length_append, List.length_cons] at hlength
      omega
    exact hall x.length hlength y hy (hx ▸ hbad)
  exact ⟨hlines, hfirst, ((ofTokens_fails_exactly (pre ++ t :: post)).2.2 hlines).2.1
    pre t post rfl hfirst⟩

/-- The text of a line may be known only from a token after the one that is refused:
    the report quotes it, and would not if the tokens before were all. -/
theorem ofTokens_log_ne_before :
    let t : Token := ⟨.statementEnd, "?", 1⟩
    let post : List Token := [⟨.sign, "import;", 1⟩]
    First BadEnd unnamedImport t
      ∧ Declaration.ofTokens (unnamedImport ++ t :: post)
        = ⟨.error (.statementEnd "?" 1), [.unnamedFileStatement 1 "import;"]⟩
      ∧ (Walk.ofTokens unnamedImport).log = [.unnamedFileStatement 1 ""] := by
  intro t post
  refine ⟨⟨by decide +kernel, fun x y z hsplit hbad => ?_⟩, by decide +kernel, by decide +kernel⟩
  have hy : y ∈ unnamedImport := by rw [hsplit]; simp
  have hnone : ∀ u ∈ unnamedImport, u.kind = .statementEnd → u.text = ";" := by decide
  exact hbad.semicolon (hnone y hy hbad.kind)

end JavaOutline
