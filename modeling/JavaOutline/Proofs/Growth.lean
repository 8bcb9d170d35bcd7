import JavaOutline.Proofs.HiddenBodies
import JavaOutline.Proofs.Signatures

/-! # What a longer source keeps

    Once the header of the file's type is complete, a walk only adds: its draft
    gets more fields, methods and constants, and possibly another licence, but
    loses nothing and keeps the rest (`Walk.steps_adds`).  The lines of a source
    keep their texts when lines follow it, so the walk over a longer source is,
    where the shorter one ends, the walk over the shorter one
    (`outline_continued`). -/

namespace JavaOutline

/-! ## Growing drafts -/

/-- The second draft has all that the first one has, and besides it fields,
    methods and constants after its own, and a licence of its own. -/
def Draft.Grows (d e : Draft) : Prop :=
  ∃ fs ms cs license, e
    = { d with
        fields := d.fields ++ fs
        methods := d.methods ++ ms
        constants := d.constants ++ cs
        license }

namespace Draft.Grows

section

variable (d : Draft)

theorem withLicense (license : String) : d.Grows { d with license } :=
  ⟨[], [], [], license, by simp only [List.append_nil]⟩

theorem refl : d.Grows d := withLicense d d.license

theorem withFields (fs : List Field) :
    d.Grows { d with fields := d.fields ++ fs } :=
  ⟨fs, [], [], d.license, by simp only [List.append_nil]⟩

theorem withMethods (ms : List Method) :
    d.Grows { d with methods := d.methods ++ ms } :=
  ⟨[], ms, [], d.license, by simp only [List.append_nil]⟩

theorem withConstants (cs : List EnumConstant) :
    d.Grows { d with constants := d.constants ++ cs } :=
  ⟨[], [], cs, d.license, by simp only [List.append_nil]⟩

end

variable {d e f : Draft}

theorem trans (h1 : d.Grows e) (h2 : e.Grows f) : d.Grows f := by
  obtain ⟨fs, ms, cs, license, rfl⟩ := h1
  obtain ⟨fs', ms', cs', license', rfl⟩ := h2
  exact ⟨fs ++ fs', ms ++ ms', cs ++ cs', license', by
    simp only [List.append_assoc]⟩

theorem kind (h : d.Grows e) : e.kind = d.kind := by
  obtain ⟨fs, ms, cs, license, rfl⟩ := h
  rfl

end Draft.Grows

namespace Walk

/-- The header of the file's type has been read. -/
structure PastHeader (w : Walk) : Prop where
  inType : w.inType = true
  header : w.statement.isHeader = false

/-- The walk `v` has added to what the walk `w` had, and reads no header. -/
structure Adds (w v : Walk) : Prop where
  draft : w.draft.Grows v.draft
  header : v.statement.isHeader = false

variable {w v : Walk}

theorem Adds.pastHeader (h : w.Adds v) (hw : w.PastHeader) : v.PastHeader := by
  refine ⟨?_, h.header⟩
  rw [inType, h.draft.kind]
  exact hw.inType

theorem Adds.trans {u : Walk} (h1 : w.Adds v) (h2 : v.Adds u) : w.Adds u :=
  ⟨h1.draft.trans h2.draft, h2.header⟩

/-- Whatever else changes, the draft does not. -/
theorem PastHeader.same (h : w.PastHeader) (hd : v.draft = w.draft)
    (hs : v.statement.isHeader = w.statement.isHeader) : w.Adds v := by
  refine ⟨?_, hs.trans h.header⟩
  rw [hd]
  exact .refl _

/-- A statement past the header is no header, and names nothing outside the type. -/
theorem PastHeader.readAs (h : w.PastHeader) {text : String} {r : Role}
    (hr : w.view.Admits text r) : w.draft.Grows (w.readAs r).value.draft := by
  cases r with
  | nothing | unnamed | loose => exact .refl _
  | constants => exact .withConstants _ _
  | field => exact .withFields _ _
  | method => exact .withMethods _ _
  | header => exact absurd (h.header.symm.trans hr.1) Bool.false_ne_true
  | dependency | package => exact absurd (hr.symm.trans h.inType) Bool.false_ne_true

/-- **A step past the header only adds.** -/
theorem PastHeader.step (h : w.PastHeader) (t : Token) :
    w.Adds (w.step t).value := by
  obtain ⟨m, hm, hstep⟩ := w.exists_move t
  rw [hstep]
  cases hm with
  | @aside _ _ r => cases r <;> exact h.same rfl rfl
  | line => exact h.same rfl rfl
  | @gather c => exact h.same rfl (w.statement.change_isHeader c)
  | @license c =>
      exact ⟨.withLicense _ _, (w.statement.change_isHeader c).trans h.header⟩
  | type _ _ _ hfresh => exact absurd (hfresh.symm.trans h.inType) Bool.false_ne_true
  | closeDoc =>
      refine ⟨.refl _, ?_⟩
      show (_ && w.statement.isHeader) = false
      rw [h.header, Bool.and_false]
  | ends _ _ hcloses =>
      have hflush : w.flush.PastHeader := ⟨h.inType, h.header⟩
      exact ⟨hflush.readAs hcloses.admits, rfl⟩

theorem PastHeader.steps (h : w.PastHeader) (ts : List Token) :
    w.Adds (w.steps ts) := by
  induction ts generalizing w with
  | nil => exact h.same rfl rfl
  | cons t ts ih =>
      have hstep := h.step t
      exact hstep.trans (ih (hstep.pastHeader h))

/-- The constants that the end of a file adds: those of the statement under
    construction, if constants are still to come. -/
def pendingConstants (w : Walk) : List EnumConstant :=
  if w.awaitsConstants then
    let v := if w.span = .code then w.flush else w
    if v.skips.value then []
    else (EnumConstant.ofParts v.draft.constants.length v.statement.parts).value
  else []

theorem finishConstants_draft (w : Walk) :
    w.finishConstants.value.draft
      = { w.draft with constants := w.draft.constants ++ w.pendingConstants } := by
  have hnil : w.draft = { w.draft with constants := w.draft.constants ++ [] } := by
    rw [List.append_nil]
  have hdraft : (if w.span = .code then w.flush else w).draft = w.draft := by
    split <;> rfl
  rw [finishConstants, pendingConstants]
  split
  · revert hdraft
    dsimp only
    generalize (if w.span = .code then w.flush else w) = v
    intro hdraft
    rw [Logged.value_bind]
    split
    · exact hdraft.trans hnil
    · rw [← hdraft]
      rfl
  · exact hnil

end Walk

/-! ## Lines that follow -/

/-- A token that leads to no line before `k`. -/
def Token.From (k : Nat) (t : Token) : Prop :=
  t.kind = .lineNumber → ∃ m : Nat, k ≤ m ∧ t.text = toString m

theorem Reader.tokens_from (extra : List String) (r : Reader) (cs : List Char) :
    ∀ t ∈ r.tokens extra cs, t.From r.line := by
  refine r.forall_tokens extra ?_ ?_ cs ?_
  · intro n t ht hk
    have hline := ht.inLine.not_line
    rw [hk] at hline
    cases hline
  · intro n l hk
    cases hk
  · intro m hm _ _
    exact ⟨m, Nat.le_of_lt hm, rfl⟩

namespace LineIndex

/-- The line texts of a longer list are gathered after those of the shorter. -/
theorem gather_append {ts : List Token} {n : Int} {ix jx : LineIndex}
    (h : gather n ix ts = .ok jx) :
    ∃ m, ∀ us, gather n ix (ts ++ us) = gather m jx us := by
  induction ts generalizing n ix with
  | nil =>
      obtain rfl : ix = jx := Except.ok.inj h
      exact ⟨n, fun _ => rfl⟩
  | cons t ts ih =>
      rw [gather] at h
      simp only [List.cons_append, gather]
      cases hk : t.kind with
      | lineNumber =>
          rw [hk] at h
          cases hm : Text.integer? t.text with
          | none =>
              simp only [hm] at h
              cases h
          | some m =>
              simp only [hm] at h
              exact ih h
      | _ =>
          rw [hk] at h
          exact ih h

/-- The number of a line that is not refused leads to the line. -/
theorem gather_lineNumber {n : Int} {m : Nat} {us : List Token}
    {ix jx : LineIndex} (h : gather n ix (Token.lineNumber m :: us) = .ok jx) :
    gather m ix us = .ok jx := by
  simp only [gather, Token.lineNumber] at h
  cases hm : Text.integer? (toString m) with
  | none =>
      simp only [hm] at h
      cases h
  | some i =>
      simp only [hm] at h
      rwa [← Text.eq_of_integer?_toString hm]

/-- Later lines do not change the texts of the lines before them. -/
theorem gather_from {us : List Token} {k : Nat} (hus : ∀ t ∈ us, t.From k)
    {n : Int} (hn : k ≤ n) {ix jx : LineIndex} (h : gather n ix us = .ok jx) :
    AgreeOff (fun m => (k : Int) ≤ m) ix jx := by
  induction us generalizing n ix with
  | nil =>
      obtain rfl : ix = jx := Except.ok.inj h
      exact .refl ix
  | cons t us ih =>
      have hrest : ∀ u ∈ us, u.From k := fun u hu => hus u (by simp [hu])
      rw [gather] at h
      cases hk : t.kind with
      | lineNumber =>
          obtain ⟨m, hm, htext⟩ := hus t (by simp) hk
          rw [hk] at h
          cases hi : Text.integer? t.text with
          | none =>
              simp only [hi] at h
              cases h
          | some i =>
              simp only [hi] at h
              rw [htext] at hi
              have hline := Text.eq_of_integer?_toString hi
              exact ih hrest (by omega) h
      | sign =>
          rw [hk] at h
          intro m hm
          rw [← ih hrest hn h m hm, text_cons, if_neg]
          rintro rfl
          exact hm hn
      | _ =>
          rw [hk] at h
          exact ih hrest hn h

end LineIndex

/-- The tokens of a source to which lines are added. -/
theorem tokenize_append_newline (extra : List String) (a b : List Char) :
    tokenize (String.ofList (a ++ '\n' :: b)) extra
      = tokenize (String.ofList a) extra
        ++ Token.lineNumber ((Reader.read extra {} a).1.line + 1)
          :: (Reader.read extra {} a).1.nextLine.tokens extra b := by
  have hread := Reader.read_append_newline extra {} a b
  rw [tokenize_eq_read, tokenize_eq_read, String.toList_ofList,
    String.toList_ofList, Reader.tokens_of_read hread, Reader.lineEnd]
  simp [Reader.tokens]

/-- **Walks go on**: the walk over a source to which lines are added is the one
    over the source, but for the texts of the new lines, and then takes the
    tokens of these lines. -/
theorem outline_continued (settings : Settings) {a b : List Char}
    (hfit : LinesFit (String.ofList (a ++ '\n' :: b))) :
    ∃ ix jx, ∃ w : Walk,
      w = Walk.steps { cursor := { lines := ix } }
        (tokenize (String.ofList a) settings.ignoredKeywords)
      ∧ (outline (String.ofList a) settings).value = .ok w.finish.value
      ∧ (outline (String.ofList (a ++ '\n' :: b)) settings).value
        = .ok ((w.withLines jx).steps (Token.lineNumber
            ((Reader.read settings.ignoredKeywords {} a).1.line + 1)
          :: (Reader.read settings.ignoredKeywords {} a).1.nextLine.tokens
            settings.ignoredKeywords b)).finish.value := by
  let extra := settings.ignoredKeywords
  let r := (Reader.read extra {} a).1
  have hfit' : LinesFit (String.ofList a) := by
    rw [LinesFit, lineCount, String.toList_ofList] at hfit ⊢
    rw [List.count_append] at hfit
    omega
  have haccept := tokenize_accepted hfit' extra
  obtain ⟨ix, hix⟩ := LineIndex.gather_of_accepted haccept 1 []
  obtain ⟨jx, hjx⟩ := LineIndex.gather_of_accepted
    (tokenize_accepted hfit extra) 1 []
  -- the new lines are all below the old ones
  have hagree : LineIndex.AgreeOff (fun m => ((r.line + 1 : Nat) : Int) ≤ m) ix jx := by
    obtain ⟨m, hm⟩ := LineIndex.gather_append hix
    have htail := hjx
    rw [tokenize_append_newline, hm] at htail
    exact LineIndex.gather_from (r.nextLine.tokens_from extra b) (Int.le_refl _)
      (LineIndex.gather_lineNumber htail)
  have halike : Alike (fun m => ((r.line + 1 : Nat) : Int) ≤ m) 1
      (tokenize (String.ofList a) extra) (tokenize (String.ofList a) extra) := by
    rw [tokenize_eq_read, String.toList_ofList]
    refine .lineNumber 1 (Reader.tokens_alike extra {} a fun m _ hm hle => ?_)
    have hm : m ≤ r.line := hm
    omega
  have hrun := Walk.run_alike (w := { cursor := { lines := ix } }) halike
    (.of_empty rfl rfl rfl rfl) hagree
  have hsteps : (Walk.withLines jx { cursor := { lines := ix } }).steps
        (tokenize (String.ofList a) extra)
      = (Walk.steps { cursor := { lines := ix } }
          (tokenize (String.ofList a) extra)).withLines jx := by
    have hvalue : _ = Except.map (Walk.withLines jx) (Walk.run _ _).value :=
      congrArg Logged.value hrun
    rw [Walk.run_of_accepted haccept, Walk.run_of_accepted haccept] at hvalue
    exact Except.ok.inj hvalue
  refine ⟨ix, jx, _, rfl, outline_of_gather settings hfit' hix, ?_⟩
  rw [outline_of_gather settings hfit hjx, tokenize_append_newline,
    Walk.steps_append, ← hsteps]
  rfl

end JavaOutline
