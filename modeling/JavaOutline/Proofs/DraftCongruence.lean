import JavaOutline.Proofs.Moves

/-! # Walks with related drafts

    A walk looks at its draft only for the kind of the type and for the number of
    constants; all else it only adds to.  So let two walks differ in their drafts
    alone, and let the drafts be related in a way that is kept by everything a
    walk does to a draft (`Draft.Congruence`).  Then the walks stay related from
    token to token (`Congruence.bisimulation`), and the drafts at the end of the
    file are related (`Congruence.finishConstants`). -/

namespace JavaOutline

/-- The relation is kept by all that a walk does to a draft, and related drafts
    look the same to a walk. -/
structure Draft.Congruence (R : Draft → Draft → Prop) : Prop where
  sameKind {d e : Draft} : R d e → e.kind = d.kind
  sameConstants {d e : Draft} : R d e → e.constants = d.constants
  withKind {d e : Draft} (kind : Option TypeKind) :
    R d e → R { d with kind } { e with kind }
  withLicense {d e : Draft} (license : String) :
    R d e → R { d with license } { e with license }
  withPackage {d e : Draft} (packageName : String) :
    R d e → R { d with packageName } { e with packageName }
  withDependencies {d e : Draft} (names : List String) :
    R d e → R { d with dependencies := d.dependencies ++ names }
      { e with dependencies := e.dependencies ++ names }
  withFields {d e : Draft} (fs : List Field) :
    R d e → R { d with fields := d.fields ++ fs } { e with fields := e.fields ++ fs }
  withMethods {d e : Draft} (ms : List Method) :
    R d e → R { d with methods := d.methods ++ ms }
      { e with methods := e.methods ++ ms }
  withConstants {d e : Draft} (cs : List EnumConstant) :
    R d e → R { d with constants := d.constants ++ cs }
      { e with constants := e.constants ++ cs }
  applyHeader {d e : Draft} (ps : List Part) (doc : Doc) (signature : String) :
    R d e → R (d.applyHeader ps doc signature).value
      (e.applyHeader ps doc signature).value

namespace Walk

/-- The walk with another draft. -/
def withDraft (e : Draft) (w : Walk) : Walk := { w with draft := e }

/-- The walk `v` is the walk `w` but for its draft, which is related to that of
    `w`. -/
def Related (R : Draft → Draft → Prop) (w v : Walk) : Prop :=
  ∃ e, v = w.withDraft e ∧ R w.draft e

theorem Related.flush {R : Draft → Draft → Prop} {w v : Walk} (h : w.Related R v) :
    w.flush.Related R v.flush := by
  obtain ⟨e, rfl, h⟩ := h
  exact ⟨e, rfl, h⟩

end Walk

namespace Draft.Congruence

open Walk

variable {R : Draft → Draft → Prop} {w v : Walk} (hR : Draft.Congruence R)

include hR

/-- A comment that is empty is no licence. -/
theorem licensed {d e : Draft} (h : R d e) (comment : String) :
    R { d with license := if comment ≠ "" then comment else d.license }
      { e with license := if comment ≠ "" then comment else e.license } := by
  by_cases hcomment : comment ≠ ""
  · simp only [if_pos hcomment]
    exact hR.withLicense comment h
  · simp only [if_neg hcomment]
    exact h

/-- Whatever a statement is read as, the drafts stay related. -/
theorem readAs (h : w.Related R v) (r : Role) :
    (w.readAs r).value.Related R (v.readAs r).value := by
  obtain ⟨e, rfl, h⟩ := h
  cases r with
  | nothing | unnamed | loose => exact ⟨e, rfl, h⟩
  | field => exact ⟨_, rfl, hR.withFields _ h⟩
  | method => exact ⟨_, rfl, hR.withMethods _ h⟩
  | header => exact ⟨_, rfl, hR.applyHeader _ _ _ h⟩
  | dependency name => exact ⟨_, rfl, hR.withDependencies _ h⟩
  | package name => exact ⟨_, rfl, hR.withPackage _ h⟩
  | constants =>
      -- both number the new constants from the same one
      have hlength : e.constants.length = w.draft.constants.length :=
        congrArg List.length (hR.sameConstants h)
      refine ⟨_, rfl, ?_⟩
      show R _ { e with constants := e.constants
        ++ (EnumConstant.ofParts e.constants.length w.statement.parts).value }
      rw [hlength]
      exact hR.withConstants _ h

theorem close (h : w.Related R v) (c : Closing) :
    (w.close c).value.Related R (v.close c).value := by
  obtain ⟨e', hread, h'⟩ := hR.readAs h c.role
  obtain ⟨e, rfl, -⟩ := h
  refine ⟨e', ?_, h'⟩
  rw [Walk.close, hread]
  rfl

/-- **Walks with related drafts stay so.** -/
theorem bisimulation : Bisimulation (Related R) where
  view := by
    rintro w v ⟨e, rfl, h⟩
    exact congrArg (fun kind => { w.view with kind }) (hR.sameKind h)
  take := by
    intro w v m h
    cases m with
    | ends c =>
        obtain ⟨e, hclose, h⟩ := hR.close h.flush c
        exact ⟨e, congrArg nextStatement hclose, h⟩
    | license c =>
        obtain ⟨e, rfl, h⟩ := h
        exact ⟨_, rfl, hR.licensed h w.headerComment⟩
    | type word =>
        obtain ⟨e, rfl, h⟩ := h
        exact ⟨_, rfl, hR.withKind _ h⟩
    | aside span a r events =>
        obtain ⟨e, rfl, h⟩ := h
        cases r <;> exact ⟨e, rfl, h⟩
    | line | gather | closeDoc =>
        obtain ⟨e, rfl, h⟩ := h
        exact ⟨e, rfl, h⟩

/-- The constants that the end of the file adds are the same for both. -/
theorem finishConstants (h : w.Related R v) :
    w.finishConstants.value.Related R v.finishConstants.value := by
  have hview := hR.bisimulation.view h
  have hawaits : v.awaitsConstants = w.awaitsConstants :=
    congrArg View.awaitsConstants hview
  have hspan : v.span = w.span := congrArg View.span hview
  rw [finishConstants_eq, finishConstants_eq, hawaits, hview, hspan]
  split
  · split
    · exact hR.close h.flush _
    · exact hR.close h _
  · exact h

end Draft.Congruence

end JavaOutline
