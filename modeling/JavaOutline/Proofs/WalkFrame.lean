import JavaOutline.Token.Line
import JavaOutline.Walk.Step

/-! # What steps of a walk leave alone

    A header changes only what it can say.  The two tokens of a line are taken in
    the same way everywhere.  A walk that is not refused has taken every step. -/

namespace JavaOutline

/-- Of what is in a draft, a header changes only what it can say. -/
theorem Draft.applyHeader_frame (d : Draft) (ps : List Part) (doc : Doc)
    (signature : String) :
    ∃ name parents interfaces access modifiers,
      (d.applyHeader ps doc signature).value
        = { d with name, parents, interfaces, access, modifiers }.describe
            doc signature := by
  have hfold : ∀ (d : Draft) (slot : HeaderSlot),
      ∃ name parents interfaces access modifiers,
        (Logged.fold headerStep (d, slot) ps).value.1
          = { d with name, parents, interfaces, access, modifiers } := by
    induction ps with
    | nil => exact fun d _ => ⟨_, _, _, _, _, rfl⟩
    | cons p ps ih =>
        intro d slot
        have hstep : ∃ name parents interfaces access modifiers,
            (headerStep (d, slot) p).value.1
              = { d with name, parents, interfaces, access, modifiers } := by
          rw [headerStep]
          cases p.kind with
          | identifier => cases slot <;> exact ⟨_, _, _, _, _, rfl⟩
          | _ => exact ⟨_, _, _, _, _, rfl⟩
        obtain ⟨n, ps', is, a, ms, hd⟩ := hstep
        obtain ⟨n', ps'', is', a', ms', hrest⟩ := ih (headerStep (d, slot) p).value.1
          (headerStep (d, slot) p).value.2
        refine ⟨n', ps'', is', a', ms', ?_⟩
        rw [Logged.fold, Logged.value_bind, hrest, hd]
  obtain ⟨n, ps', is, a, ms, hd⟩ := hfold d .free
  exact ⟨n, ps', is, a, ms, by rw [applyHeader, Logged.value_bind, hd]; rfl⟩

namespace Walk

theorem step_lineNumber (w : Walk) (m : Nat) :
    w.step (Token.lineNumber m) = pure (w.lineNumber (toString m)) := by
  rw [step]
  split <;> rfl

theorem step_sign (w : Walk) (m : Nat) (l : List Char) :
    w.step (Token.sign m l) = pure w := by
  rw [step]
  split <;> rfl

/-! ## Whole walks -/

/-- The walk after some tokens. -/
def steps (w : Walk) (ts : List Token) : Walk :=
  ts.foldl (fun v t => (v.step t).value) w

theorem steps_append (w : Walk) (ts us : List Token) :
    w.steps (ts ++ us) = (w.steps ts).steps us :=
  List.foldl_append

/-- A token that is not refused is a step. -/
theorem run_cons {w : Walk} {t : Token} (h : w.refusal? t = none) (ts : List Token) :
    (w.run (t :: ts)).value = ((w.step t).value.run ts).value := by
  rw [run, h]
  rfl

/-- A walk that is not refused has taken every step. -/
theorem eq_steps_of_run {w v : Walk} {ts : List Token}
    (h : (w.run ts).value = .ok v) : v = w.steps ts := by
  induction ts generalizing w with
  | nil => exact (Except.ok.inj h).symm
  | cons t ts ih =>
      rw [run] at h
      cases hr : w.refusal? t with
      | some f =>
          rw [hr] at h
          exact nomatch h
      | none =>
          rw [hr] at h
          exact ih h

end Walk

end JavaOutline
