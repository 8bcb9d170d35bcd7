import JavaOutline.Proofs.Asides

/-! # Reports and line texts

    Three reports quote the text of a line.  A walk looks at the line texts for no
    other report, so the log of a walk that knows no line text is the log of any
    other walk over the same tokens, without the quotes (`Walk.log_run_unsigned`). -/

namespace JavaOutline

/-- A report without the text of the line that it quotes. -/
def Event.unquoted : Event → Event
  | .methodUnnamed line _ => .methodUnnamed line ""
  | .fieldIncomplete line _ => .fieldIncomplete line ""
  | .unnamedFileStatement line _ => .unnamedFileStatement line ""
  | e => e

theorem Event.map_unquoted {events : List Event} (h : events.any quotes = false) :
    events.map unquoted = events := by
  have hsame : ∀ e : Event, e.quotes = false → e.unquoted = e := by
    intro e he
    cases e <;> first | rfl | cases he
  have hmap : events.map unquoted = events.map id := List.map_congr_left fun e he =>
    hsame e (Bool.eq_false_iff.mpr (List.any_eq_false.mp h e he))
  rw [hmap, List.map_id]

/-! ## Readings that quote nothing -/

namespace Logged

variable {α β : Type}

/-- No report on the way quotes a line. -/
def Plain (x : Logged α) : Prop := x.log.map Event.unquoted = x.log

theorem Plain.bind {x : Logged α} {f : α → Logged β} (hx : x.Plain)
    (hf : ∀ a, (f a).Plain) : (x >>= f).Plain := by
  rw [Plain, log_bind, List.map_append, hx, hf]

theorem plain_fold {f : β → α → Logged β} (hf : ∀ b a, (f b a).Plain) (b : β)
    (as : List α) : (fold f b as).Plain := by
  induction as generalizing b with
  | nil => rfl
  | cons a as ih => exact (hf b a).bind fun b' => ih b'

end Logged

theorem MethodReading.plain_step (r : MethodReading) (p : Part) : (r.step p).Plain := by
  rw [step]
  split
  · rw [identifier]
    split
    · rfl
    · rfl
    · rfl
    · split <;> rfl
  · rw [typeName]
    split
    · rfl
    · split <;> rfl
  all_goals rfl

theorem FieldReading.plain_step (r : FieldReading) (p : Part) : (r.step p).Plain := by
  rw [step]
  split <;> rfl

theorem EnumConstant.plain_step (start : Int) (cs : List EnumConstant) (p : Part) :
    (EnumConstant.step start cs p).Plain := by
  rw [step]
  split <;> rfl

theorem DocReading.plain_step (r : DocReading) (w : DocWord) : (r.step w).Plain := by
  cases w with
  | text w => rfl
  | tag t =>
      rw [step]
      split <;> rfl

theorem Doc.plain_ofWords (ws : List DocWord) : (Doc.ofWords ws).Plain :=
  (Logged.plain_fold DocReading.plain_step _ ws).bind fun _ => rfl

/-- What a header reports depends on its parts alone. -/
theorem Draft.log_fold_headerStep (ps : List Part) (d e : Draft) (slot : HeaderSlot) :
    (Logged.fold headerStep (d, slot) ps).log
      = (Logged.fold headerStep (e, slot) ps).log.map Event.unquoted := by
  induction ps generalizing d e slot with
  | nil => rfl
  | cons p ps ih =>
      have hstep : (headerStep (d, slot) p).log
            = (headerStep (e, slot) p).log.map Event.unquoted
          ∧ (headerStep (d, slot) p).value.2 = (headerStep (e, slot) p).value.2 := by
        rw [headerStep, headerStep]
        cases p.kind with
        | identifier => cases slot <;> exact ⟨rfl, rfl⟩
        | _ => exact ⟨rfl, rfl⟩
      rw [Logged.fold, Logged.fold, Logged.log_bind, Logged.log_bind, List.map_append, hstep.1]
      refine congrArg _ ?_
      rw [← Prod.eta (headerStep (d, slot) p).value, hstep.2]
      exact ih _ _ _

theorem Method.log_ofParts? (ps : List Part) (doc : Doc) (line : Int)
    (signature pendingName : String) :
    (Method.ofParts? ps doc line "" pendingName).log
      = (Method.ofParts? ps doc line signature pendingName).log.map Event.unquoted := by
  have hfold := Logged.plain_fold MethodReading.plain_step {} ps
  rw [Method.ofParts?, Method.ofParts?, Logged.log_bind, Logged.log_bind, List.map_append, hfold]
  refine congrArg _ ?_
  generalize (Logged.fold MethodReading.step {} ps).value = r
  by_cases hname : r.finalName pendingName = "" ∧ ¬ r.isConstructor
  · simp only [if_pos hname]
    rfl
  · simp only [if_neg hname]
    rfl

theorem Field.log_ofParts? (ps : List Part) (line : Int) (signature : String) :
    (Field.ofParts? ps line "").log
      = (Field.ofParts? ps line signature).log.map Event.unquoted := by
  have hfold := Logged.plain_fold FieldReading.plain_step {} ps
  rw [Field.ofParts?, Field.ofParts?, Logged.log_bind, Logged.log_bind, List.map_append, hfold]
  refine congrArg _ ?_
  split <;> rfl

/-! ## Steps -/

namespace Walk

variable (w : Walk)

theorem log_addMethod_unsigned :
    w.unsigned.addMethod.log = w.addMethod.log.map Event.unquoted := by
  rw [addMethod, addMethod, Logged.log_bind, Logged.log_bind, List.map_append]
  exact congrArg (· ++ []) (Method.log_ofParts? _ _ _ _ _)

theorem log_addField_unsigned :
    w.unsigned.addField.log = w.addField.log.map Event.unquoted := by
  rw [addField, addField, Logged.log_bind, Logged.log_bind, List.map_append]
  exact congrArg (· ++ []) (Field.log_ofParts? _ _ _)

theorem log_applyHeader_unsigned :
    w.unsigned.applyHeader.log = w.applyHeader.log.map Event.unquoted := by
  have hfold := Draft.log_fold_headerStep w.statement.parts w.unsigned.draft w.draft .free
  rw [applyHeader, applyHeader, Logged.log_bind, Logged.log_bind, List.map_append]
  refine congrArg (· ++ []) ?_
  rw [Draft.applyHeader, Draft.applyHeader, Logged.log_bind, Logged.log_bind, List.map_append]
  exact congrArg (· ++ []) hfold

theorem log_addConstants_unsigned :
    w.unsigned.addConstants.log = w.addConstants.log.map Event.unquoted := by
  have hplain : w.addConstants.Plain :=
    (Logged.plain_fold (EnumConstant.plain_step _) [] _).bind fun _ => rfl
  exact hplain.symm

theorem log_readAs_unsigned (r : Role) :
    (w.unsigned.readAs r).log = (w.readAs r).log.map Event.unquoted := by
  cases r with
  | constants => exact w.log_addConstants_unsigned
  | field => exact w.log_addField_unsigned
  | method => exact w.log_addMethod_unsigned
  | header => exact w.log_applyHeader_unsigned
  | _ => rfl

theorem log_close_unsigned {c : Closing} (h : c.events.any Event.quotes = false) :
    (w.unsigned.close c).log = (w.close c).log.map Event.unquoted := by
  simp only [close, List.map_append, log_readAs_unsigned, Event.map_unquoted h]

theorem log_take_unsigned {t : Token} {m : Move} (h : w.view.Moves t m) :
    (w.unsigned.take m).log = (w.take m).log.map Event.unquoted := by
  cases h with
  | aside _ _ hsilent => exact (Event.map_unquoted hsilent).symm
  | gather _ hsilent => exact (Event.map_unquoted hsilent).symm
  | line | license | type => rfl
  | closeDoc =>
      have hplain := (Doc.plain_ofWords w.docWords).bind
        (f := fun doc => pure doc) fun _ => rfl
      exact hplain.symm
  | ends _ _ hcloses =>
      simp only [take, Logged.log_bind, Logged.log_pure, List.append_nil]
      exact w.flush.log_close_unsigned hcloses.silent

/-- **A step reports the same without the line texts**, but for the quotes. -/
theorem log_step_unsigned (t : Token) :
    (w.unsigned.step t).log = (w.step t).log.map Event.unquoted := by
  rw [step_eq, step_eq, view_unsigned]
  exact w.log_take_unsigned (w.view.moves t)

/-- So does a whole walk. -/
theorem log_run_unsigned (ts : List Token) :
    (w.unsigned.run ts).log = (w.run ts).log.map Event.unquoted := by
  induction ts generalizing w with
  | nil => rfl
  | cons t ts ih =>
      have hrefusal : w.unsigned.refusal? t = w.refusal? t := rfl
      rw [run, run, hrefusal]
      cases w.refusal? t with
      | some f => rfl
      | none =>
          show (w.unsigned.step t).log ++ ((w.unsigned.step t).value.run ts).log
            = ((w.step t).log ++ ((w.step t).value.run ts).log).map Event.unquoted
          rw [List.map_append, log_step_unsigned, step_unsigned, ih]

/-- Two walks that know different line texts report the same but for the quotes. -/
theorem log_run_lines (ix jx : LineIndex) (ts : List Token) :
    (run { cursor := { lines := ix } } ts).log.map Event.unquoted
      = (run { cursor := { lines := jx } } ts).log.map Event.unquoted := by
  rw [← log_run_unsigned, ← log_run_unsigned]
  rfl

end Walk

end JavaOutline
