import JavaOutline.Proofs.HiddenLines
import JavaOutline.Proofs.Standing

/-! # Declarations without line texts

    A walk looks up the text of a line only to quote it as a signature.  A walk
    that knows no line text therefore makes the same declaration but for the
    signatures: every step commutes with erasing them (`step_unsigned`).  So the
    outline of a source without its signatures is read off a walk that has no
    line texts at all (`outline_unsigned`), and for such a walk the tokens with
    the texts of lines do not count. -/

namespace JavaOutline

/-! ## Erasing signatures -/

def Field.unsigned (f : Field) : Field := { f with signature := "" }

def Method.unsigned (m : Method) : Method := { m with signature := "" }

/-- A draft without the texts of lines. -/
def Draft.unsigned (d : Draft) : Draft := d.erase Field.unsigned Method.unsigned

/-- A declaration without the texts of lines. -/
def Declaration.unsigned (d : Declaration) : Declaration :=
  d.erase Field.unsigned Method.unsigned

theorem Method.ofParts?_unsigned (ps : List Part) (doc : Doc) (line : Int)
    (signature pendingName : String) :
    (Method.ofParts? ps doc line signature pendingName).value.map Method.unsigned
      = (Method.ofParts? ps doc line "" pendingName).value := by
  rw [Method.ofParts?, Method.ofParts?, Logged.value_bind, Logged.value_bind]
  generalize (Logged.fold MethodReading.step {} ps).value = r
  by_cases hname : r.finalName pendingName = "" ∧ ¬ r.isConstructor
  · simp only [if_pos hname]
    rfl
  · simp only [if_neg hname]
    rfl

theorem Field.ofParts?_unsigned (ps : List Part) (line : Int)
    (signature : String) :
    (Field.ofParts? ps line signature).value.map Field.unsigned
      = (Field.ofParts? ps line "").value := by
  rw [Field.ofParts?, Field.ofParts?, Logged.value_bind, Logged.value_bind]
  split <;> rfl

namespace Walk

/-- A walk that knows no line texts and has quoted none. -/
def unsigned (w : Walk) : Walk :=
  { w with draft := w.draft.unsigned, cursor := { w.cursor with lines := [] } }

/-! ## Steps commute with erasing -/

section

variable (w : Walk)

theorem addMethod_unsigned :
    w.unsigned.addMethod.value = w.addMethod.value.unsigned := by
  have hm : w.draft.methods.map Method.unsigned
        ++ (Method.ofParts? w.statement.parts w.statement.doc w.cursor.startLine
            "" w.statement.pendingName).value.toList
      = (w.draft.methods
        ++ (Method.ofParts? w.statement.parts w.statement.doc w.cursor.startLine
            w.cursor.signature w.statement.pendingName).value.toList).map
          Method.unsigned := by
    rw [List.map_append, ← Option.toList_map, Method.ofParts?_unsigned]
  exact congrArg (fun ms => { w.unsigned with draft.methods := ms }) hm

theorem addField_unsigned :
    w.unsigned.addField.value = w.addField.value.unsigned := by
  have hf : w.draft.fields.map Field.unsigned
        ++ (Field.ofParts? w.statement.parts w.cursor.startLine "").value.toList
      = (w.draft.fields
        ++ (Field.ofParts? w.statement.parts w.cursor.startLine
            w.cursor.signature).value.toList).map Field.unsigned := by
    rw [List.map_append, ← Option.toList_map, Field.ofParts?_unsigned]
  exact congrArg (fun fs => { w.unsigned with draft.fields := fs }) hf

theorem applyHeader_unsigned :
    w.unsigned.applyHeader.value = w.applyHeader.value.unsigned := by
  have hd := w.draft.applyHeader_erase Field.unsigned Method.unsigned
    w.statement.parts w.statement.doc w.cursor.signature
  exact congrArg (fun d => { w.unsigned with draft := d }) hd.symm

theorem readAs_unsigned (r : Role) :
    (w.unsigned.readAs r).value = (w.readAs r).value.unsigned := by
  cases r with
  | field => exact w.addField_unsigned
  | method => exact w.addMethod_unsigned
  | header => exact w.applyHeader_unsigned
  | _ => rfl

theorem close_unsigned (c : Closing) :
    (w.unsigned.close c).value = (w.close c).value.unsigned := by
  simp only [close, readAs_unsigned]
  rfl

theorem take_unsigned (m : Move) :
    (w.unsigned.take m).value = (w.take m).value.unsigned := by
  cases m with
  | aside _ _ r => cases r <;> rfl
  | gather c | license c => cases c <;> rfl
  | line | type => rfl
  | closeDoc drops clears => cases clears <;> rfl
  | ends c => exact congrArg nextStatement (w.flush.close_unsigned c)

theorem view_unsigned : w.unsigned.view = w.view := rfl

/-- **A step makes the same declaration without the line texts**, but for the
    signatures. -/
theorem step_unsigned (t : Token) :
    (w.unsigned.step t).value = (w.step t).value.unsigned := by
  rw [step_eq, step_eq, view_unsigned, take_unsigned]

theorem steps_unsigned (ts : List Token) :
    w.unsigned.steps ts = (w.steps ts).unsigned := by
  induction ts generalizing w with
  | nil => rfl
  | cons t ts ih =>
      show (w.unsigned.step t).value.steps ts = _
      rw [step_unsigned, ih]
      rfl

theorem finish_unsigned : w.unsigned.finish.value = w.finish.value.unsigned := by
  have hconstants : w.unsigned.finishConstants.value
      = w.finishConstants.value.unsigned := by
    have hwait : w.unsigned.awaitsConstants = w.awaitsConstants := rfl
    have hspan : w.unsigned.span = w.span := rfl
    rw [finishConstants_eq, finishConstants_eq, view_unsigned, hwait, hspan]
    split
    · split
      · exact w.flush.close_unsigned _
      · exact w.close_unsigned _
    · rfl
  rw [finish, finish, Logged.value_bind, Logged.value_bind, hconstants]
  exact Draft.finish_erase Field.unsigned Method.unsigned _

end

end Walk

/-! ## Tokens that count -/

/-- The tokens other than the texts of lines. -/
def spoken (ts : List Token) : List Token := ts.filter fun t => t.kind != .sign

theorem spoken_append (ts us : List Token) :
    spoken (ts ++ us) = spoken ts ++ spoken us :=
  List.filter_append ts us

theorem spoken_cons {t : Token} (h : t.kind ≠ .sign) (ts : List Token) :
    spoken (t :: ts) = t :: spoken ts :=
  List.filter_cons_of_pos (p := fun t : Token => t.kind != .sign) (by simpa using h)

theorem spoken_cons_sign {t : Token} (h : t.kind = .sign) (ts : List Token) :
    spoken (t :: ts) = spoken ts :=
  List.filter_cons_of_neg (p := fun t : Token => t.kind != .sign) (by simpa using h)

theorem spoken_of_not_line {ts : List Token}
    (h : ∀ t ∈ ts, t.kind.isLine = false) : spoken ts = ts := by
  rw [spoken, List.filter_eq_self]
  intro t ht
  have hline := h t ht
  cases hk : t.kind <;> first | rfl | (rw [hk] at hline; exact nomatch hline)

/-- The token with the text of a line is not looked at. -/
theorem Walk.step_of_sign (w : Walk) {t : Token} (h : t.kind = .sign) :
    w.step t = pure w := by
  rw [step, plainStep, h]
  split <;> rfl

theorem Walk.steps_spoken (w : Walk) (ts : List Token) :
    w.steps ts = w.steps (spoken ts) := by
  induction ts generalizing w with
  | nil => rfl
  | cons t ts ih =>
      by_cases hk : t.kind = .sign
      · rw [spoken_cons_sign hk]
        show (w.step t).value.steps ts = _
        rw [w.step_of_sign hk]
        exact ih w
      · rw [spoken_cons hk]
        exact ih _

/-- The outline of a source, without its signatures, is read off a walk that
    knows no line texts. -/
theorem outline_unsigned {source : String} (settings : Settings)
    (h : LinesFit source) :
    ∃ d, (outline source settings).value = .ok d
      ∧ d.unsigned
        = (Walk.steps {} (tokenize source settings.ignoredKeywords)).finish.value := by
  obtain ⟨ix, hix⟩ := outline_value settings h
  refine ⟨_, hix, ?_⟩
  rw [← Walk.finish_unsigned, ← Walk.steps_unsigned]
  rfl

end JavaOutline
