import JavaOutline.Proofs.CommentSpans
import JavaOutline.Proofs.Totality

/-! # What a step does to members and to the cursor

    `Walk.effect` says once what a step can do to the members of the draft and
    to the cursor.  A line number leads to its line.  The end of a statement in
    ordinary code adds at most one member of each kind, placed where the
    statement started, and leaves no statement behind.  Every other token keeps
    all members; it may mark the start of a statement or forget it. -/

namespace JavaOutline

/-! ## Places -/

/-- Where a declaration stands: the number of its line and the line's text. -/
structure Place where
  line : Int
  signature : String
  deriving DecidableEq, Repr

def Field.place (f : Field) : Place := ⟨f.line, f.signature⟩

def Method.place (m : Method) : Place := ⟨m.line, m.signature⟩

/-- The place of the statement under construction. -/
def Cursor.place (c : Cursor) : Place := ⟨c.startLine, c.signature⟩

/-- The two kinds of member that have a place. -/
inductive MemberKind where
  | field
  | method
  deriving DecidableEq, Repr

/-- The places of the members of one kind. -/
def Draft.places (d : Draft) : MemberKind → List Place
  | .field => d.fields.map Field.place
  | .method => d.methods.map Method.place

/-- The places of the members of one kind. -/
def Declaration.places (d : Declaration) : MemberKind → List Place
  | .field => d.fields.map Field.place
  | .method => d.methods.map Method.place

theorem Draft.places_congr {d e : Draft} (hf : e.fields = d.fields)
    (hm : e.methods = d.methods) (k : MemberKind) : e.places k = d.places k := by
  cases k with
  | field => exact congrArg (List.map Field.place) hf
  | method => exact congrArg (List.map Method.place) hm

/-- At most one member of each kind has been added, at the place `p`. -/
def Draft.Gains (d : Draft) (p : Place) (e : Draft) : Prop :=
  ∀ k, e.places k = d.places k ∨ e.places k = d.places k ++ [p]

theorem Draft.Gains.of_same {d e : Draft} (hf : e.fields = d.fields)
    (hm : e.methods = d.methods) (p : Place) : d.Gains p e :=
  fun k => .inl (places_congr hf hm k)

theorem Method.ofParts?_place {ps : List Part} {doc : Doc} {line : Int}
    {signature pendingName : String} :
    ∀ m ∈ (ofParts? ps doc line signature pendingName).value,
      m.place = ⟨line, signature⟩ := by
  intro m hm
  rw [ofParts?, Logged.value_bind] at hm
  revert hm
  generalize (Logged.fold MethodReading.step {} ps).value = r
  by_cases hname : r.finalName pendingName = "" ∧ ¬ r.isConstructor
  · simp only [if_pos hname]
    intro hm
    cases hm
  · simp only [if_neg hname]
    intro hm
    rw [← Option.some.inj hm]
    rfl

theorem Field.ofParts?_place {ps : List Part} {line : Int} {signature : String} :
    ∀ f ∈ (ofParts? ps line signature).value, f.place = ⟨line, signature⟩ := by
  intro f hf
  rw [ofParts?, Logged.value_bind] at hf
  split at hf
  · rw [← Option.some.inj hf]
    rfl
  · cases hf

/-- At most one more member, at the place `p`. -/
theorem map_append_toList {α : Type} {place : α → Place} {p : Place}
    {x? : Option α} (h : ∀ x ∈ x?, place x = p) (xs : List α) :
    (xs ++ x?.toList).map place = xs.map place
      ∨ (xs ++ x?.toList).map place = xs.map place ++ [p] := by
  cases x? with
  | none => exact .inl (by rw [Option.toList_none, List.append_nil])
  | some x =>
      refine .inr ?_
      rw [Option.toList_some, List.map_append, List.map_singleton, h x rfl]

namespace Walk

variable {w v : Walk}

/-! ## The ends of statements -/

theorem gains_addMethod (w : Walk) :
    w.draft.Gains w.cursor.place w.addMethod.value.draft := by
  intro k
  cases k with
  | field => exact .inl rfl
  | method => exact map_append_toList Method.ofParts?_place w.draft.methods

theorem gains_addField (w : Walk) :
    w.draft.Gains w.cursor.place w.addField.value.draft := by
  intro k
  cases k with
  | field => exact map_append_toList Field.ofParts?_place w.draft.fields
  | method => exact .inl rfl

theorem gains_applyHeader (w : Walk) :
    w.draft.Gains w.cursor.place w.applyHeader.value.draft := by
  obtain ⟨_, _, _, _, _, hd⟩ := w.draft.applyHeader_frame w.statement.parts
    w.statement.doc w.cursor.signature
  show w.draft.Gains w.cursor.place (w.draft.applyHeader _ _ _).value
  rw [hd]
  exact .of_same rfl rfl _

theorem gains_readAs (w : Walk) (r : Role) :
    w.draft.Gains w.cursor.place (w.readAs r).value.draft := by
  cases r with
  | field => exact w.gains_addField
  | method => exact w.gains_addMethod
  | header => exact w.gains_applyHeader
  | _ => exact .of_same rfl rfl _

/-! ## All other tokens -/

/-- A statement that is a header is the header of the file's type. -/
def HeadsType (w : Walk) : Prop := w.statement.isHeader = true → w.inType = true

/-- The walk `v` has the members of `w`, and at most the start of the statement
    has been marked or forgotten. -/
structure Passes (w v : Walk) : Prop where
  fields : v.draft.fields = w.draft.fields
  methods : v.draft.methods = w.draft.methods
  cursor : v.cursor = w.cursor ∨ v.cursor = w.cursor.mark
    ∨ v.cursor = w.cursor.clear
  header : w.HeadsType → v.HeadsType

/-- Neither the draft nor the cursor nor what is known of the header changes. -/
theorem Passes.same (hd : v.draft = w.draft) (hc : v.cursor = w.cursor)
    (hs : v.statement.isHeader = w.statement.isHeader) : w.Passes v := by
  refine ⟨by rw [hd], by rw [hd], .inl hc, ?_⟩
  intro h
  rw [HeadsType, inType, hd, hs]
  exact h

/-- The statement changes, and nothing of the draft that matters here does. -/
theorem passes_gather {c : Change} (hf : v.draft.fields = w.draft.fields)
    (hm : v.draft.methods = w.draft.methods) (hk : v.draft.kind = w.draft.kind)
    (hc : v.cursor = (w.gather c).cursor) (hs : v.statement = w.statement.change c) :
    w.Passes v := by
  refine ⟨hf, hm, ?_, ?_⟩
  · rw [hc]
    cases c with
    | word | part => exact .inr (.inl rfl)
    | flush | nested | executable | params | name => exact .inl rfl
  · rw [HeadsType, HeadsType, inType, inType, hk, hs, Statement.change_isHeader]
    exact id

theorem passes_closeDoc (w : Walk) (drops clears : Bool) :
    w.Passes (w.take (.closeDoc drops clears)).value := by
  refine ⟨rfl, rfl, ?_, ?_⟩
  · cases clears with
    | true => exact .inr (.inr rfl)
    | false => exact .inl rfl
  · intro h hheader
    exact h (Bool.and_eq_true_iff.mp hheader).2

/-! ## One step -/

/-- What a token can do to the members and to the cursor. -/
inductive Effect (w : Walk) (t : Token) (v : Walk) : Prop where
  /-- A line starts. -/
  | line (kind : t.kind = .lineNumber) (draft : v.draft = w.draft)
      (statement : v.statement = w.statement)
      (cursor : v.cursor
        = w.cursor.goTo ((Text.integer? t.text).getD w.cursor.line)) : Effect w t v
  /-- A statement ends in ordinary code. -/
  | ends (kind : t.kind = .statementEnd) (code : w.readsCode = true)
      (draft : w.draft.Gains w.cursor.place v.draft)
      (statement : v.statement = {}) (cursor : v.cursor = w.cursor.clear) :
      Effect w t v
  /-- Anything else. -/
  | other (kind : t.kind ≠ .lineNumber)
      (code : t.kind = .statementEnd → w.readsCode = false)
      (passes : w.Passes v) : Effect w t v

/-- **What one step can do.** -/
theorem effect (w : Walk) (t : Token) : w.Effect t (w.step t).value := by
  obtain ⟨m, hm, hstep⟩ := w.exists_move t
  rw [hstep]
  cases hm with
  | @aside _ _ r _ hnumber hquiet =>
      refine .other hnumber (fun hk => ?_) (by cases r <;> exact .same rfl rfl rfl)
      exact Bool.eq_false_iff.mpr fun hcode => (hquiet hcode).plain.2 hk
  | line hk => exact .line hk rfl rfl rfl
  | gather hg =>
      exact .other hg.notNumber (absurd · hg.notEnd) (passes_gather rfl rfl rfl rfl rfl)
  | license hg =>
      exact .other hg.notNumber (absurd · hg.notEnd) (passes_gather rfl rfl rfl rfl rfl)
  | type _ hk hword =>
      -- the only place where a header begins; the type has a kind from here on
      obtain ⟨k, hkind⟩ := TypeKind.exists_ofWord? hword
      refine .other (by rw [hk]; decide) (fun hend => by cases hk.symm.trans hend)
        ⟨rfl, rfl, .inr (.inl rfl), fun _ _ => ?_⟩
      show (TypeKind.ofWord? t.text).isSome = true
      rw [hkind]
      rfl
  | closeDoc hk =>
      exact .other (by rw [hk]; decide) (fun hend => by cases hk.symm.trans hend)
        (w.passes_closeDoc _ _)
  | @ends c hcode hk =>
      obtain ⟨d, hd⟩ := w.flush.close_frame c
      have hgains := w.flush.gains_readAs c.role
      refine .ends hk hcode hgains rfl ?_
      rw [take, Logged.value_bind, hd]
      rfl

end Walk

end JavaOutline
