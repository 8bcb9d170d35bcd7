import JavaOutline.Record.Declaration
import JavaOutline.Record.Integer

/-! # Records survive being written

    What a record writes is read back as that record.  The argument follows the
    data: a text, an integer and a list are read back, so an object is whose
    members are, and so is a declaration with the members of its own kind.

    The classes of records are one family (`RecordClass`), each with its values,
    its check and its way of writing them.  Loose data may leave fields out, name
    others, and write a line number in any way that the coercion takes; what it is
    read as once is what every later reading gives.  Of the coercion nothing is used
    but that an integer is read as itself. -/

namespace JavaOutline

open Json

/-! ## Checks that succeed -/

namespace Checked

variable {α β : Type}

@[simp] theorem map_ok (f : α → β) (a : α) :
    f <$> (.ok a : Checked α) = .ok (f a) := rfl

@[simp] theorem seq_ok (f : α → β) (a : α) :
    (.ok f : Checked (α → β)) <*> (.ok a : Checked α) = .ok (f a) := rfl

@[simp] theorem under_ok (s : PathStep) (a : α) :
    (.ok a : Checked α).under s = .ok a := rfl

/-- Both outcomes of a check that succeeds are successes. -/
theorem seq_eq_ok {f : Checked (α → β)} {x : Checked α} {b : β}
    (h : f <*> x = .ok b) : ∃ g a, f = .ok g ∧ x = .ok a ∧ b = g a := by
  cases f with
  | ok g =>
      cases x with
      | ok a =>
          cases h
          exact ⟨g, a, rfl, rfl, rfl⟩
      | failed is => cases h
  | failed is =>
      cases x with
      | ok a => cases h
      | failed js => cases h

theorem map_eq_ok {f : α → β} {x : Checked α} {b : β} (h : f <$> x = .ok b) :
    ∃ a, x = .ok a ∧ b = f a := by
  obtain ⟨g, a, hg, ha, hb⟩ := seq_eq_ok (f := .ok f) h
  cases hg
  exact ⟨a, ha, hb⟩

/-- What holds of a function for every argument holds of its value at the
    outcome of a check. -/
theorem forall_seq {p : β → Prop} {f : Checked (α → β)} {x : Checked α}
    (h : ∀ g, f = .ok g → ∀ a, p (g a)) : ∀ b, f <*> x = .ok b → p b := by
  intro b hb
  obtain ⟨g, a, hg, -, rfl⟩ := seq_eq_ok hb
  exact h g hg a

theorem forall_map {p : β → Prop} {f : α → β} {x : Checked α}
    (h : ∀ a, p (f a)) : ∀ b, f <$> x = .ok b → p b := by
  intro b hb
  obtain ⟨a, -, rfl⟩ := map_eq_ok hb
  exact h a

theorem under_eq_ok {s : PathStep} {x : Checked α} {a : α}
    (h : x.under s = .ok a) : x = .ok a := by
  cases x with
  | ok b => exact h
  | failed is => cases h

/-- A list is read back if its items are. -/
theorem each_map {check : Json → Checked α} {dump : α → Json}
    (h : ∀ a, check (dump a) = .ok a) (as : List α) (n : Nat) :
    each check n (as.map dump) = .ok as := by
  induction as generalizing n with
  | nil => rfl
  | cons a as ih =>
      rw [List.map_cons, each, h, ih]
      rfl

end Checked

namespace Json

variable {α : Type} {ms : Members} {name : String} {v : Json} {a default : α}
  {check : Json → Checked α}

theorem listOf_map {dump : α → Json} (h : ∀ a, check (dump a) = .ok a)
    (as : List α) : listOf check (.arr (as.map dump)) = .ok as :=
  Checked.each_map h as 0

@[simp] theorem text_str (s : String) : text (.str s) = .ok s := rfl

@[simp] theorem listOf_ofTexts (ss : List String) :
    listOf text (ofTexts ss) = .ok ss :=
  listOf_map text_str ss

/-- A field that may be left out is looked for from the first member on. -/
@[simp] theorem optional_cons (n : String) :
    Json.optional ((n, v) :: ms) name default check
      = if name = n then (check v).under (.field name)
        else Json.optional ms name default check := by
  by_cases h : name = n
  · rw [Json.optional, h, List.lookup_cons_self, if_pos rfl]
  · have hn : (name == n) = false := beq_eq_false_iff_ne.mpr h
    rw [Json.optional, List.lookup_cons, hn, if_neg h]
    rfl

/-- A field that must be there is looked for in the same way. -/
@[simp] theorem required_cons (n : String) :
    required ((n, v) :: ms) name check
      = if name = n then (check v).under (.field name)
        else required ms name check := by
  by_cases h : name = n
  · rw [required, h, List.lookup_cons_self, if_pos rfl]
  · have hn : (name == n) = false := beq_eq_false_iff_ne.mpr h
    rw [required, List.lookup_cons, hn, if_neg h]
    rfl

end Json

/-! ## Records are read back -/

theorem Param.ofJson_toJson (p : Param) : ofJson p.toJson = .ok p := by
  simp [ofJson, toJson, record]

theorem ExceptionDoc.ofJson_toJson (e : ExceptionDoc) :
    ofJson e.toJson = .ok e := by
  simp [ofJson, toJson, record]

theorem EnumConstant.ofJson_toJson (c : EnumConstant) :
    ofJson c.toJson = .ok c := by
  simp [ofJson, toJson, record]

theorem Field.ofJson_toJson (coercion : Coercion) (f : Field) :
    ofJson coercion f.toJson = .ok f := by
  simp [ofJson, toJson, record]

theorem Doc.ofJson_toJson (d : Doc) : ofJson d.toJson = .ok d := by
  simp [ofJson, toJson, record, listOf_map Param.ofJson_toJson,
    listOf_map ExceptionDoc.ofJson_toJson]

theorem Method.ofJson_toJson (coercion : Coercion) (m : Method) :
    ofJson coercion m.toJson = .ok m := by
  simp [ofJson, toJson, record, listOf_map Param.ofJson_toJson,
    listOf_map ExceptionDoc.ofJson_toJson]

/-! ## Declarations and their kinds -/

theorem TypeKind.check_word (k l : TypeKind) :
    k.check (.str l.word) = if l = k then .ok k else .fail (.wrongKind k.word) := by
  cases k <;> cases l <;> rfl

/-- The members of one kind give the shape of that kind. -/
theorem Shape.kind_of_ofMembers (k : TypeKind) (ms : Members) :
    ∀ s, Shape.ofMembers k ms = .ok s → s.kind = k := by
  cases k with
  | classKind =>
      refine Checked.forall_seq (Checked.forall_map ?_)
      intro parent interfaces
      rfl
  | interfaceKind =>
      refine Checked.forall_map ?_
      intro parents
      rfl
  | enumKind =>
      refine Checked.forall_seq (Checked.forall_map ?_)
      intro interfaces constants
      rfl

namespace Declaration

variable {coercion : Coercion}

/-- What is read as a declaration of one kind is a declaration of that kind. -/
theorem kind_of_ofMembers {k : TypeKind} {ms : Members} {d : Declaration}
    (h : ofMembers coercion k ms = .ok d) : d.kind = k := by
  -- the shape is checked last and taken over as it is
  obtain ⟨g, s, hg, hs, rfl⟩ := Checked.seq_eq_ok h
  have hshape : ∀ s, (g s).shape = s := by
    clear h
    revert g
    iterate 14 refine Checked.forall_seq ?_
    refine Checked.forall_map ?_
    intros
    rfl
  rw [kind, hshape]
  exact Shape.kind_of_ofMembers k ms s hs

/-- A declaration is read back as one of its own kind. -/
theorem ofJson_toJson (d : Declaration) :
    ofJson coercion d.kind d.toJson = .ok d := by
  obtain ⟨name, packageName, dependencies, access, modifiers, license, fields,
    methods, signature, author, version, description, deprecated, see, shape⟩ := d
  cases shape <;>
    simp [ofJson, toJson, record, ofMembers, Shape.ofMembers, Shape.toMembers,
      kind, Shape.kind, TypeKind.check_word, listOf_map (Field.ofJson_toJson _),
      listOf_map (Method.ofJson_toJson _), listOf_map EnumConstant.ofJson_toJson]

/-- The members that a declaration is written as. -/
theorem toJson_eq_obj (d : Declaration) :
    ∃ ms : Members, d.toJson = .obj ms
      ∧ ms.lookup "kind" = some (.str d.kind.word) :=
  ⟨_, rfl, rfl⟩

/-- A declaration is read back by the kind that its writing names. -/
theorem ofAnyJson_toJson (d : Declaration) :
    ofAnyJson coercion d.toJson = .ok d := by
  have hread : ofJson coercion d.kind d.toJson = .ok d := d.ofJson_toJson
  obtain ⟨ms, hms, hkind⟩ := d.toJson_eq_obj
  rw [hms] at hread ⊢
  have hmembers : ofMembers coercion d.kind ms = .ok d := hread
  rw [ofAnyJson, hkind]
  simp only [TypeKind.ofWord?_word, hmembers, Checked.under_ok]

/-- It is read as a declaration of no other kind. -/
theorem ofJson_toJson_iff (d e : Declaration) (k : TypeKind) :
    ofJson coercion k d.toJson = .ok e ↔ k = d.kind ∧ e = d := by
  constructor
  · intro h
    have hk : k = d.kind := by
      obtain ⟨ms, hms, hkind⟩ := d.toJson_eq_obj
      rw [hms] at h
      -- before the shape, the kind is checked against the one that is named
      obtain ⟨_, _, hg, -, -⟩ :=
        Checked.seq_eq_ok (show ofMembers coercion k ms = .ok e from h)
      obtain ⟨_, l, -, hl, -⟩ := Checked.seq_eq_ok hg
      rw [Json.optional, hkind] at hl
      have hcheck := Checked.under_eq_ok hl
      rw [TypeKind.check_word] at hcheck
      split at hcheck
      · next heq => exact heq.symm
      · cases hcheck
    subst hk
    rw [ofJson_toJson] at h
    cases h
    exact ⟨rfl, rfl⟩
  · rintro ⟨rfl, rfl⟩
    exact e.ofJson_toJson

theorem kind_of_ofJson {k : TypeKind} {v : Json} {d : Declaration}
    (h : ofJson coercion k v = .ok d) : d.kind = k := by
  cases v with
  | obj ms => exact kind_of_ofMembers h
  | _ => cases h

/-- What is read by the kind that it names has that kind. -/
theorem kind_of_ofAnyJson {v : Json} {d : Declaration}
    (h : ofAnyJson coercion v = .ok d) :
    ∃ (ms : Members) (s : String), v = .obj ms
      ∧ ms.lookup "kind" = some (.str s) ∧ TypeKind.ofWord? s = some d.kind := by
  cases v with
  | obj ms =>
      rw [ofAnyJson] at h
      split at h
      · cases h
      · next s hs =>
          split at h
          · next k hk =>
              have hd := kind_of_ofMembers (Checked.under_eq_ok h)
              exact ⟨ms, s, rfl, hs, hd ▸ hk⟩
          · cases h
      · cases h
  | _ => cases h

end Declaration

/-! ## Classes of records -/

/-- The classes of records that data can be checked against. -/
inductive RecordClass where
  | param
  | exceptionDoc
  | doc
  | enumConstant
  | field
  | method
  | declaration (kind : TypeKind)
  /-- A declaration of the kind that the data names. -/
  | anyDeclaration
  deriving DecidableEq, Repr

namespace RecordClass

/-- The records of a class. -/
def Value : RecordClass → Type
  | param => Param
  | exceptionDoc => ExceptionDoc
  | doc => Doc
  | enumConstant => EnumConstant
  | field => Field
  | method => Method
  | declaration _ => Declaration
  | anyDeclaration => Declaration

/-- Check data against a class. -/
def check (coercion : Coercion) : (c : RecordClass) → Json → Checked c.Value
  | param => Param.ofJson
  | exceptionDoc => ExceptionDoc.ofJson
  | doc => Doc.ofJson
  | enumConstant => EnumConstant.ofJson
  | field => Field.ofJson coercion
  | method => Method.ofJson coercion
  | declaration kind => Declaration.ofJson coercion kind
  | anyDeclaration => Declaration.ofAnyJson coercion

/-- A record as JSON. -/
def dump : (c : RecordClass) → c.Value → Json
  | param => Param.toJson
  | exceptionDoc => ExceptionDoc.toJson
  | doc => Doc.toJson
  | enumConstant => EnumConstant.toJson
  | field => Field.toJson
  | method => Method.toJson
  | declaration _ => Declaration.toJson
  | anyDeclaration => Declaration.toJson

/-- The declaration that a record is. -/
def declaration? : (c : RecordClass) → c.Value → Option Declaration
  | param, _ | exceptionDoc, _ | doc, _ | enumConstant, _ | field, _ | method, _ => none
  | declaration _, d => some d
  | anyDeclaration, d => some d

/-- The kind of declaration that a class asks for, or that the data names. -/
def kind? (c : RecordClass) (v : Json) : Option TypeKind :=
  match c, v with
  | declaration kind, _ => some kind
  | anyDeclaration, .obj ms =>
    match ms.lookup "kind" with
    | some (.str s) => TypeKind.ofWord? s
    | _ => none
  | _, _ => none

/-- A declaration that a check gives has the kind that was asked for. -/
theorem kind_of_check {coercion : Coercion} {c : RecordClass} {v : Json} {r : c.Value}
    (h : c.check coercion v = .ok r) :
    ∀ d ∈ c.declaration? r, c.kind? v = some d.kind := by
  intro d hd
  cases c with
  | declaration k =>
      cases hd
      exact congrArg some (Declaration.kind_of_ofJson h).symm
  | anyDeclaration =>
      cases hd
      obtain ⟨ms, s, rfl, hs, hk⟩ := Declaration.kind_of_ofAnyJson h
      rw [kind?, hs]
      exact hk
  | _ => cases hd

/-- What a check gives is read back from its writing. -/
theorem check_dump {coercion : Coercion} {c : RecordClass} {v : Json} {r : c.Value}
    (h : c.check coercion v = .ok r) : c.check coercion (c.dump r) = .ok r := by
  cases c with
  | param => exact Param.ofJson_toJson r
  | exceptionDoc => exact ExceptionDoc.ofJson_toJson r
  | doc => exact Doc.ofJson_toJson r
  | enumConstant => exact EnumConstant.ofJson_toJson r
  | field => exact Field.ofJson_toJson coercion r
  | method => exact Method.ofJson_toJson coercion r
  | declaration k =>
      -- the writing names the kind of the record, which is the one asked for
      exact (Declaration.ofJson_toJson_iff r r k).mpr
        ⟨(Declaration.kind_of_ofJson h).symm, rfl⟩
  | anyDeclaration => exact Declaration.ofAnyJson_toJson r

/-- **Records survive being written.**  What data is read as, written and read
    again, is the same record; and a declaration, which has the kind that was
    asked for, is read back by its own kind and by no other.  This is so whatever
    else than integers the coercion takes for a line number. -/
theorem check_dump_of_check {coercion : Coercion} {c : RecordClass} {v : Json} {r : c.Value}
    (h : c.check coercion v = .ok r) :
    c.check coercion (c.dump r) = .ok r
      ∧ ∀ d ∈ c.declaration? r,
          c.kind? v = some d.kind
            ∧ Declaration.ofAnyJson coercion d.toJson = .ok d
            ∧ ∀ (k : TypeKind) (e : Declaration),
                Declaration.ofJson coercion k d.toJson = .ok e ↔ k = d.kind ∧ e = d := by
  refine ⟨check_dump h, ?_⟩
  intro d hd
  refine ⟨kind_of_check h d hd, d.ofAnyJson_toJson, ?_⟩
  intro k e
  exact d.ofJson_toJson_iff e k

/-- An enumeration with a member that no record has, a method without most of
    its fields and line numbers written as a text and as a flag. -/
def looseEnum : Json :=
  .obj [("kind", .str "enum"), ("extra", .null), ("name", .str "E"),
    ("methods", .arr [.obj [("line", .str " +0_7.0 "), ("name", .str "m"),
      ("parameters", .arr [.obj [("name", .str "a")]])]]),
    ("variables", .arr [.obj [("line", .bool true)]]),
    ("fields", .arr [.obj [("value", .str "0"), ("name", .str "A")]])]

/-- The record that it is read as. -/
def looseEnumRecord : Declaration where
  name := "E"
  fields := [{ line := 1 }]
  methods := [{ name := "m", parameters := [{ name := "a" }], line := 7 }]
  shape := .enumShape [] [⟨"A", "0"⟩]

theorem check_dump_looseEnum :
    anyDeclaration.check .lenient looseEnum = .ok looseEnumRecord
      ∧ anyDeclaration.check .lenient looseEnumRecord.toJson = .ok looseEnumRecord := by
  have h : anyDeclaration.check .lenient looseEnum = .ok looseEnumRecord := rfl
  exact ⟨h, (check_dump_of_check h).1⟩

end RecordClass

end JavaOutline
