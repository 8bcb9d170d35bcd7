import JavaOutline.File.Read
import JavaOutline.Settings.Load
import JavaOutline.Yaml.Load

/-! # How loading settings ends

    Loading gives settings, a fault that is promised to callers, or an error that no
    clause covers.  How text is read and what value a YAML text has is left open: all
    that follows holds for every reader and every loader.

      * `Settings.Gives` says which settings the entries of a mapping give, without
        regard to how they are looked up.
      * `Settings.ofEntries_eq_ok` is the law for entries: settings are given just if
        every entry fits.
      * `Settings.checkFields_eq_escaped` says which errors escape where the keys that
        are not known are to be named.
      * `Settings.Unforeseen` lists the causes of errors that escape, and
        `Settings.load_outcome` says that there are no others, if the loader gives a
        value or refuses the text as no YAML. -/

namespace JavaOutline

open Text Yaml

/-! ## What the entries of a document give -/

/-- The entries of a document; an empty one has none. -/
inductive Yaml.Document.HasEntries (d : Document) : List (Atom × Item) → Prop where
  | empty (h : d.root = .atom .null) : HasEntries d []
  | mapping {m : Mapping} (h : d.collection? d.root = some (.mapping m)) :
      HasEntries d m.entries

/-- The texts that a value lists.  An empty list of pairs lists none. -/
inductive Yaml.Document.Lists (d : Document) (x : Item) : List String → Prop where
  | sequence {ss : List String}
      (h : d.collection? x = some (.sequence (ss.map fun s => .atom (.text s)))) :
      Lists d x ss
  | pairs (h : d.collection? x = some (.pairs [])) : Lists d x []

namespace Settings

/-- An entry with a known key and a value of its type. -/
def Fits (d : Document) (e : Atom × Item) : Prop :=
  (e.1 = .text "encoding" ∧ ∃ s, s ≠ "" ∧ e.2 = .atom (.text s))
    ∨ (e.1 = .text "ignored-keywords" ∧ ∃ ss, d.Lists e.2 ss)

/-- The settings that entries give. -/
structure Gives (d : Document) (es : List (Atom × Item)) (s : Settings) : Prop where
  known : ∀ e ∈ es, e.1 = .text "encoding" ∨ e.1 = .text "ignored-keywords"
  encoding : ∀ x, (.text "encoding", x) ∈ es → x = .atom (.text s.encoding)
  encoding_ne : s.encoding ≠ ""
  encoding_default : (∀ x, (.text "encoding", x) ∉ es) → s.encoding = "utf-8"
  keywords : ∀ x, (.text "ignored-keywords", x) ∈ es → d.Lists x s.ignoredKeywords
  keywords_default : (∀ x, (.text "ignored-keywords", x) ∉ es) → s.ignoredKeywords = []

/-! ## Looking entries up -/

theorem isKnown_iff {k : Atom} :
    isKnown k = true ↔ k = .text "encoding" ∨ k = .text "ignored-keywords" := by
  cases k with
  | text s => simp [isKnown, knownFields]
  | _ => simp [isKnown]

theorem sameKey_text_iff {k : Atom} {name : String} :
    k.sameKey (.text name) = true ↔ k = .text name := by
  cases k with
  | text s => simp [Atom.sameKey]
  | real x source => cases x <;> simp [Atom.sameKey, Atom.isNumber]
  | _ => simp [Atom.sameKey, Atom.isNumber]

/-- Where no key comes twice, looking up a key finds its entry. -/
theorem field?_eq_some {es : List (Atom × Item)} (hd : DistinctKeys es) {name : String}
    {x : Item} : field? es name = some x ↔ (.text name, x) ∈ es := by
  rw [field?]
  induction es with
  | nil => simp
  | cons e es ih =>
      obtain ⟨hhead, htail⟩ := List.pairwise_cons.mp hd
      rw [List.find?_cons, List.mem_cons]
      cases hkey : e.1.sameKey (.text name) with
      | true =>
          have he : e.1 = .text name := sameKey_text_iff.mp hkey
          have hlast : (.text name, x) ∉ es := fun hmem => by
            have := hhead _ hmem
            rw [he, sameKey_text_iff.mpr rfl] at this
            cases this
          rw [or_iff_left hlast]
          constructor
          · rintro ⟨⟩
            exact Prod.ext he.symm rfl
          · rintro rfl
            rfl
      | false =>
          have hne : (.text name, x) ≠ e := by
            rintro rfl
            rw [sameKey_text_iff.mpr rfl] at hkey
            cases hkey
          rw [or_iff_right hne]
          exact ih htail

theorem field?_eq_none {es : List (Atom × Item)} {name : String} :
    field? es name = none ↔ ∀ x, (.text name, x) ∉ es := by
  rw [field?, Option.map_eq_none_iff, List.find?_eq_none]
  constructor
  · intro h x hmem
    exact h _ hmem (sameKey_text_iff.mpr rfl)
  · intro h e he hkey
    refine h e.2 ?_
    rw [← sameKey_text_iff.mp hkey]
    exact he

/-! ## Values -/

theorem encodingOf_eq_ok {x : Item} {s : String} :
    encodingOf x = .ok s ↔ x = .atom (.text s) ∧ s ≠ "" := by
  fun_cases encodingOf x with
  | case1 => simp
  | case2 u hne =>
      constructor
      · rintro ⟨⟩
        exact ⟨rfl, hne⟩
      · rintro ⟨⟨⟩, -⟩
        rfl
  | case3 x hx =>
      constructor
      · intro h
        cases h
      · rintro ⟨rfl, -⟩
        exact (hx s rfl).elim

theorem encodingOf_ne_escaped (x : Item) (e : Error) :
    encodingOf x ≠ .error (.escaped e) := by
  fun_cases encodingOf x with
  | _ =>
      intro h
      cases h

theorem textsOf?_eq_some {xs : List Item} {ss : List String} :
    textsOf? xs = some ss ↔ xs = ss.map fun s => .atom (.text s) := by
  fun_induction textsOf? xs generalizing ss with
  | case1 => rw [Option.some_inj, eq_comm, eq_comm (b := ss.map _), List.map_eq_nil_iff]
  | case2 s xs ih =>
      rw [Option.map_eq_some_iff]
      constructor
      · rintro ⟨us, hus, rfl⟩
        rw [ih.mp hus]
        rfl
      · intro h
        cases ss with
        | nil => cases h
        | cons u us =>
            obtain ⟨hu, hus⟩ := List.cons.inj h
            cases hu
            exact ⟨us, ih.mpr hus, rfl⟩
  | case3 x xs hx =>
      constructor
      · intro h
        cases h
      · intro h
        cases ss with
        | nil => cases h
        | cons u us => exact (hx u (List.cons.inj h).1).elim

theorem keywordsOf_eq_ok {d : Document} {x : Item} {ss : List String} :
    keywordsOf (d.collection? x) = .ok ss ↔ d.Lists x ss := by
  constructor
  · generalize hc : d.collection? x = c
    fun_cases keywordsOf c with
    | case1 xs us hus =>
        rintro ⟨⟩
        exact .sequence (by rw [hc, ← textsOf?_eq_some.mp hus])
    | case2 =>
        intro h
        cases h
    | case3 =>
        rintro ⟨⟩
        exact .pairs hc
    | case4 =>
        intro h
        cases h
  · rintro (h | h)
    · rw [h, keywordsOf, textsOf?_eq_some.mpr rfl]
    · rw [h, keywordsOf]

theorem keywordsOf_ne_escaped (c : Option Collection) (e : Error) :
    keywordsOf c ≠ .error (.escaped e) := by
  fun_cases keywordsOf c with
  | _ =>
      intro h
      cases h

end Settings

/-! ## Keys that are not known -/

/-- The kinds of key that can be put in order among themselves. -/
inductive KeyKind where
  | number
  | text
  | bytes
  | time (sort : TimeSort)
  deriving DecidableEq

/-- The kind of a key; the null value is of none. -/
def Yaml.Atom.keyKind? : Atom → Option KeyKind
  | .null => none
  | .bool _ | .int _ | .real _ _ => some .number
  | .text _ => some .text
  | .bytes _ => some .bytes
  | .time t => some (.time t.sort)

/-- Keys can be put in order just if they are of the same kind. -/
theorem comparable_iff {a b : Atom} :
    a.comparable b = true ↔ ∃ k, a.keyKind? = some k ∧ b.keyKind? = some k := by
  cases a with
  | time x =>
      cases b with
      | time y =>
          simp only [Atom.comparable, Atom.keyKind?, beq_iff_eq]
          constructor
          · intro h
            exact ⟨.time x.sort, rfl, by rw [h]⟩
          · rintro ⟨k, ⟨⟩, hy⟩
            exact (KeyKind.time.inj (Option.some.inj hy)).symm
      | _ => simp [Atom.comparable, Atom.isNumber, Atom.keyKind?]
  | _ => cases b <;> simp [Atom.comparable, Atom.isNumber, Atom.keyKind?]

/-- It is enough to compare the first key with all others. -/
theorem pairwise_comparable_cons {k : Atom} {ks : List Atom}
    (h : ks.all k.comparable = true) :
    (k :: ks).Pairwise fun a b => a.comparable b = true := by
  rw [List.all_eq_true] at h
  refine List.pairwise_cons.mpr ⟨h, List.pairwise_iff_forall_sublist.mpr fun hab => ?_⟩
  obtain ⟨i, hk, ha⟩ := comparable_iff.mp (h _ (hab.subset List.mem_cons_self))
  obtain ⟨j, hk', hb⟩ := comparable_iff.mp
    (h _ (hab.subset (List.mem_cons_of_mem _ List.mem_cons_self)))
  obtain rfl : i = j := Option.some.inj (hk.symm.trans hk')
  exact comparable_iff.mpr ⟨i, ha, hb⟩

/-- Only an integer can be too long to be written. -/
theorem keyText?_eq_none {k : Atom} : k.keyText? = none
    ↔ ∃ n, k = .int n ∧ maxDigits < (Nat.toDigits 10 n.natAbs).length := by
  cases k with
  | int n => simp [Atom.keyText?, Atom.integerText?]
  | _ => simp [Atom.keyText?]

/-- Two steps succeed just if both do. -/
theorem bind_eq_ok {ε α β : Type} {x : Except ε α} {f : α → Except ε β} {b : β} :
    x >>= f = .ok b ↔ ∃ a, x = .ok a ∧ f a = .ok b := by
  cases x with
  | error e =>
      constructor
      · intro h
        cases h
      · rintro ⟨a, ⟨⟩, -⟩
  | ok a =>
      constructor
      · intro h
        exact ⟨a, rfl, h⟩
      · rintro ⟨_, ⟨⟩, h⟩
        exact h

theorem bind_eq_error {ε α β : Type} {x : Except ε α} {f : α → Except ε β} {e : ε} :
    x >>= f = .error e ↔ x = .error e ∨ ∃ a, x = .ok a ∧ f a = .error e := by
  cases x with
  | error e' =>
      constructor
      · rintro ⟨⟩
        exact .inl rfl
      · rintro (⟨⟨⟩⟩ | ⟨a, ⟨⟩, -⟩)
        rfl
  | ok a =>
      constructor
      · intro h
        exact .inr ⟨a, rfl, h⟩
      · rintro (⟨⟨⟩⟩ | ⟨_, ⟨⟩, h⟩)
        exact h

theorem mapM_eq_none {α β : Type} {f : α → Option β} {xs : List α} :
    xs.mapM f = none ↔ ∃ x ∈ xs, f x = none := by
  induction xs with
  | nil => simp
  | cons x xs ih =>
      simp only [List.mapM_cons, List.mem_cons, exists_eq_or_imp, ← ih]
      cases f x with
      | none => simp
      | some y => cases xs.mapM f <;> simp

namespace Settings

/-- The keys that are not known. -/
def unknownKeys (es : List (Atom × Item)) : List Atom :=
  (es.map Prod.fst).filter fun k => !isKnown k

theorem ordered?_eq_none {us : List Atom} :
    ordered? us = none ↔ ¬ us.Pairwise fun a b => a.comparable b = true := by
  fun_cases ordered? us with
  | case1 => simp
  | case2 k => simp
  | case3 k rest _ h => simpa using pairwise_comparable_cons h
  | case4 k rest _ h =>
      refine iff_of_true rfl fun hpairwise => h ?_
      exact List.all_eq_true.mpr (List.pairwise_cons.mp hpairwise).1

theorem perm_of_ordered? {us ks : List Atom} (h : ordered? us = some ks) : ks.Perm us := by
  revert h
  fun_cases ordered? us with
  | case1 | case2 =>
      rintro ⟨⟩
      exact .refl _
  | case3 =>
      rintro ⟨⟩
      exact List.mergeSort_perm _ _
  | case4 =>
      intro h
      cases h

theorem orRaise_eq_error {α : Type} {e f : Error} {o : Option α} :
    orRaise e o = .error f ↔ o = none ∧ f = e := by
  cases o with
  | none => exact ⟨fun h => ⟨rfl, (Except.error.inj h).symm⟩, fun h => by rw [h.2]; rfl⟩
  | some a =>
      constructor
      · intro h
        cases h
      · rintro ⟨⟨⟩, -⟩

theorem orRaise_eq_ok {α : Type} {e : Error} {o : Option α} {a : α} :
    orRaise e o = .ok a ↔ o = some a := by
  cases o with
  | none =>
      constructor
      · intro h
        cases h
      · intro h
        cases h
  | some b => rw [orRaise, Except.ok.injEq, Option.some.injEq]

/-- Keys have no names if two of them cannot be put in order, or else if one of them is
    too long to be written. -/
theorem namesOf_eq_error {us : List Atom} {e : Error} : namesOf us = .error e
    ↔ (¬ (us.Pairwise fun a b => a.comparable b = true) ∧ e = unorderedKeys)
      ∨ ((us.Pairwise fun a b => a.comparable b = true)
        ∧ (∃ k ∈ us, k.keyText? = none) ∧ e = endlessKey) := by
  rw [namesOf, bind_eq_error]
  simp only [orRaise_eq_error, orRaise_eq_ok, mapM_eq_none, ordered?_eq_none]
  refine or_congr_right ⟨?_, ?_⟩
  · rintro ⟨ks, hks, ⟨k, hk, htext⟩, rfl⟩
    refine ⟨?_, ⟨k, (perm_of_ordered? hks).mem_iff.mp hk, htext⟩, rfl⟩
    apply Classical.byContradiction
    intro hnot
    cases hks.symm.trans (ordered?_eq_none.mpr hnot)
  · rintro ⟨hordered, ⟨k, hk, htext⟩, rfl⟩
    cases hks : ordered? us with
    | none => exact absurd hordered (ordered?_eq_none.mp hks)
    | some ks => exact ⟨ks, rfl, ⟨k, (perm_of_ordered? hks).mem_iff.mpr hk, htext⟩, rfl⟩

/-- Only no keys have no names. -/
theorem namesOf_eq_ok_nil {us : List Atom} : namesOf us = .ok [] ↔ us = [] := by
  constructor
  · intro h
    obtain ⟨ks, hks, hnames⟩ := bind_eq_ok.mp h
    have hnil : ks = [] := by
      cases ks with
      | nil => rfl
      | cons k ks =>
          rw [orRaise_eq_ok, List.mapM_cons] at hnames
          obtain ⟨name, -, hrest⟩ := Option.bind_eq_some_iff.mp hnames
          obtain ⟨names, -, hcons⟩ := Option.bind_eq_some_iff.mp hrest
          cases hcons
    subst hnil
    exact (perm_of_ordered? (orRaise_eq_ok.mp hks)).symm.eq_nil
  · rintro rfl
    rfl

theorem checkFields_eq_ok {es : List (Atom × Item)} :
    checkFields (es.map Prod.fst) = .ok () ↔ unknownKeys es = [] := by
  rw [checkFields, bind_eq_ok, ← namesOf_eq_ok_nil]
  simp only [attempt_eq_ok]
  constructor
  · rintro ⟨names, hnames, h⟩
    cases names with
    | nil => exact hnames
    | cons => cases h
  · intro h
    exact ⟨[], h, rfl⟩

/-- What escapes from a check is what keeps unknown keys from being named. -/
theorem checkFields_eq_escaped {es : List (Atom × Item)} {e : Error} :
    checkFields (es.map Prod.fst) = .error (.escaped e)
      ↔ namesOf (unknownKeys es) = .error e := by
  rw [checkFields, bind_eq_error, attempt_eq_escaped]
  constructor
  · rintro (⟨h, -⟩ | ⟨names, -, h⟩)
    · exact h
    · cases names <;> cases h
  · intro h
    exact .inl ⟨h, fun c hc => absurd hc List.not_mem_nil⟩

/-! ## Entries -/

theorem unknownKeys_eq_nil {es : List (Atom × Item)} : unknownKeys es = []
    ↔ ∀ e ∈ es, e.1 = .text "encoding" ∨ e.1 = .text "ignored-keywords" := by
  rw [unknownKeys, List.filter_eq_nil_iff, List.forall_mem_map]
  simp only [Bool.not_eq_true', Bool.not_eq_false, isKnown_iff]

/-- The value of a field as `read` takes it, or a default if it is not there. -/
def valueOf {α : Type} (es : List (Atom × Item)) (name : String)
    (read : Item → Except (Stop SettingsFault) α) (default : α) : Except (Stop SettingsFault) α :=
  match field? es name with
  | some x => read x
  | none => .ok default

theorem ofEntries_eq (d : Document) (es : List (Atom × Item)) :
    ofEntries d es = (do
      checkFields (es.map Prod.fst)
      let encoding ← valueOf es "encoding" encodingOf "utf-8"
      let ignoredKeywords ← valueOf es "ignored-keywords"
        (fun x => keywordsOf (d.collection? x)) []
      .ok { encoding, ignoredKeywords }) := by
  rw [ofEntries, valueOf, valueOf]
  cases field? es "encoding" <;> cases field? es "ignored-keywords" <;> rfl

section

variable {α : Type} {es : List (Atom × Item)} {name : String}
  {read : Item → Except (Stop SettingsFault) α} {default : α}

theorem valueOf_eq_ok (hd : DistinctKeys es) {a : α} :
    valueOf es name read default = .ok a
      ↔ (∀ x, (.text name, x) ∈ es → read x = .ok a)
        ∧ ((∀ x, (.text name, x) ∉ es) → a = default) := by
  rw [valueOf]
  cases hx : field? es name with
  | none =>
      have hnone := field?_eq_none.mp hx
      constructor
      · rintro ⟨⟩
        exact ⟨fun x hmem => absurd hmem (hnone x), fun _ => rfl⟩
      · intro h
        rw [h.2 hnone]
  | some x =>
      have hmem := (field?_eq_some hd).mp hx
      constructor
      · intro h
        refine ⟨fun y hy => ?_, fun hnone => absurd hmem (hnone x)⟩
        obtain rfl : x = y := Option.some.inj (hx.symm.trans ((field?_eq_some hd).mpr hy))
        exact h
      · intro h
        exact h.1 x hmem

theorem exists_valueOf (hd : DistinctKeys es)
    (h : ∀ x, (.text name, x) ∈ es → ∃ a, read x = .ok a) :
    ∃ a, valueOf es name read default = .ok a := by
  rw [valueOf]
  cases hx : field? es name with
  | none => exact ⟨default, rfl⟩
  | some x => exact h x ((field?_eq_some hd).mp hx)

theorem valueOf_ne_escaped {e : Error} (h : ∀ x, read x ≠ .error (.escaped e)) :
    valueOf es name read default ≠ .error (.escaped e) := by
  rw [valueOf]
  cases field? es name with
  | none =>
      intro hnone
      cases hnone
  | some x => exact h x

end

/-- **Entries give settings just if they are looked up to be these.** -/
theorem ofEntries_eq_ok {d : Document} {es : List (Atom × Item)} (hd : DistinctKeys es)
    {s : Settings} : ofEntries d es = .ok s ↔ Gives d es s := by
  rw [ofEntries_eq]
  simp only [bind_eq_ok, valueOf_eq_ok hd]
  constructor
  · rintro ⟨⟨⟩, hcheck, encoding, ⟨hgiven, hdefault⟩, keywords, ⟨hlisted, hnone⟩, ⟨⟩⟩
    refine ⟨unknownKeys_eq_nil.mp (checkFields_eq_ok.mp hcheck), fun x hx => (encodingOf_eq_ok.mp (hgiven x hx)).1, ?_, hdefault,
      fun x hx => keywordsOf_eq_ok.mp (hlisted x hx), hnone⟩
    by_cases hthere : ∃ x, (.text "encoding", x) ∈ es
    · obtain ⟨x, hx⟩ := hthere
      exact (encodingOf_eq_ok.mp (hgiven x hx)).2
    · have hutf := hdefault fun x hx => hthere ⟨x, hx⟩
      show encoding ≠ ""
      rw [hutf]
      decide
  · intro h
    refine ⟨(), checkFields_eq_ok.mpr (unknownKeys_eq_nil.mpr h.known), s.encoding,
      ⟨fun x hx => ?_, h.encoding_default⟩, s.ignoredKeywords,
      ⟨fun x hx => ?_, h.keywords_default⟩, rfl⟩
    · exact encodingOf_eq_ok.mpr ⟨h.encoding x hx, h.encoding_ne⟩
    · exact keywordsOf_eq_ok.mpr (h.keywords x hx)

/-- What escapes are the errors that keep unknown keys from being named. -/
theorem ofEntries_eq_escaped {d : Document} {es : List (Atom × Item)} {e : Error} :
    ofEntries d es = .error (.escaped e) ↔ namesOf (unknownKeys es) = .error e := by
  have hencoding : valueOf es "encoding" encodingOf "utf-8" ≠ .error (.escaped e) :=
    valueOf_ne_escaped fun x => encodingOf_ne_escaped x e
  have hkeywords : valueOf es "ignored-keywords" (fun x => keywordsOf (d.collection? x)) []
      ≠ .error (.escaped e) :=
    valueOf_ne_escaped fun x => keywordsOf_ne_escaped (d.collection? x) e
  rw [ofEntries_eq, ← checkFields_eq_escaped]
  simp only [bind_eq_error]
  constructor
  · rintro (h | ⟨_, -, h | ⟨_, -, h | ⟨_, -, h⟩⟩⟩)
    · exact h
    · exact absurd h hencoding
    · exact absurd h hkeywords
    · cases h
  · exact .inl

/-- There are such settings just if every entry fits. -/
theorem exists_gives_iff {d : Document} {es : List (Atom × Item)} (hd : DistinctKeys es) :
    (∃ s, Gives d es s) ↔ ∀ e ∈ es, Fits d e := by
  constructor
  · rintro ⟨s, h⟩ ⟨k, x⟩ he
    rcases h.known _ he with rfl | rfl
    · exact .inl ⟨rfl, s.encoding, h.encoding_ne, h.encoding x he⟩
    · exact .inr ⟨rfl, s.ignoredKeywords, h.keywords x he⟩
  · intro h
    have hencoding : ∃ s, valueOf es "encoding" encodingOf "utf-8" = .ok s := by
      refine exists_valueOf hd fun x hx => ?_
      rcases h _ hx with ⟨-, s, hne, hs⟩ | ⟨hkey, -⟩
      · exact ⟨s, encodingOf_eq_ok.mpr ⟨hs, hne⟩⟩
      · exact absurd (Atom.text.inj hkey) (by decide)
    have hkeywords : ∃ ss, valueOf es "ignored-keywords"
        (fun x => keywordsOf (d.collection? x)) [] = .ok ss := by
      refine exists_valueOf hd fun x hx => ?_
      rcases h _ hx with ⟨hkey, -⟩ | ⟨-, ss, hss⟩
      · exact absurd (Atom.text.inj hkey) (by decide)
      · exact ⟨ss, keywordsOf_eq_ok.mpr hss⟩
    obtain ⟨encoding, hencoding⟩ := hencoding
    obtain ⟨ignoredKeywords, hkeywords⟩ := hkeywords
    have hknown : ∀ e ∈ es, e.1 = .text "encoding" ∨ e.1 = .text "ignored-keywords" :=
      fun e he => (h e he).imp And.left And.left
    refine ⟨{ encoding, ignoredKeywords }, (ofEntries_eq_ok hd).mp ?_⟩
    rw [ofEntries_eq, checkFields_eq_ok.mpr (unknownKeys_eq_nil.mpr hknown), hencoding,
      hkeywords]
    rfl

/-! ## Documents -/

theorem ofDocument_of_hasEntries {d : Document} {es : List (Atom × Item)}
    (h : d.HasEntries es) : ofDocument d = ofEntries d es := by
  rw [ofDocument]
  cases h with
  | empty hroot =>
      rw [if_pos hroot]
      rfl
  | mapping hes =>
      have hroot : d.root ≠ .atom .null := by
        intro hroot
        rw [hroot] at hes
        cases hes
      rw [if_neg hroot, hes]

theorem ofDocument_cases (d : Document) :
    (∃ es, d.HasEntries es) ∨ ofDocument d = .error (.promised .notMapping) := by
  by_cases hroot : d.root = .atom .null
  · exact .inl ⟨[], .empty hroot⟩
  · rw [ofDocument, if_neg hroot]
    cases hc : d.collection? d.root with
    | none => exact .inr rfl
    | some c =>
        cases c with
        | mapping m => exact .inl ⟨m.entries, .mapping hc⟩
        | _ => exact .inr rfl

/-- Of a document nothing counts but its entries, unless it is refused as a whole. -/
theorem ofDocument_eq_iff {d : Document} {r : Except (Stop SettingsFault) Settings}
    (hr : r ≠ .error (.promised .notMapping)) :
    ofDocument d = r ↔ ∃ es, d.HasEntries es ∧ ofEntries d es = r := by
  constructor
  · intro h
    rcases ofDocument_cases d with ⟨es, hes⟩ | hnone
    · exact ⟨es, hes, (ofDocument_of_hasEntries hes).symm.trans h⟩
    · exact absurd (h.symm.trans hnone) hr
  · rintro ⟨es, hes, h⟩
    exact (ofDocument_of_hasEntries hes).trans h

end Settings

theorem Yaml.Document.HasEntries.distinct {d : Document} {es : List (Atom × Item)}
    (h : d.HasEntries es) : DistinctKeys es := by
  cases h with
  | empty => exact List.Pairwise.nil
  | mapping => exact Mapping.distinct _

/-! ## Files -/

namespace Settings

section

variable (read : TextReader) (yaml : Loader) (path : Path)

/-- The file at the path holds a document with the given entries. -/
def HoldsEntries (d : Document) (es : List (Atom × Item)) : Prop :=
  ∃ text, read path "utf-8" = .ok text ∧ yaml text = .ok d ∧ d.HasEntries es

/-- The errors for which there is no provision, by their causes. -/
inductive Unforeseen : Error → Prop where
  /-- The file gives no text, for another reason than that the system refuses. -/
  | unread {e : Error} (hread : read path "utf-8" = .error e)
      (h : e.isA .system = false) : Unforeseen e
  /-- Two keys that are not known cannot be put in order. -/
  | unordered {d : Document} {es : List (Atom × Item)}
      (hfile : HoldsEntries read yaml path d es)
      (h : ¬ (unknownKeys es).Pairwise fun a b => a.comparable b = true) :
      Unforeseen unorderedKeys
  /-- The keys that are not known can be put in order, but one of them is too long to
      be written. -/
  | endless {d : Document} {es : List (Atom × Item)} {n : Int}
      (hfile : HoldsEntries read yaml path d es)
      (hordered : (unknownKeys es).Pairwise fun a b => a.comparable b = true)
      (hkey : .int n ∈ unknownKeys es)
      (h : maxDigits < (Nat.toDigits 10 n.natAbs).length) : Unforeseen endlessKey

/-- Where the file has a text, the loader gives neither a value nor the error that the
    text is no YAML. -/
def Breaks (e : Error) : Prop :=
  ∃ text, read path "utf-8" = .ok text ∧ yaml text = .error e ∧ e.isA .yaml = false

end

section

variable {read : TextReader} {yaml : Loader} {path : Path}

theorem HoldsEntries.distinct {d : Document} {es : List (Atom × Item)}
    (h : HoldsEntries read yaml path d es) : DistinctKeys es := by
  obtain ⟨-, -, -, hes⟩ := h
  exact hes.distinct

/-- What is refused as missing is refused by the system. -/
theorem isA_system_of_missing {e : Error} (h : e.isA .missing = true) :
    e.isA .system = true := by
  rw [Error.isA] at h ⊢
  revert h
  cases e.kind <;> decide

/-- An error in reading escapes unless the system refuses. -/
theorem unread_iff {e : Error} :
    (∀ c ∈ ([⟨[.missing], fun _ => .missing⟩, ⟨[.system], .unreadable⟩] :
        List (Clause SettingsFault)), ¬ c.covers e = true) ↔ e.isA .system = false := by
  simp only [List.forall_mem_cons, List.not_mem_nil, false_imp_iff, implies_true, and_true,
    Clause.covers, List.any_cons, List.any_nil, Bool.or_false, Bool.not_eq_true]
  constructor
  · exact And.right
  · intro h
    refine ⟨Bool.eq_false_iff.mpr fun hmissing => ?_, h⟩
    cases h.symm.trans (isA_system_of_missing hmissing)

/-- What a file gives is what the entries give that it holds. -/
theorem exists_ofDocument_iff {r : Except (Stop SettingsFault) Settings}
    (hr : r ≠ .error (.promised .notMapping)) :
    (∃ text d, read path "utf-8" = .ok text ∧ yaml text = .ok d ∧ ofDocument d = r)
      ↔ ∃ d es, HoldsEntries read yaml path d es ∧ ofEntries d es = r := by
  simp only [ofDocument_eq_iff hr]
  constructor
  · rintro ⟨text, d, hread, hdoc, es, hes, h⟩
    exact ⟨d, es, ⟨text, hread, hdoc, hes⟩, h⟩
  · rintro ⟨d, es, ⟨text, hread, hdoc, hes⟩, h⟩
    exact ⟨text, d, hread, hdoc, es, hes, h⟩

theorem load_eq_ok {s : Settings} : load read yaml path = .ok s
    ↔ ∃ d es, HoldsEntries read yaml path d es ∧ ofEntries d es = .ok s := by
  rw [← exists_ofDocument_iff (fun h => by cases h), load]
  simp only [ofText, bind_eq_ok, attempt_eq_ok, exists_and_left]

theorem load_eq_escaped {e : Error} : load read yaml path = .error (.escaped e)
    ↔ (read path "utf-8" = .error e ∧ e.isA .system = false)
      ∨ Breaks read yaml path e
      ∨ ∃ d es, HoldsEntries read yaml path d es ∧ ofEntries d es = .error (.escaped e) := by
  rw [← exists_ofDocument_iff (fun h => by cases h), load, bind_eq_error, attempt_eq_escaped,
    unread_iff]
  simp only [ofText, bind_eq_error, attempt_eq_escaped, attempt_eq_ok, Breaks, and_or_left,
    exists_or, exists_and_left]
  simp [Clause.covers]

theorem unforeseen_iff {e : Error} : Unforeseen read yaml path e
    ↔ (read path "utf-8" = .error e ∧ e.isA .system = false)
      ∨ ∃ d es, HoldsEntries read yaml path d es ∧ ofEntries d es = .error (.escaped e) := by
  simp only [ofEntries_eq_escaped]
  constructor
  · rintro (⟨hread, h⟩ | ⟨hfile, h⟩ | ⟨hfile, hordered, hkey, h⟩)
    · exact .inl ⟨hread, h⟩
    · exact .inr ⟨_, _, hfile, namesOf_eq_error.mpr (.inl ⟨h, rfl⟩)⟩
    · exact .inr ⟨_, _, hfile, namesOf_eq_error.mpr
        (.inr ⟨hordered, ⟨_, hkey, keyText?_eq_none.mpr ⟨_, rfl, h⟩⟩, rfl⟩)⟩
  · rintro (⟨hread, h⟩ | ⟨d, es, hfile, hnames⟩)
    · exact .unread hread h
    · rcases namesOf_eq_error.mp hnames with ⟨h, rfl⟩ | ⟨hordered, ⟨k, hk, htext⟩, rfl⟩
      · exact .unordered hfile h
      · obtain ⟨n, rfl, hlong⟩ := keyText?_eq_none.mp htext
        exact .endless hfile hordered hk hlong

end

/-- **LOADING SETTINGS ENDS IN ONE OF THREE WAYS,** however text is read and whatever
    value YAML has.

    1. It gives settings just if the file holds an empty document or a mapping in which
       every entry has a known key and a value of its type.  The settings are those
       that the entries give, and the encoding is not empty.
    2. An error escapes just if the file gives no text, though the system does not
       refuse it, or the keys that are not known cannot be named, because two of them
       cannot be put in order or one is too long, or the loader breaks down: it gives
       neither a value nor the error that the text is no YAML.
    3. In every other case there is a fault that callers are promised. -/
theorem load_outcome (read : TextReader) (yaml : Loader) (path : Path) :
    (∀ s, load read yaml path = .ok s
        ↔ ∃ d es, HoldsEntries read yaml path d es ∧ Gives d es s)
      ∧ ((∃ s, load read yaml path = .ok s)
          ↔ ∃ d es, HoldsEntries read yaml path d es ∧ ∀ e ∈ es, Fits d e)
      ∧ ∀ e, load read yaml path = .error (.escaped e)
          ↔ Unforeseen read yaml path e ∨ Breaks read yaml path e := by
  have hgives : ∀ s, load read yaml path = .ok s
      ↔ ∃ d es, HoldsEntries read yaml path d es ∧ Gives d es s := by
    intro s
    rw [load_eq_ok]
    refine exists_congr fun d => exists_congr fun es => and_congr_right fun hfile => ?_
    exact ofEntries_eq_ok hfile.distinct
  refine ⟨hgives, ?_, fun e => ?_⟩
  · simp only [hgives]
    rw [exists_comm]
    refine exists_congr fun d => ?_
    rw [exists_comm]
    refine exists_congr fun es => ?_
    rw [exists_and_left]
    exact and_congr_right fun hfile => exists_gives_iff hfile.distinct
  · rw [load_eq_escaped, unforeseen_iff, or_assoc, or_comm (b := Breaks read yaml path e)]

/-- A file of one byte, with which no text starts. -/
def strayByte : FileTree where
  files := [([".jdoc.yaml"], [0xFF])]

/-- That it is no text is an error that escapes. -/
theorem load_outcome_strayByte :
    load strayByte.reader Yaml.load (Path.ofText ".jdoc.yaml")
      = .error (.escaped
          ⟨.decoding, "'utf-8' codec can't decode byte 0xff in position 0: invalid start byte"⟩) := by
  obtain ⟨-, -, hescapes⟩ :=
    load_outcome strayByte.reader Yaml.load (Path.ofText ".jdoc.yaml")
  exact (hescapes _).mpr (.inl (.unread (by rfl) (by decide)))

end Settings

end JavaOutline
