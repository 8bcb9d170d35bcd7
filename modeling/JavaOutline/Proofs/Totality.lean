import JavaOutline.File.Read
import JavaOutline.Proofs.HiddenLines
import JavaOutline.Proofs.Standing

/-! # Every source has an outline

    A walk stops at a token that it refuses, and its steps look things up that
    might be missing: the number of a line, the way a statement ends, the kind
    that a type keyword begins, the part that a keyword is, the first part of a
    statement.  `Walk.Finds` says that nothing is missing, and `Walk.finds` that
    this is so for every walk and every token that a source can have.  A source
    therefore always has an outline, and a file has one as soon as its text can
    be read. -/

namespace JavaOutline

/-! ## What a step looks up -/

/-- Every keyword that begins a type begins a kind. -/
theorem TypeKind.exists_ofWord? {word : String}
    (h : Keyword.isTypeWord word = true) : ∃ k, ofWord? word = some k := by
  have hword : word ∈ ["class", "interface", "enum"] := List.contains_iff_mem.mp h
  simp only [List.mem_cons, List.not_mem_nil, or_false] at hword
  rcases hword with rfl | rfl | rfl
  · exact ⟨.classKind, rfl⟩
  · exact ⟨.interfaceKind, rfl⟩
  · exact ⟨.enumKind, rfl⟩

/-- Every structural keyword is a part. -/
theorem Part.exists_ofKeyword? {word : String}
    (h : Keyword.isStructural word = true) : ∃ p, ofKeyword? word = some p := by
  rw [ofKeyword?]
  split
  · exact ⟨_, rfl⟩
  split
  · exact ⟨_, rfl⟩
  split
  · exact ⟨_, rfl⟩
  · next htype haccess hmodifier =>
      -- what is left of the structural keywords are the markers
      have hmarker : Keyword.markerWords.contains word = true := by
        simpa only [Keyword.isStructural, htype, haccess, hmodifier,
          Bool.false_or] using h
      have hword : word ∈ ["package", "import", "throws", "extends", "implements"] :=
        List.contains_iff_mem.mp hmarker
      simp only [List.mem_cons, List.not_mem_nil, or_false] at hword
      rcases hword with rfl | rfl | rfl | rfl | rfl <;> exact ⟨_, rfl⟩

/-- Nothing is missing that the walk looks up for the token. -/
structure Walk.Finds (w : Walk) (t : Token) : Prop where
  number : t.kind = .lineNumber → ∃ n, Text.integer? t.text = some n
  ending : t.kind = .statementEnd → t.text = ";" ∨ t.text = "\x7b"
  typeKind : Keyword.isTypeWord t.text = true →
    ∃ k, TypeKind.ofWord? t.text = some k
  part : Keyword.isStructural t.text = true →
    ∃ p, Part.ofKeyword? t.text = some p
  /-- A statement that is not passed over has a first part. -/
  firstPart : w.flush.skips.value = false →
    ∃ p ps, w.flush.statement.parts = p :: ps

/-- A statement that is not passed over has parts. -/
theorem Walk.parts_ne_nil_of_skips {w : Walk} (h : w.skips.value = false) :
    w.statement.parts ≠ [] := by
  intro hp
  rw [skips, if_pos hp] at h
  cases h

theorem Walk.finds (w : Walk) {t : Token} (h : t.Accepted) : w.Finds t where
  number hk := Option.isSome_iff_exists.mp (h.number hk)
  ending := h.ending
  typeKind := TypeKind.exists_ofWord?
  part := Part.exists_ofKeyword?
  firstPart hskip := List.exists_cons_of_ne_nil (parts_ne_nil_of_skips hskip)

/-- Every token of a source is taken, and finds what it needs. -/
theorem Walk.run_before {source : String} (hlines : LinesFit source)
    {extra : List String} {pre post : List Token} {t : Token}
    (hts : tokenize source extra = pre ++ t :: post) (w : Walk) :
    ∃ v, (w.run pre).value = .ok v ∧ v.refusal? t = none ∧ v.Finds t := by
  have haccept := tokenize_accepted hlines extra
  rw [hts] at haccept
  have ht : t.Accepted := haccept t (by simp)
  refine ⟨w.steps pre, run_of_accepted ?_ w, ht.refusal? _, finds _ ht⟩
  intro u hu
  exact haccept u (by simp [hu])

/-! ## Files -/

/-- What becomes of an error that arises while a source file is read, if there is
    provision for it. -/
def FileFailure.ofError (path : Path) (e : Error) : FileFailure :=
  if e.isA .missing then .missing path else .unreadable path e

/-- There is provision for three kinds of error, and for what belongs to them. -/
theorem sourceText_of_error {read : TextReader} {path : Path} {charset : String}
    {e : Error} (hread : read path charset = .error e)
    (h : e.isA .system ∨ e.isA .decoding ∨ e.isA .lookup) :
    sourceText read path charset = .error (.promised (.ofError path e)) := by
  have hfirst : Clause.covers (⟨[.missing], fun _ => .missing path⟩ : Clause FileFailure) e
      = e.isA .missing := Bool.or_false _
  have hsecond : Clause.covers
      (⟨[.system, .decoding, .lookup], .unreadable path⟩ : Clause FileFailure) e = true := by
    simpa [Clause.covers] using h
  rw [sourceText, hread, attempt, Error.under_cons, Error.under_cons, hfirst, if_pos hsecond,
    FileFailure.ofError]
  split <;> rfl

theorem outlineFile_of_text {read : TextReader} {path : Path} {settings : Settings}
    {source : String} {d : Declaration}
    (hread : read path settings.encoding = .ok source)
    (hd : (outline source settings).value = .ok d) (checking : Bool) :
    outlineFile read path checking settings
      = ⟨.ok d, .reading path.text checking :: (outline source settings).log⟩ := by
  rw [outlineFile, sourceText, hread]
  apply Logged.ext
  · show (outline source settings).value.mapError _ = .ok d
    rw [hd]
    rfl
  · exact congrArg (Event.reading path.text checking :: ·) (List.append_nil _)

theorem outlineFile_of_error {read : TextReader} {path : Path} {settings : Settings}
    {e : Error} (hread : read path settings.encoding = .error e)
    (h : e.isA .system ∨ e.isA .decoding ∨ e.isA .lookup) (checking : Bool) :
    outlineFile read path checking settings
      = ⟨.error (.promised (.ofError path e)), []⟩ := by
  rw [outlineFile, sourceText_of_error hread h]
  rfl

/-- **NOTHING IS REFUSED.**  Every source has an outline: whatever comes before
    a token, the walk has got to it, takes it and finds all that it looks up.
    Let a file be read in any way that gives a text, or an error of the system, of
    decoding or of a look-up.  Then the file has the outline of that text, or there
    is the failure that callers are promised, with the path; there is no third
    case. -/
theorem outline_total (settings : Settings) :
    (∀ source, LinesFit source →
      (∃ d, (outline source settings).value = .ok d)
      ∧ ∀ ix pre t post,
          tokenize source settings.ignoredKeywords = pre ++ t :: post →
          ∃ w, (Walk.run { cursor := { lines := ix } } pre).value = .ok w
            ∧ w.refusal? t = none ∧ w.Finds t)
    ∧ ∀ (read : TextReader) (path : Path) (checking : Bool),
        (∀ source, read path settings.encoding = .ok source → LinesFit source) →
        (∀ e, read path settings.encoding = .error e →
          e.isA .system ∨ e.isA .decoding ∨ e.isA .lookup) →
        (∃ source d, read path settings.encoding = .ok source
          ∧ (outline source settings).value = .ok d
          ∧ outlineFile read path checking settings
              = ⟨.ok d,
                  .reading path.text checking :: (outline source settings).log⟩)
        ∨ ∃ e, read path settings.encoding = .error e
          ∧ outlineFile read path checking settings
              = ⟨.error (.promised
                  (if e.isA .missing then .missing path else .unreadable path e)), []⟩ := by
  constructor
  · intro source hlines
    obtain ⟨ix, hix⟩ := outline_value settings hlines
    refine ⟨⟨_, hix⟩, ?_⟩
    intro ix pre t post hts
    exact Walk.run_before hlines hts _
  · intro read path checking htext herror
    cases hread : read path settings.encoding with
    | ok source =>
        obtain ⟨ix, hix⟩ := outline_value settings (htext source hread)
        exact .inl ⟨source, _, rfl, hix, outlineFile_of_text hread hix checking⟩
    | error e =>
        exact .inr ⟨e, rfl, outlineFile_of_error hread (herror e hread) checking⟩

/-- A tree with one file, which holds a stray brace, an unclosed type and an
    unclosed comment. -/
def strayTree : FileTree where
  files := [(["A.java"], "\x7d class A ( ; /*".toUTF8.toList)]

theorem strayTree_text :
    strayTree.reader (Path.ofText "A.java") "utf-8"
      = .ok "\x7d class A ( ; /*" := by
  have htext : (strayTree.reader (Path.ofText "A.java") "utf-8").toOption
      = some "\x7d class A ( ; /*" := by decide +kernel
  cases hread : strayTree.reader (Path.ofText "A.java") "utf-8" with
  | error e =>
      rw [hread] at htext
      exact nomatch htext
  | ok source =>
      rw [hread] at htext
      exact congrArg Except.ok (Option.some.inj htext)

theorem outline_total_strayTree :
    (∃ d, outlineFile strayTree.reader (Path.ofText "A.java") true {}
      = ⟨.ok d, .reading "A.java" true
          :: (outline "\x7d class A ( ; /*" {}).log⟩)
    ∧ outlineFile strayTree.reader (Path.ofText "B.java") true {}
        = ⟨.error (.promised (.missing (Path.ofText "B.java"))), []⟩ := by
  obtain ⟨-, hfile⟩ := outline_total {}
  constructor
  · obtain ⟨source, d, hread, -, hd⟩ | ⟨e, hread, -⟩ :=
      hfile strayTree.reader (Path.ofText "A.java") true
        (fun source hread => by
          rw [strayTree_text] at hread
          cases hread
          exact linesFit_ofList (by decide))
        (fun e hread => by
          rw [strayTree_text] at hread
          exact nomatch hread)
    · cases strayTree_text.symm.trans hread
      exact ⟨d, hd⟩
    · exact nomatch strayTree_text.symm.trans hread
  · have hmissing : strayTree.reader (Path.ofText "B.java") "utf-8"
        = .error ⟨.missing, ReadFault.message "B.java" (.lookup .missing)⟩ := rfl
    obtain ⟨source, d, hread, -⟩ | ⟨e, hread, hd⟩ :=
      hfile strayTree.reader (Path.ofText "B.java") true
        (fun source hread => nomatch hmissing.symm.trans hread)
        (fun e hread => by
          cases hmissing.symm.trans hread
          exact .inl rfl)
    · exact nomatch hmissing.symm.trans hread
    · cases hmissing.symm.trans hread
      exact hd

end JavaOutline
