import JavaOutline.Proofs.CommentText
import JavaOutline.Proofs.DocSections
import JavaOutline.Proofs.Recovery

/-! # Methods with their documentation

    A doc comment before a method is read along one path and the signature along
    another; they meet where the method is recorded.  The result is put together
    from three parts: the reader gives the words of the comment
    (`Spells.docComment`), the words give the record of the comment
    (`DocSource.ofWords_eq_doc`), and the record is matched by name with what the
    signature declares (`Signature.method_doc`). -/

namespace JavaOutline

open Text

/-! ## What a record says by name -/

namespace DocEntry

/-- The parameter that a section documents. -/
def param? : DocEntry → Option Param
  | .param name ws =>
    some { name := name.text, description := joinWords (texts ws) }
  | _ => none

/-- The exception that a section documents. -/
def exception? : DocEntry → Option ExceptionDoc
  | .exception _ type ws =>
    some { type := type.text, description := joinWords (texts ws) }
  | _ => none

/-- All sections at once. -/
theorem foldl_store (es : List DocEntry) (d : Doc) :
    es.foldl store d
      = { d with
          params := d.params ++ es.filterMap param?
          exceptions := d.exceptions ++ es.filterMap exception?
          returns := ((es.reverse.findSome? returnWords?).map joinWords).getD
            d.returns } := by
  induction es generalizing d with
  | nil => simp
  | cons e es ih =>
      rw [List.foldl_cons, ih, List.reverse_cons, List.findSome?_append]
      cases e with
      | returns ws =>
          cases es.reverse.findSome? returnWords? <;> rfl
      | _ =>
          simp only [store, List.append_assoc]
          cases es.reverse.findSome? returnWords? <;> rfl

/-- The first section that is on a name, found among the records of all sections
    or among the sections themselves. -/
theorem find?_filterMap {α : Type} {record : DocEntry → Option α} {p : α → Bool}
    {text : α → String} {words? : DocEntry → Option (List String)}
    (h : ∀ e, ((record e).filter p).map text = (words? e).map joinWords)
    (es : List DocEntry) :
    (((es.filterMap record).find? p).map text).getD ""
      = joinWords ((es.findSome? words?).getD []) := by
  induction es with
  | nil => rfl
  | cons e es ih =>
      have he := h e
      rw [List.filterMap_cons, List.findSome?_cons]
      cases hr : record e with
      | none =>
          rw [hr] at he
          rw [Option.map_eq_none_iff.mp he.symm]
          exact ih
      | some a =>
          rw [hr] at he
          rw [List.find?_cons]
          cases hp : p a with
          | false =>
              rw [Option.filter_some, hp] at he
              rw [Option.map_eq_none_iff.mp he.symm]
              exact ih
          | true =>
              rw [Option.filter_some, hp] at he
              obtain ⟨ws, hws, htext⟩ := Option.map_eq_some_iff.mp he.symm
              rw [hws]
              exact htext.symm

end DocEntry

namespace DocSource

theorem paramDescription_doc (s : DocSource) (name : String) :
    paramDescription (s.entries.filterMap DocEntry.param?) name
      = joinWords (s.paramWords name) := by
  refine DocEntry.find?_filterMap (fun e => ?_) s.entries
  cases e with
  | param n ws =>
      by_cases hn : n.text = name <;>
        simp [DocEntry.param?, DocEntry.paramWords?, Option.filter_some, hn]
  | _ => rfl

theorem exceptionDescription_doc (s : DocSource) (type : String) :
    exceptionDescription (s.entries.filterMap DocEntry.exception?) type
      = joinWords (s.exceptionWords type) := by
  refine DocEntry.find?_filterMap (fun e => ?_) s.entries
  cases e with
  | exception tag t ws =>
      by_cases ht : t.text = type <;>
        simp [DocEntry.exception?, DocEntry.exceptionWords?, Option.filter_some, ht]
  | _ => rfl

theorem doc_eq (s : DocSource) :
    s.doc = { description := joinWords (texts s.description)
              params := s.entries.filterMap DocEntry.param?
              exceptions := s.entries.filterMap DocEntry.exception?
              returns := joinWords s.returnWords } := by
  rw [doc, DocEntry.foldl_store, returnWords]
  cases s.entries.reverse.findSome? DocEntry.returnWords? <;> rfl

/-- There is a text on what is returned just if there are words on it. -/
theorem joinWords_returnWords (s : DocSource) :
    joinWords s.returnWords ≠ "" ↔ s.returnWords ≠ [] := by
  have hprose : ∃ ws : List Prose, s.returnWords = texts ws := by
    rw [returnWords]
    cases h : s.entries.reverse.findSome? DocEntry.returnWords? with
    | none => exact ⟨[], rfl⟩
    | some us =>
        obtain ⟨e, -, he⟩ := List.exists_of_findSome?_eq_some h
        cases e with
        | returns ws => exact ⟨ws, (Option.some.inj he).symm⟩
        | _ => exact nomatch he
  obtain ⟨ws, hws⟩ := hprose
  rw [hws, Ne, joinWords_eq_empty_iff]
  simp [texts]

end DocSource

section

variable {extra : List String}

/-- **The documentation of a method**, matched by name. -/
theorem Signature.method_doc (g : Signature extra) (s : DocSource) :
    g.method s.doc
      = { name := g.name.text
          returnType :=
            if s.returnWords = [] then (g.returnType.getD g.name).text
            else joinWords s.returnWords
          parameters := g.params.map fun p =>
            { type := p.1.text, name := p.2.text
              description := joinWords (s.paramWords p.2.text) }
          access := g.leading.accessText
          modifiers := g.leading.modifierTexts
          exceptions := g.thrown.map fun t =>
            { type := t.text
              description := joinWords (s.exceptionWords t.text) }
          description := joinWords (texts s.description) } := by
  rw [s.doc_eq, method]
  simp only [s.paramDescription_doc, s.exceptionDescription_doc,
    s.joinWords_returnWords, ite_not]

end

/-! ## Between the braces of a type -/

/-- A text of a doc comment with the words of `s`, laid out in any way over any
    number of lines; a lone star is no word. -/
structure DocSource.Written (s : DocSource) (c : List Char) : Prop
    extends IsDocText c where
  words : (commentWords c).filter (· ≠ "*") = s.words

section

variable {extra : List String} {x : Standing}

/-- A body with a doc comment before one of its methods. -/
theorem spellsBody_documented {ls ms : List Lexeme} {x y c : List Char}
    (hx : Laid false ls x) (hc : IsDocText c) (hy : Laid false ms y)
    (hopen : "/**" ∉ extra) (hclose : "*/" ∉ extra) :
    SpellsBody extra (x ++ (docComment c ++ y))
      (ls.map (Lexeme.token extra)
        ++ (docTokens 0 ((commentWords c).map (Token.ofWord extra 0)) 0
          ++ ms.map (Lexeme.token extra))) := by
  intro t r hr hword
  obtain ⟨r1, h1⟩ := hx.spells extra (by decide) (fun _ => rfl)
    (t := docComment c ++ (y ++ '}' :: t)) (by simp [docComment]) hr fun _ => hword
  obtain ⟨r2, hword2, h2⟩ :=
    Spells.docComment hc (by decide) h1.level (y ++ '}' :: t)
  obtain ⟨r3, h3⟩ := hy.spellsBody extra t h2.level hword2
  rw [← docTokens_commentWords hopen hclose] at h2
  have h23 := h2.trans h3
  rw [← List.append_assoc] at h1
  exact ⟨r3, h1.trans h23⟩

/-- A method after its doc comment. -/
theorem takes_documented (g : Signature extra) (body : Bool) (s : DocSource)
    {c : List Char} (hc : s.Written c) (hx : x.InBody) :
    Takes x (docTokens 0 ((commentWords c).map (Token.ofWord extra 0)) 0
        ++ (g.declaration body).map (Lexeme.token extra))
      { x with
        draft := { x.draft with methods := x.draft.methods ++ [g.method s.doc] } } := by
  have hcomment := Takes.commentWords hx.constants hc.toIsDocText extra
  rw [s.ofWords_eq_doc hc.words, hx.statement] at hcomment
  have hmethod := hcomment.append (g.takes_declared body rfl hx.kind hx.constants)
  rw [Standing.next, ← hx.statement] at hmethod
  exact hmethod

end

/-! ## Whole sources -/

/-- In the header of a class or an interface. -/
structure Standing.AtHeader (x : Standing) : Prop where
  kind : x.draft.kind = some .classKind ∨ x.draft.kind = some .interfaceKind
  methods : x.draft.methods = []
  header : x.statement.isHeader = true
  kept : x.statement.flush.Kept

/-- The brace after the header opens the body. -/
theorem Standing.AtHeader.takes_brace {x : Standing} (h : x.AtHeader) :
    ∃ y, Takes x [Token.brace] y ∧ y.InBody ∧ y.draft.methods = [] := by
  obtain ⟨_, _, _, _, _, hframe⟩ := Draft.applyHeader_frame x.draft
    x.flush.statement.parts x.flush.statement.doc ""
  have hkind : (x.next x.flush.withHeader).draft.kind = x.draft.kind :=
    (congrArg Draft.kind hframe :)
  refine ⟨_, .brace_header h.kept h.header, ⟨rfl, ?_, ?_⟩, ?_⟩
  · rw [hkind]
    rcases h.kind with hk | hk <;> (rw [hk]; rfl)
  · rw [Standing.awaitsConstants, hkind]
    rcases h.kind with hk | hk <;> (rw [hk]; rfl)
  · exact (congrArg Draft.methods hframe).trans h.methods

/-- A text that ends in the header of a class or an interface: after its tokens
    every walk over a file stands there, whatever the lines of the file. -/
structure IsTypeHead (extra : List String) (p : List Char) : Prop
    extends IsHead extra p where
  header : ∃ x : Standing, x.AtHeader ∧ ∀ ix,
    (Walk.steps { cursor := { lines := ix } } (headTokens extra p)).StandsAt x

theorem TypeSource.isTypeHead {extra : List String} {s : TypeSource extra}
    {p : List Char} (h : Laid false s.head p) (hk : s.outlook.kind ≠ .enumKind) :
    IsTypeHead extra p := by
  obtain ⟨hhead, t, hheader, hkept, hstands⟩ := stands_at_header h
  refine ⟨hhead, _, ⟨?_, rfl, hheader, hkept⟩, hstands⟩
  cases hkind : s.outlook.kind with
  | classKind => exact .inl rfl
  | interfaceKind => exact .inr rfl
  | enumKind => exact absurd hkind hk

/-- **A method is recorded with what its doc comment says.**  The description and
    the text on what is returned are the joined words of their sections, and every
    declared parameter and exception has the joined words of the first section with
    its name, in declared order. -/
theorem outline_documented_method (settings : Settings) {p x c y t : List Char}
    (hp : IsTypeHead settings.ignoredKeywords p)
    (before after : List (Member settings.ignoredKeywords))
    (hx : Laid false (before.flatMap Member.lexemes) x)
    (s : DocSource) (hc : s.Written c)
    (g : Signature settings.ignoredKeywords) (body : Bool)
    (hy : Laid false (g.declaration body ++ after.flatMap Member.lexemes) y)
    (ht : Laid false [] t)
    (hopen : "/**" ∉ settings.ignoredKeywords)
    (hclose : "*/" ∉ settings.ignoredKeywords)
    (hlines : LinesFit
      (String.ofList (p ++ '{' :: (x ++ (docComment c ++ y) ++ '}' :: t)))) :
    ∃ d, (outline (String.ofList
          (p ++ '{' :: (x ++ (docComment c ++ y) ++ '}' :: t))) settings).value
        = .ok d
      ∧ d.methods.map Method.unplaced
        = before.filterMap Member.method?
          ++ [{ name := g.name.text
                returnType :=
                  if s.returnWords = [] then (g.returnType.getD g.name).text
                  else joinWords s.returnWords
                parameters := g.params.map fun p =>
                  { type := p.1.text, name := p.2.text
                    description := joinWords (s.paramWords p.2.text) }
                access := g.leading.accessText
                modifiers := g.leading.modifierTexts
                exceptions := g.thrown.map fun t =>
                  { type := t.text
                    description := joinWords (s.exceptionWords t.text) }
                description := joinWords (texts s.description) }]
          ++ after.filterMap Member.method? := by
  obtain ⟨z, hheader, hstands⟩ := hp.header
  obtain ⟨u, hbrace, hu, hmethods⟩ := hheader.takes_brace
  -- every member leaves the walk between two members, so the steps can be chained
  have hbody := ((takes_members before hu).append (takes_documented g body s hc
    ⟨hu.statement, hu.kind, hu.constants⟩)).append
    (takes_members after ⟨hu.statement, hu.kind, hu.constants⟩)
  rw [List.append_assoc, List.append_assoc, ← List.map_append] at hbody
  obtain ⟨ts, htokens, hts⟩ := tokenize_type hp.toIsHead
    (spellsBody_documented hx hc.toIsDocText hy hopen hclose) ht
  obtain ⟨ix, hix⟩ := outline_value settings hlines
  rw [htokens, Walk.steps_append] at hix
  have hend := (hbrace.cons hbody) _ ts (hstands ix) hts
  refine ⟨_, hix, ?_⟩
  -- the end of the file adds no method
  have hfinish := congrArg Declaration.methods (hend.finish
    (by rw [hu.statement]) (by rw [hu.statement]))
  rw [Draft.finish_value, Standing.final, if_neg] at hfinish
  · rw [← g.method_doc s]
    refine Eq.trans hfinish ?_
    show u.draft.methods ++ _ ++ _ ++ _ = _
    rw [hmethods, List.nil_append]
  · have hawaits := hu.constants
    simpa [Standing.awaitsConstants] using hawaits

/-- A class without members, for its header. -/
def bareClass : TypeSource [] where
  packageName := none
  imports := []
  leading := { access := none, modifiers := [] }
  name := ⟨"C", by decide, by decide⟩
  outlook := .ofClass none []
  members := []

/-- A comment with two sections on one parameter and one on a parameter that is not
    declared. -/
def stockDoc : DocSource where
  description := [⟨"Adds", by decide⟩, ⟨"stock.", by decide⟩]
  entries :=
    [.param ⟨"n", by decide⟩ [⟨"the", by decide⟩, ⟨"amount", by decide⟩],
      .exception ⟨"@throws", by decide⟩ ⟨"E", by decide⟩ [⟨"never", by decide⟩],
      .param ⟨"j", by decide⟩ [⟨"gone", by decide⟩],
      .returns [⟨"total", by decide⟩],
      .param ⟨"n", by decide⟩ [⟨"again", by decide⟩]]

/-- Its text, one section on each line. -/
def stockText : List Char :=
  ("\n * Adds stock.\n * @param n the\n   amount\n\t* @throws E never\n"
    ++ " * @param j gone @return total\n * @param n again\n ").toList

/-- A method with two parameters and two exceptions. -/
def stockMethod : Signature [] where
  leading := { access := none, modifiers := [] }
  returnType := some ⟨"int", .refl true, .refl false⟩
  name := ⟨"add", .refl true, .refl false⟩
  params :=
    [(⟨"int", .refl true, .refl false⟩, ⟨"n", .refl true, .refl false⟩),
      (⟨"long", .refl true, .refl false⟩, ⟨"k", .refl true, .refl false⟩)]
  thrown := [⟨"E", .refl true, .refl false⟩, ⟨"F", .refl true, .refl false⟩]

theorem stockDoc_written : stockDoc.Written stockText where
  opens := by decide
  lasts := by decide +kernel
  words := by decide +kernel

theorem outline_documented_stock :
    ∃ d, (outline (String.ofList ("class C ".toList ++ '{' ::
          ([' '] ++ (docComment stockText
            ++ "int add(int n, long k) throws E, F;".toList) ++ ['}']))) {}).value
        = .ok d
      ∧ d.methods.map Method.unplaced
        = [{ name := "add"
             returnType := "total"
             parameters := [{ type := "int", name := "n", description := "the amount" },
               { type := "long", name := "k" }]
             exceptions := [{ type := "E", description := "never" }, { type := "F" }]
             description := "Adds stock." }] := by
  have hhead : Laid false bareClass.head "class C ".toList :=
    .word (w := ['c', 'l', 'a', 's', 's']) (.word (by decide))
      (.gap rfl (.word (w := ['C']) (.word (by decide)) (.gap rfl .nil)))
  have hbody : Laid false (stockMethod.declaration false)
      "int add(int n, long k) throws E, F;".toList :=
    .word (w := ['i', 'n', 't']) (.word (by decide)) (.gap rfl
      (.word (w := ['a', 'd', 'd']) (.word (by decide)) (.mark (m := .openParen)
        (.word (w := ['i', 'n', 't']) (.word (by decide)) (.gap rfl
          (.word (w := ['n']) (.word (by decide)) (.mark (m := .comma) (.gap rfl
            (.word (w := ['l', 'o', 'n', 'g']) (.word (by decide)) (.gap rfl
              (.word (w := ['k']) (.word (by decide)) (.mark (m := .closeParen)
                (.gap rfl (.word (w := ['t', 'h', 'r', 'o', 'w', 's'])
                  (.word (by decide)) (.gap rfl (.word (w := ['E'])
                    (.word (by decide)) (.mark (m := .comma) (.gap rfl
                      (.word (w := ['F']) (.word (by decide))
                        (.mark (m := .semicolon) .nil))))))))))))))))))))
  obtain ⟨d, hd, hmethods⟩ := outline_documented_method {} (x := [' '])
    (TypeSource.isTypeHead hhead nofun) [] [] (.gap rfl .nil) stockDoc
    stockDoc_written stockMethod false hbody .nil nofun nofun
    (linesFit_ofList (by decide +kernel))
  exact ⟨d, hd, hmethods.trans (by decide +kernel)⟩

end JavaOutline
