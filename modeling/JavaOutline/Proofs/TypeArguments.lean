import Mathlib.Data.List.Chain
import JavaOutline.Proofs.LiteralContents
import JavaOutline.Proofs.Nesting

/-! # Type arguments

    A name with its type arguments is one word, however it is spaced out.  The
    reader makes this word as it goes: it puts a space on it, leaves one out, or
    takes one off again, and looks at the last character only.  `normalized` says
    what the word is as a whole: every run of blanks is one space, and after an
    opening bracket or before a comma or a closing bracket it is none.

    1. `Builds` ties the two together: what the reader has got so far, followed by
       the normal form of what it has not read yet, is the same text all along
       (`Builds.code`, then `Builds.steps_inside` for everything in brackets).
    2. In a normal form no blank stands next to another one or in a place where it
       would be left out (`Tidy`), so taking the normal form twice changes nothing
       (`normalized_normalized`) and the word is read as itself. -/

namespace JavaOutline

open Source

/-! ## The normal form -/

/-- Every run of blanks as one space. -/
def singleSpaced : List Char → List Char
  | [] => []
  | c :: cs =>
    if isSeparator c then
      if cs.head?.any isSeparator then singleSpaced cs else ' ' :: singleSpaced cs
    else c :: singleSpaced cs

/-- No space after an opening bracket, and none before a comma or a closing
    bracket; the text stands after `p`. -/
def tight (p : Char) : List Char → List Char
  | [] => []
  | c :: cs =>
    if c = ' ' ∧ (p = '<' ∨ cs.head? = some ',' ∨ cs.head? = some '>') then tight c cs
    else c :: tight c cs

/-- A text with every run of blanks as one space, which is left out after an
    opening bracket and before a comma or a closing bracket. -/
def normalized (t : List Char) : List Char := tight ' ' (singleSpaced t)

theorem ne_space {c : Char} (hc : isSeparator c = false) : c ≠ ' ' := by
  rintro rfl
  cases hc

theorem singleSpaced_letter {c : Char} (hc : isSeparator c = false) (cs : List Char) :
    singleSpaced (c :: cs) = c :: singleSpaced cs := by
  rw [singleSpaced, hc]
  rfl

/-- Which blank a run starts with does not matter. -/
theorem singleSpaced_blank {c : Char} (hc : isSeparator c = true) (cs : List Char) :
    singleSpaced (c :: cs)
      = if cs.head?.any isSeparator then singleSpaced cs else ' ' :: singleSpaced cs := by
  rw [singleSpaced, if_pos hc]

theorem tight_letter {c : Char} (hc : isSeparator c = false) (p : Char)
    (cs : List Char) : tight p (c :: cs) = c :: tight c cs := by
  rw [tight, if_neg]
  exact fun h => ne_space hc h.1

theorem head?_singleSpaced (cs : List Char) :
    (singleSpaced cs).head?.any isSeparator = cs.head?.any isSeparator := by
  induction cs with
  | nil => rfl
  | cons c cs ih =>
      cases hc : isSeparator c with
      | false => rw [singleSpaced_letter hc]; rfl
      | true =>
          rw [singleSpaced_blank hc]
          split
          · next hnext => rw [ih, hnext]; exact hc.symm
          · exact hc.symm

/-! ### The normal form is its own -/

/-- `b` may stand after `a` in a normal form. -/
def Tidy (a b : Char) : Prop :=
  (isSeparator b = true → b = ' ' ∧ isSeparator a = false ∧ a ≠ '<')
    ∧ (isSeparator a = true → b ≠ ',' ∧ b ≠ '>')

theorem isChain_singleSpaced {p : Char} {cs : List Char}
    (hp : isSeparator p = true → cs.head?.any isSeparator = false) :
    (p :: singleSpaced cs).IsChain
      fun a b => isSeparator b = true → b = ' ' ∧ isSeparator a = false := by
  induction cs generalizing p with
  | nil => exact .singleton p
  | cons c cs ih =>
      cases hc : isSeparator c with
      | false =>
          rw [singleSpaced_letter hc]
          refine .cons_cons (fun hsep => ?_) (ih fun hsep => ?_)
          · rw [hc] at hsep
            cases hsep
          · rw [hc] at hsep
            cases hsep
      | true =>
          have hp : isSeparator p = false := by
            refine Bool.eq_false_iff.mpr fun hsep => ?_
            have hnone : isSeparator c = false := hp hsep
            rw [hc] at hnone
            cases hnone
          rw [singleSpaced_blank hc]
          split
          · exact ih fun hsep => absurd hsep (by simp [hp])
          · next hnext =>
              refine .cons_cons (fun _ => ⟨rfl, hp⟩) (ih fun _ => ?_)
              exact Bool.eq_false_iff.mpr hnext

theorem isChain_tight {p : Char} {cs : List Char}
    (hcs : (p :: cs).IsChain
      fun a b => isSeparator b = true → b = ' ' ∧ isSeparator a = false)
    (hp : isSeparator p = true → cs.head? ≠ some ',' ∧ cs.head? ≠ some '>') :
    (p :: tight p cs).IsChain Tidy := by
  induction cs generalizing p with
  | nil => exact .singleton p
  | cons c cs ih =>
      obtain ⟨hpc, hcs⟩ := List.isChain_cons_cons.mp hcs
      rw [tight]
      split
      · next hdropped =>
          obtain ⟨rfl, -⟩ := hdropped
          obtain ⟨-, hletter⟩ := hpc rfl
          -- what follows the dropped space is no space, so it may follow `p`
          cases cs with
          | nil => exact .singleton p
          | cons d cs =>
              obtain ⟨hd, hcs⟩ := List.isChain_cons_cons.mp hcs
              have hd : isSeparator d = false :=
                Bool.eq_false_iff.mpr fun hsep => by cases (hd hsep).2
              have hfollows := ih (p := p)
                (.cons_cons (fun hsep => absurd hsep (by simp [hd])) hcs)
                fun hsep => absurd hsep (by simp [hletter])
              rwa [tight_letter hd] at hfollows ⊢
      · next hkept =>
          refine .cons_cons ⟨fun hsep => ?_, fun hsep => ?_⟩ (ih hcs fun hsep => ?_)
          · obtain ⟨rfl, hletter⟩ := hpc hsep
            exact ⟨rfl, hletter, fun hopen => hkept ⟨rfl, .inl hopen⟩⟩
          · simpa using hp hsep
          · obtain ⟨rfl, -⟩ := hpc hsep
            exact ⟨fun h => hkept ⟨rfl, .inr (.inl h)⟩, fun h => hkept ⟨rfl, .inr (.inr h)⟩⟩

theorem singleSpaced_of_isChain {p : Char} {cs : List Char}
    (h : (p :: cs).IsChain Tidy) : singleSpaced cs = cs := by
  induction cs generalizing p with
  | nil => rfl
  | cons c cs ih =>
      obtain ⟨hpc, hcs⟩ := List.isChain_cons_cons.mp h
      cases hc : isSeparator c with
      | false => rw [singleSpaced_letter hc, ih hcs]
      | true =>
          obtain ⟨rfl, -⟩ := hpc.1 hc
          have hnext : ¬ cs.head?.any isSeparator = true := by
            cases cs with
            | nil => exact Bool.false_ne_true
            | cons d cs =>
                intro hd
                cases ((List.isChain_cons_cons.mp hcs).1.1 hd).2.1
          rw [singleSpaced_blank hc, if_neg hnext, ih hcs]

theorem tight_of_isChain {p : Char} {cs : List Char}
    (h : (p :: cs).IsChain Tidy) : tight p cs = cs := by
  induction cs generalizing p with
  | nil => rfl
  | cons c cs ih =>
      obtain ⟨hpc, hcs⟩ := List.isChain_cons_cons.mp h
      rw [tight, if_neg, ih hcs]
      rintro ⟨rfl, hopen | hcomma | hclose⟩
      · exact (hpc.1 rfl).2.2 hopen
      · exact ((List.isChain_cons.mp hcs).1 _ hcomma).2 rfl |>.1 rfl
      · exact ((List.isChain_cons.mp hcs).1 _ hclose).2 rfl |>.2 rfl

theorem normalized_letter {c : Char} (hc : isSeparator c = false) (cs : List Char) :
    normalized (c :: cs) = c :: tight c (singleSpaced cs) := by
  rw [normalized, singleSpaced_letter hc, tight_letter hc]

/-- **Taking the normal form twice** changes nothing. -/
theorem normalized_normalized {c : Char} (hc : isSeparator c = false) (cs : List Char) :
    normalized (normalized (c :: cs)) = normalized (c :: cs) := by
  have hchain : (c :: tight c (singleSpaced cs)).IsChain Tidy := by
    refine isChain_tight (isChain_singleSpaced fun hsep => ?_) fun hsep => ?_
    · exact absurd hsep (by simp [hc])
    · exact absurd hsep (by simp [hc])
  rw [normalized_letter hc, normalized_letter hc, singleSpaced_of_isChain hchain,
    tight_of_isChain hchain]

/-! ### Brackets in the normal form -/

theorem mem_singleSpaced {c : Char} {cs : List Char} (h : c ∈ singleSpaced cs) :
    c = ' ' ∨ c ∈ cs := by
  induction cs with
  | nil => exact .inr h
  | cons d cs ih =>
      cases hd : isSeparator d with
      | false =>
          rw [singleSpaced_letter hd, List.mem_cons] at h
          rcases h with rfl | h
          · exact .inr (by simp)
          · exact (ih h).imp_right (List.mem_cons_of_mem d)
      | true =>
          rw [singleSpaced_blank hd] at h
          split at h
          · exact (ih h).imp_right (List.mem_cons_of_mem d)
          · rcases List.mem_cons.mp h with rfl | h
            · exact .inl rfl
            · exact (ih h).imp_right (List.mem_cons_of_mem d)

theorem singleSpaced_append {c : Char} (hc : isSeparator c = false) (cs ds : List Char) :
    singleSpaced (cs ++ c :: ds) = singleSpaced cs ++ c :: singleSpaced ds := by
  induction cs with
  | nil => exact singleSpaced_letter hc ds
  | cons d cs ih =>
      have hnext : (cs ++ c :: ds).head?.any isSeparator = cs.head?.any isSeparator := by
        cases cs with
        | nil => exact hc
        | cons e cs => rfl
      cases hd : isSeparator d with
      | false =>
          rw [List.cons_append, singleSpaced_letter hd, singleSpaced_letter hd, ih]
          rfl
      | true =>
          rw [List.cons_append, singleSpaced_blank hd, singleSpaced_blank hd, ih, hnext]
          split <;> rfl

/-- A blank is no bracket. -/
theorem BalancedFrom.blank_iff {c : Char} (hc : isSeparator c = true) {k : Nat}
    {cs : List Char} :
    BalancedFrom (· == '<') (· == '>') k (c :: cs)
      ↔ BalancedFrom (· == '<') (· == '>') k cs := by
  have hopen : (c == '<') = false := by
    refine beq_eq_false_iff_ne.mpr ?_
    rintro rfl
    cases hc
  have hclose : (c == '>') = false := by
    refine beq_eq_false_iff_ne.mpr ?_
    rintro rfl
    cases hc
  simp [BalancedFrom.cons_iff, hopen, hclose]

theorem BalancedFrom.singleSpaced {k : Nat} {cs : List Char}
    (h : BalancedFrom (· == '<') (· == '>') k cs) :
    BalancedFrom (· == '<') (· == '>') k (singleSpaced cs) := by
  induction cs generalizing k with
  | nil => exact h
  | cons c cs ih =>
      cases hc : isSeparator c with
      | false =>
          obtain ⟨m, hm, h⟩ := BalancedFrom.cons_iff.mp h
          rw [singleSpaced_letter hc]
          exact BalancedFrom.cons_iff.mpr ⟨m, hm, ih h⟩
      | true =>
          have h := ih ((BalancedFrom.blank_iff hc).mp h)
          rw [singleSpaced_blank hc]
          split
          · exact h
          · exact (BalancedFrom.blank_iff rfl).mpr h

/-- Leaving out spaces keeps the last bracket and the balance of those before it. -/
theorem BalancedFrom.exists_tight {k : Nat} {cs : List Char}
    (h : BalancedFrom (· == '<') (· == '>') k cs) (p : Char) :
    ∃ ds, tight p (cs ++ ['>']) = ds ++ ['>']
      ∧ BalancedFrom (· == '<') (· == '>') k ds ∧ ∀ c ∈ ds, c ∈ cs := by
  induction cs generalizing k p with
  | nil => exact ⟨[], tight_letter rfl p [], h, by simp⟩
  | cons c cs ih =>
      rw [List.cons_append, tight]
      split
      · next hdropped =>
          obtain ⟨rfl, -⟩ := hdropped
          obtain ⟨ds, heq, hds, hmem⟩ := ih ((BalancedFrom.blank_iff rfl).mp h) ' '
          exact ⟨ds, heq, hds, fun d hd => List.mem_cons_of_mem _ (hmem d hd)⟩
      · obtain ⟨m, hm, h⟩ := BalancedFrom.cons_iff.mp h
        obtain ⟨ds, heq, hds, hmem⟩ := ih h c
        refine ⟨c :: ds, by rw [heq]; rfl, BalancedFrom.cons_iff.mpr ⟨m, hm, hds⟩, ?_⟩
        exact List.forall_mem_cons.mpr
          ⟨by simp, fun d hd => List.mem_cons_of_mem _ (hmem d hd)⟩

/-! ## The reader -/

/-- `Builds cs v u`: with `u` as the word so far, its last character first, and
    `cs` still to read, the word will be `v`.  A space at the end of `u` is not
    settled yet: the next character may take it off. -/
inductive Builds (cs v : List Char) : List Char → Prop where
  | settled {p : Char} {u : List Char} (hp : isSeparator p = false)
      (hv : v = (p :: u).reverse ++ tight p (singleSpaced cs)) : Builds cs v (p :: u)
  | spaced {p : Char} {u : List Char} (hp : isSeparator p = false) (hopen : p ≠ '<')
      (hv : v = (p :: u).reverse ++ tight p (singleSpaced (' ' :: cs))) :
      Builds cs v (' ' :: p :: u)

namespace Builds

variable {c : Char} {cs v u : List Char}

/-- With nothing more to read, the word is what it will be. -/
theorem eq_of_nil (h : Builds [] v u) : v = u.reverse := by
  cases h with
  | settled _ hv =>
      rw [hv]
      exact List.append_nil _
  | @spaced p w _ hopen hv =>
      have hlast : tight p (singleSpaced [' ']) = [' '] := by
        show tight p [' '] = [' ']
        rw [tight, if_neg (by simpa using hopen)]
        rfl
      rw [hv, hlast]
      simp

/-- An ordinary character goes on the word, and settles a space before it. -/
theorem letter (hc : isSeparator c = false) (hcomma : c ≠ ',') (hclose : c ≠ '>')
    (h : Builds (c :: cs) v u) : Builds cs v (c :: u) := by
  cases h with
  | settled hp hv =>
      refine .settled hc ?_
      rw [hv, singleSpaced_letter hc, tight_letter hc]
      simp
  | @spaced p w hp hopen hv =>
      refine .settled hc ?_
      have hkept : tight p (singleSpaced (' ' :: c :: cs))
          = ' ' :: c :: tight c (singleSpaced cs) := by
        rw [singleSpaced_blank rfl, if_neg (by simp [hc]), singleSpaced_letter hc, tight,
          if_neg (by simp [hopen, hcomma, hclose]), tight_letter hc]
      rw [hv, hkept]
      simp

/-- A comma and a closing bracket take off a space before them. -/
theorem closer (hc : c = ',' ∨ c = '>') {g : Gather} (h : Builds (c :: cs) v g.word) :
    Builds cs v (c :: g.dropSpace.word) := by
  have hsep : isSeparator c = false := by
    rcases hc with rfl | rfl <;> rfl
  obtain ⟨d, a, u⟩ := g
  cases h with
  | @settled p w hp hv =>
      rw [Gather.dropSpace_of_head (p := p) rfl (ne_space hp)]
      refine .settled hsep ?_
      rw [hv, singleSpaced_letter hsep, tight_letter hsep]
      simp
  | @spaced p w hp hopen hv =>
      show Builds cs v (c :: p :: w)
      refine .settled hsep ?_
      have hdropped : tight p (singleSpaced (' ' :: c :: cs))
          = c :: tight c (singleSpaced cs) := by
        rw [singleSpaced_blank rfl, if_neg (by simp [hsep]), singleSpaced_letter hsep,
          tight, if_pos ⟨rfl, by simpa using .inr hc⟩, tight_letter hsep]
      rw [hv, hdropped]
      simp

/-- A blank is no space after an opening bracket or another blank. -/
theorem blank (hc : isSeparator c = true) {g : Gather} (hg : g.capturing = true)
    (h : Builds (c :: cs) v g.word) : Builds cs v g.argumentBlank.word := by
  obtain ⟨d, a, u⟩ := g
  cases h with
  | @settled p w hp hv =>
      by_cases hopen : p = '<'
      · subst hopen
        refine .settled rfl ?_
        rw [hv, singleSpaced_blank hc]
        split
        · rfl
        · next hnext =>
            -- the space that stands for the run is left out here
            rw [tight, if_pos ⟨rfl, .inl rfl⟩]
            rw [← head?_singleSpaced] at hnext
            cases hrest : singleSpaced cs with
            | nil => rfl
            | cons b r =>
                rw [hrest] at hnext
                have hb : isSeparator b = false := Bool.eq_false_iff.mpr hnext
                rw [tight_letter hb, tight_letter hb]
      · rw [Gather.argumentBlank_of_head (p := p) rfl (ne_space hp) hopen,
          Gather.take_capturing hg]
        refine .spaced hp hopen ?_
        rw [hv, singleSpaced_blank hc, singleSpaced_blank rfl]
  | @spaced p w hp hopen hv =>
      refine .spaced hp hopen ?_
      rw [hv, singleSpaced_blank rfl, if_pos (by simpa using hc), singleSpaced_blank hc,
        singleSpaced_blank rfl]

end Builds

/-- A character that ends no word, opens no comment and no literal. -/
def isArgumentChar (c : Char) : Bool :=
  !(['\n', '"', '\'', '/', ';', '(', ')', '{', '}'].contains c)

theorem isArgumentChar_iff {c : Char} :
    isArgumentChar c = true ↔
      (c ≠ '\n' ∧ c ≠ '"' ∧ c ≠ '\'' ∧ c ≠ '/' ∧ c ≠ ';' ∧ c ≠ '(' ∧ c ≠ ')'
        ∧ c ≠ '{' ∧ c ≠ '}') := by
  simp [isArgumentChar]

/-- Such a character that is no blank, comma or bracket either. -/
def isOuterChar (c : Char) : Bool :=
  isArgumentChar c && !isSeparator c && c != ',' && c != '<' && c != '>'

theorem isOuterChar_iff {c : Char} :
    isOuterChar c = true ↔
      isArgumentChar c = true ∧ isSeparator c = false ∧ c ≠ ',' ∧ c ≠ '<' ∧ c ≠ '>' := by
  simp [isOuterChar, and_assoc]

namespace Gather

theorem code_letter (extra : List String) (n : Nat) {c : Char} (hc : isOuterChar c = true)
    {g : Gather} (hg : g.capturing = true) :
    g.code extra n c = ({ g with word := c :: g.word }, []) := by
  have hrole : CodeRole.of c = .plain := by
    obtain ⟨hc, hsep, hcomma, hopen, hclose⟩ := isOuterChar_iff.mp hc
    have hne := isArgumentChar_iff.mp hc
    simp [CodeRole.of, hopen, hclose, hsep, hcomma, hne]
  rw [code, hrole]
  exact congrArg (·, []) (take_capturing hg c)

theorem dropSpace_take {g : Gather} (hg : g.capturing = true) (c : Char) :
    g.dropSpace.take c = { g with word := c :: g.dropSpace.word } := by
  have heq : g.dropSpace = { g with word := g.dropSpace.word } := by
    rw [dropSpace]
    split <;> rfl
  rw [heq]
  exact take_capturing (g := { g with word := g.dropSpace.word }) hg c

theorem argumentBlank_eq (g : Gather) :
    g.argumentBlank = { g with word := g.argumentBlank.word } := by
  rw [argumentBlank]
  split
  · rfl
  · rfl
  · rfl
  · rw [take]
    split <;> rfl

theorem steps_code_cons {extra : List String} {n : Nat} {g g' : Gather} {c : Char}
    (h : g.code extra n c = (g', [])) (cs : List Char) :
    g.steps extra n ((c :: cs).map .code) = g'.steps extra n (cs.map .code) := by
  have hstep : g.step extra n (.code c) = (g', []) := h
  rw [List.map_cons, steps, hstep]
  rfl

end Gather

/-- **One character.**  Inside brackets every character leaves the word that comes
    out in the end as it is; outside of them this holds of all but blanks, commas
    and closing brackets. -/
theorem Builds.code (extra : List String) (n : Nat) {c : Char} {cs v : List Char}
    (hc : isArgumentChar c = true) {g : Gather} (hg : g.capturing = true)
    (ha : isSeparator c = true ∨ c = ',' ∨ c = '>' → g.angle ≠ 0) {m : Nat}
    (hm : m + (if c == '>' then 1 else 0) = g.angle + (if c == '<' then 1 else 0))
    (h : Builds (c :: cs) v g.word) :
    ∃ u, g.code extra n c = ({ g with angle := m, word := u }, []) ∧ Builds cs v u := by
  by_cases hopen : c = '<'
  · subst hopen
    obtain rfl : m = g.angle + 1 := hm
    refine ⟨'<' :: g.word, ?_, h.letter rfl (by decide) (by decide)⟩
    show (Gather.take { g with angle := g.angle + 1 } '<', _) = _
    rw [Gather.take_capturing (g := { g with angle := g.angle + 1 }) hg]
  by_cases hclose : c = '>'
  · subst hclose
    obtain hm : m + 1 = g.angle := hm
    refine ⟨_, ?_, Builds.closer (g := { g with angle := m }) (.inr rfl) h⟩
    show (g.closeAngle.take '>', _) = _
    rw [Gather.closeAngle, if_neg (by omega), ← hm, Nat.add_sub_cancel]
    exact congrArg (·, []) (Gather.dropSpace_take (g := { g with angle := m }) hg '>')
  obtain rfl : m = g.angle := by simpa [hopen, hclose] using hm
  by_cases hsep : isSeparator c = true
  · have hrole : CodeRole.of c = .blank := by
      rw [CodeRole.of, if_neg hopen, if_neg hclose, if_pos hsep]
    refine ⟨_, ?_, h.blank hsep hg⟩
    rw [Gather.code, hrole]
    show (if g.angle = 0 then _ else _) = _
    rw [if_neg (ha (.inl hsep)), ← Gather.argumentBlank_eq]
  by_cases hcomma : c = ','
  · subst hcomma
    refine ⟨_, ?_, h.closer (.inl rfl)⟩
    show (if g.angle = 0 then _ else (g.argumentComma, _)) = _
    rw [if_neg (ha (.inr (.inl rfl))), Gather.argumentComma, if_pos hg,
      Gather.dropSpace_take hg]
  · have hsep : isSeparator c = false := Bool.eq_false_iff.mpr hsep
    refine ⟨c :: g.word, ?_, h.letter hsep hcomma hclose⟩
    exact Gather.code_letter extra n
      (isOuterChar_iff.mpr ⟨hc, hsep, hcomma, hopen, hclose⟩) hg

/-! ## A name with its arguments -/

/-- A name, and what stands between the bracket after it and the one that closes
    it, at the end of the text. -/
structure IsTypeArguments (name inner : List Char) : Prop where
  name_ne : name ≠ []
  name_chars : name.all isOuterChar = true
  inner_chars : inner.all isArgumentChar = true
  balanced : Balanced (· == '<') (· == '>') inner

/-- The name with its arguments. -/
def typeText (name inner : List Char) : List Char := name ++ '<' :: (inner ++ ['>'])

section

variable (extra : List String) (n : Nat) {cs rest v : List Char} {g : Gather}

/-- The rest of the name. -/
theorem Builds.steps_outside (hcs : ∀ c ∈ cs, isOuterChar c = true)
    (hg : g.capturing = true) (h : Builds (cs ++ rest) v g.word) :
    ∃ u, g.steps extra n (cs.map .code) = ({ g with word := u }, [])
      ∧ Builds rest v u := by
  induction cs generalizing g with
  | nil => exact ⟨g.word, rfl, h⟩
  | cons c cs ih =>
      obtain ⟨hc, hsep, hcomma, hopen, hclose⟩ := isOuterChar_iff.mp (hcs c (by simp))
      obtain ⟨u, hcode, hu⟩ := Builds.code extra n (m := g.angle) hc hg
        (by simp [hsep, hcomma, hclose]) (by simp [hopen, hclose]) h
      obtain ⟨u', hsteps, hu'⟩ := ih (g := { g with word := u })
        (fun d hd => hcs d (by simp [hd])) hg hu
      refine ⟨u', ?_, hu'⟩
      rw [Gather.steps_code_cons hcode, hsteps]

/-- Everything between two brackets. -/
theorem Builds.steps_inside {k : Nat} (hcs : ∀ c ∈ cs, isArgumentChar c = true)
    (hb : BalancedFrom (· == '<') (· == '>') k cs) (hg : g.capturing = true)
    (ha : g.angle = k + 1) (h : Builds (cs ++ rest) v g.word) :
    ∃ u, g.steps extra n (cs.map .code) = ({ g with angle := 1, word := u }, [])
      ∧ Builds rest v u := by
  induction cs generalizing g k with
  | nil =>
      obtain rfl := BalancedFrom.nil_iff.mp hb
      refine ⟨g.word, ?_, h⟩
      rw [show 1 = g.angle from ha.symm]
      rfl
  | cons c cs ih =>
      obtain ⟨m, hm, hb⟩ := BalancedFrom.cons_iff.mp hb
      obtain ⟨u, hcode, hu⟩ := Builds.code extra n (m := m + 1) (hcs c (by simp)) hg
        (by omega) (by omega) h
      obtain ⟨u', hsteps, hu'⟩ := ih (g := { g with angle := m + 1, word := u })
        (fun d hd => hcs d (by simp [hd])) hb hg rfl hu
      refine ⟨u', ?_, hu'⟩
      rw [Gather.steps_code_cons hcode, hsteps]

end

/-- Text without comments and literals is read character by character. -/
theorem Source.pieces_code {cs : List Char} (hcs : ∀ c ∈ cs, isArgumentChar c = true) :
    pieces .code cs = (cs.map .code, .code) := by
  induction cs with
  | nil => rw [pieces]; rfl
  | cons c cs ih =>
      have hne := isArgumentChar_iff.mp (hcs c (by simp))
      have hrest : ∀ d ∈ cs, isArgumentChar d = true := fun d hd => hcs d (by simp [hd])
      have hline : '\n' ∉ cs := fun hmem => (isArgumentChar_iff.mp (hrest _ hmem)).1 rfl
      rw [pieces_bite .code c hline, bite_code hne.2.2.2.1 hne.2.1 hne.2.2.1, ih hrest]
      rfl

namespace IsTypeArguments

variable {name inner : List Char}

theorem chars (h : IsTypeArguments name inner) :
    ∀ c ∈ typeText name inner, isArgumentChar c = true := by
  have hname : ∀ c ∈ name, isArgumentChar c = true := fun c hc =>
    (isOuterChar_iff.mp (List.all_eq_true.mp h.name_chars c hc)).1
  simp only [typeText, List.forall_mem_append, List.forall_mem_cons]
  exact ⟨hname, rfl, List.all_eq_true.mp h.inner_chars, rfl, by simp⟩

/-- **The word that is read** is the normal form. -/
theorem steps (h : IsTypeArguments name inner) (extra : List String) (n : Nat) :
    (Gather.mk 0 0 []).steps extra n ((typeText name inner).map .code)
      = (⟨0, 0, (normalized (typeText name inner)).reverse⟩, []) := by
  obtain ⟨hne, hname, hinner, hbalanced⟩ := h
  obtain ⟨c, name, rfl⟩ := List.exists_cons_of_ne_nil hne
  have hname := List.all_eq_true.mp hname
  have hc := hname c (by simp)
  have hsep := (isOuterChar_iff.mp hc).2.1
  have hfirst : Builds (name ++ '<' :: (inner ++ ['>']))
      (normalized (typeText (c :: name) inner)) [c] := by
    refine .settled hsep ?_
    rw [typeText, List.cons_append, normalized_letter hsep]
    rfl
  -- the name, its bracket, what stands in brackets, and the last bracket
  obtain ⟨u, hname, hu⟩ := hfirst.steps_outside extra n (g := ⟨0, 0, [c]⟩)
    (fun d hd => hname d (by simp [hd])) rfl
  obtain ⟨u, hopen, hu⟩ := hu.code extra n (g := ⟨0, 0, u⟩) (m := 1) rfl rfl
    (fun h => absurd h (by decide)) rfl
  obtain ⟨u, hinner, hu⟩ := hu.steps_inside extra n (g := ⟨0, 1, u⟩)
    (List.all_eq_true.mp hinner) (balancedFrom_zero.mpr hbalanced) rfl rfl
  obtain ⟨u, hclose, hu⟩ := hu.code extra n (g := ⟨0, 1, u⟩) (m := 0) rfl rfl
    (by simp) rfl
  rw [hu.eq_of_nil, List.reverse_reverse, typeText, List.cons_append,
    Gather.steps_code_cons (Gather.code_letter extra n hc rfl), List.map_append,
    Gather.steps_append, hname, Gather.steps_code_cons hopen, List.map_append,
    Gather.steps_append, hinner, Gather.steps_code_cons hclose]
  rfl

/-- The name stays as it is. -/
theorem tight_name {p : Char} (hname : ∀ c ∈ name, isOuterChar c = true)
    (cs : List Char) :
    tight p (singleSpaced (name ++ '<' :: cs))
      = name ++ '<' :: tight '<' (singleSpaced cs) := by
  induction name generalizing p with
  | nil =>
      rw [List.nil_append, singleSpaced_letter rfl, tight_letter rfl]
      rfl
  | cons c name ih =>
      have hsep := (isOuterChar_iff.mp (hname c (by simp))).2.1
      rw [List.cons_append, singleSpaced_letter hsep, tight_letter hsep,
        ih fun d hd => hname d (by simp [hd])]
      rfl

/-- The normal form is a name with type arguments as well. -/
theorem exists_normalized (h : IsTypeArguments name inner) :
    ∃ inner', normalized (typeText name inner) = typeText name inner'
      ∧ IsTypeArguments name inner' := by
  obtain ⟨inner', htight, hbalanced, hmem⟩ :=
    (balancedFrom_zero.mpr h.balanced).singleSpaced.exists_tight '<'
  have hafter : tight '<' (singleSpaced (inner ++ ['>'])) = inner' ++ ['>'] := by
    rw [singleSpaced_append rfl]
    exact htight
  refine ⟨inner', ?_, h.name_ne, h.name_chars, ?_, balancedFrom_zero.mp hbalanced⟩
  · rw [normalized, typeText, tight_name (List.all_eq_true.mp h.name_chars), hafter]
    rfl
  · refine List.all_eq_true.mpr fun c hc => ?_
    rcases mem_singleSpaced (hmem c hc) with rfl | hc
    · rfl
    · exact List.all_eq_true.mp h.inner_chars c hc

theorem tokenize_eq (h : IsTypeArguments name inner) :
    tokenize (String.ofList (typeText name inner)) []
      = [Token.lineNumber 1,
          ⟨.symbol, String.ofList (normalized (typeText name inner)), 1⟩,
          Token.sign 1 (typeText name inner)] := by
  obtain ⟨inner', hnormal, -⟩ := h.exists_normalized
  have hline : '\n' ∉ typeText name inner := fun hmem =>
    (isArgumentChar_iff.mp (h.chars _ hmem)).1 rfl
  have hopen : '<' ∈ normalized (typeText name inner) := by
    rw [hnormal]
    simp [typeText]
  have hword : Token.ofWord [] 1 (String.ofList (normalized (typeText name inner)))
      = ⟨.symbol, String.ofList (normalized (typeText name inner)), 1⟩ := by
    rw [Token.ofWord, not_keyword_of_mem (c := '<') (by decide +kernel) (by simpa using hopen)]
    rfl
  have hbody : LineStart.lineBody [] 1 {} (typeText name inner)
      = [⟨.symbol, String.ofList (normalized (typeText name inner)), 1⟩] := by
    have hne : (normalized (typeText name inner)).reverse.isEmpty = false := by
      rw [List.isEmpty_reverse]
      exact List.isEmpty_eq_false_iff.mpr (List.ne_nil_of_mem hopen)
    rw [LineStart.lineBody, Source.pieces_code h.chars, Gather.run_eq_steps, h.steps,
      Gather.wordToken, hne, List.reverse_reverse, hword]
    rfl
  rw [tokenize, String.toList_ofList, lines_of_not_mem hline, lineTokens, hbody]
  rfl

end IsTypeArguments

/-- **TYPE ARGUMENTS ARE ONE WORD.**  A name with type arguments, nested and spaced
    out in any way, is one word of its line, and this word is its normal form.  The
    normal form is read as itself. -/
theorem tokenize_typeArguments {name inner : List Char}
    (h : IsTypeArguments name inner) :
    tokenize (String.ofList (typeText name inner)) []
        = [Token.lineNumber 1,
            ⟨.symbol, String.ofList (normalized (typeText name inner)), 1⟩,
            Token.sign 1 (typeText name inner)]
      ∧ tokenize (String.ofList (normalized (typeText name inner))) []
        = [Token.lineNumber 1,
            ⟨.symbol, String.ofList (normalized (typeText name inner)), 1⟩,
            Token.sign 1 (normalized (typeText name inner))] := by
  refine ⟨h.tokenize_eq, ?_⟩
  obtain ⟨inner', hnormal, h'⟩ := h.exists_normalized
  have hidem : normalized (typeText name inner') = typeText name inner' := by
    obtain ⟨c, rest, rfl⟩ := List.exists_cons_of_ne_nil h.name_ne
    have hc := (isOuterChar_iff.mp (List.all_eq_true.mp h.name_chars c (by simp))).2.1
    rw [← hnormal]
    exact normalized_normalized hc _
  rw [hnormal]
  simpa only [hidem] using h'.tokenize_eq

/-- A map of lists, with blanks around every bracket and comma. -/
theorem tokenize_typeArguments_map :
    IsTypeArguments "Map".toList " K\t, List <  V > ".toList
      ∧ tokenize "Map< K\t, List <  V > >" []
        = [Token.lineNumber 1, ⟨.symbol, "Map<K, List <V>>", 1⟩,
            ⟨.sign, "Map< K\t, List <  V > >", 1⟩]
      ∧ tokenize "Map<K, List <V>>" []
        = [Token.lineNumber 1, ⟨.symbol, "Map<K, List <V>>", 1⟩,
            ⟨.sign, "Map<K, List <V>>", 1⟩] := by
  have hmap : IsTypeArguments "Map".toList " K\t, List <  V > ".toList :=
    ⟨by decide, by decide, by decide, by decide⟩
  obtain ⟨hwritten, hnormal⟩ := tokenize_typeArguments hmap
  exact ⟨hmap, hwritten, hnormal⟩

end JavaOutline
