import JavaOutline.Proofs.DocEffect
import JavaOutline.Proofs.InStatement
import JavaOutline.Proofs.LiteralContents

/-! # Fields that are settled

    Once a field has come to its equals sign, words that follow have no say in what
    it declares.  This holds wherever the equals sign stands, in a word of its own
    or inside one, as long as a word comes before it and no angle bracket is open.

    1. The words of a text before its first equals sign depend on nothing after it
       (`declaratorWords_argumentWords`, `declaratorWords_group`).
    2. A statement is settled from then on (`Statement.isSettled`): more words, their
       grouping into parts, and a lone word that is put aside leave what it declares
       as it is (`Statement.exists_take`).
    3. So two walks inside a type that differ in a settled statement alone stay so
       from token to token, and the end of the statement makes them one
       (`Walk.Matches.step`), unless a doc comment ends in the statement. -/

namespace JavaOutline

open Text

/-! ## Words before the first equals sign -/

/-- The number of angle brackets that are open after a text. -/
def angleDepth : Nat → List Char → Nat
  | d, [] => d
  | d, c :: cs => angleDepth (if c = '<' then d + 1 else if c = '>' then d - 1 else d) cs

/-- A space outside angle brackets parts a text. -/
theorem argumentWords_append_space {d : Nat} {u a : List Char}
    (h : angleDepth d a = 0) (b : List Char) :
    argumentWords d u (a ++ ' ' :: b) = argumentWords d u a ++ argumentWords 0 [] b := by
  fun_induction argumentWords d u a with
  | case1 d u hu =>
      rw [angleDepth] at h
      rw [List.nil_append, argumentWords, if_pos ⟨rfl, h⟩, if_pos hu, h]
      rfl
  | case2 d u hu =>
      rw [angleDepth] at h
      rw [List.nil_append, argumentWords, if_pos ⟨rfl, h⟩, if_neg hu, h]
      rfl
  | case3 d u c a hc hu ih =>
      rw [angleDepth, hc.1] at h
      rw [List.cons_append, argumentWords, if_pos hc, if_pos hu, ih h]
  | case4 d u c a hc hu ih =>
      rw [angleDepth, hc.1] at h
      rw [List.cons_append, argumentWords, if_pos hc, if_neg hu, ih h, List.cons_append]
  | case5 d u a hc ih =>
      rw [angleDepth, if_pos rfl] at h
      rw [List.cons_append, argumentWords, if_neg hc, if_pos rfl, ih h]
  | case6 d u a hc h1 ih =>
      rw [angleDepth, if_neg h1, if_pos rfl] at h
      rw [List.cons_append, argumentWords, if_neg hc, if_neg h1, if_pos rfl, ih h]
  | case7 d u c a hc h1 h2 ih =>
      rw [angleDepth, if_neg h1, if_neg h2] at h
      rw [List.cons_append, argumentWords, if_neg hc, if_neg h1, if_neg h2, ih h]

/-- A character that is no space is in one of the words. -/
theorem exists_holds_argumentWords {e : Char} (he : e ≠ ' ') (d : Nat)
    (u cs : List Char) :
    (∃ v ∈ argumentWords d u cs, holds e v = true) ↔ e ∈ u ∨ e ∈ cs := by
  have hword : ∀ u : List Char, holds e (String.ofList u.reverse) = true ↔ e ∈ u := by
    intro u
    rw [holds, String.toList_ofList, List.contains_iff_mem, List.mem_reverse]
  fun_induction argumentWords d u cs with
  | case1 d u hu => simp [List.isEmpty_iff.mp hu]
  | case2 d u hu => simp [hword]
  | case3 d u c cs hc hu ih => simp [ih, List.isEmpty_iff.mp hu, hc.1, he]
  | case4 d u c cs hc hu ih => simp [ih, hword, hc.1, he]
  | case5 d u cs hc ih => simp [ih, or_assoc, or_left_comm]
  | case6 d u cs hc h1 ih => simp [ih, or_assoc, or_left_comm]
  | case7 d u c cs hc h1 h2 ih => simp [ih, or_assoc, or_left_comm]

/-- The part of a text before its first equals sign. -/
theorem before_equals {x : String} {a b : List Char} (h : x.toList = a ++ '=' :: b)
    (ha : '=' ∉ a) : holds '=' x = true ∧ before '=' x = String.ofList a := by
  have hplain : ∀ c ∈ a, (c != '=') = true := by
    intro c hc
    rw [bne_iff_ne]
    rintro rfl
    exact ha hc
  rw [holds, before, h, List.takeWhile_append_of_pos hplain]
  refine ⟨by simp, ?_⟩
  rw [List.takeWhile_cons_of_neg (by decide), List.append_nil]

/-- A word that has come to an equals sign. -/
theorem exists_argumentWords_equals {u : List Char} (hu : '=' ∉ u) (d : Nat)
    (x b : List Char) :
    ∃ v vs, argumentWords d (x ++ '=' :: u) b = v :: vs ∧ holds '=' v = true
      ∧ before '=' v = String.ofList u.reverse := by
  have hword : ∀ x : List Char,
      holds '=' (String.ofList (x ++ '=' :: u).reverse) = true
        ∧ before '=' (String.ofList (x ++ '=' :: u).reverse) = String.ofList u.reverse := by
    intro x
    refine before_equals (b := x.reverse) ?_ (by simpa using hu)
    rw [String.toList_ofList, List.reverse_append, List.reverse_cons, List.append_assoc]
    rfl
  have hne : ∀ x : List Char, ¬ (x ++ '=' :: u).isEmpty = true := by simp
  induction b generalizing d x with
  | nil =>
      refine ⟨_, [], ?_, hword x⟩
      rw [argumentWords, if_neg (hne x)]
  | cons c b ih =>
      rw [argumentWords]
      split
      · rw [if_neg (hne x)]
        exact ⟨_, _, rfl, hword x⟩
      · split
        · exact ih (d + 1) (c :: x)
        · split
          · exact ih (d - 1) (c :: x)
          · exact ih d (c :: x)

/-- **The words before the first equals sign of a text are those of the text before
    it**, whatever follows. -/
theorem declaratorWords_argumentWords {d : Nat} {u a : List Char} (hu : '=' ∉ u)
    (ha : '=' ∉ a) (b : List Char) (ws : List String) :
    declaratorWords (argumentWords d u (a ++ '=' :: b) ++ ws) = argumentWords d u a := by
  have hlast : ∀ {d : Nat} {u : List Char}, '=' ∉ u →
      declaratorWords (argumentWords d u ('=' :: b) ++ ws)
        = if u.isEmpty then [] else [String.ofList u.reverse] := by
    intro d u hu
    have hstep : argumentWords d u ('=' :: b) = argumentWords d ('=' :: u) b := by
      rw [argumentWords, if_neg (fun h => absurd h.1 (by decide)), if_neg (by decide),
        if_neg (by decide)]
    obtain ⟨v, vs, hv, hholds, hbefore⟩ := exists_argumentWords_equals hu d [] b
    rw [List.nil_append] at hv
    have hempty : String.ofList u.reverse = "" ↔ u.isEmpty = true := by
      rw [List.isEmpty_iff, ← String.toList_inj, String.toList_ofList]
      simp
    rw [hstep, hv, List.cons_append, declaratorWords, if_pos hholds, hbefore]
    simp only [hempty]
  fun_induction argumentWords d u a with
  | case1 d u hempty => rw [List.nil_append, hlast hu, if_pos hempty]
  | case2 d u hempty => rw [List.nil_append, hlast hu, if_neg hempty]
  | case3 d u c a hc hempty ih =>
      rw [List.mem_cons, not_or] at ha
      rw [List.cons_append, argumentWords, if_pos hc, if_pos hempty]
      exact ih (by simp) ha.2
  | case4 d u c a hc hempty ih =>
      rw [List.mem_cons, not_or] at ha
      have hplain : holds '=' (String.ofList u.reverse) = false := by
        rw [holds, String.toList_ofList]
        simpa using hu
      rw [List.cons_append, argumentWords, if_pos hc, if_neg hempty, List.cons_append,
        declaratorWords, hplain, if_neg Bool.false_ne_true, ih (by simp) ha.2]
  | case5 d u a hc ih =>
      rw [List.mem_cons, not_or] at ha
      rw [List.cons_append, argumentWords, if_neg hc, if_pos rfl]
      exact ih (by simp [hu]) ha.2
  | case6 d u a hc h1 ih =>
      rw [List.mem_cons, not_or] at ha
      rw [List.cons_append, argumentWords, if_neg hc, if_neg h1, if_pos rfl]
      exact ih (by simp [hu]) ha.2
  | case7 d u c a hc h1 h2 ih =>
      rw [List.mem_cons, not_or] at ha
      rw [List.cons_append, argumentWords, if_neg hc, if_neg h1, if_neg h2]
      exact ih (by simp [hu, ha.1]) ha.2

theorem declaratorWords_append {ws : List String} (h : ∀ w ∈ ws, holds '=' w = false)
    (us : List String) : declaratorWords (ws ++ us) = ws ++ declaratorWords us := by
  induction ws with
  | nil => rfl
  | cons w ws ih =>
      rw [List.cons_append, declaratorWords, h w (by simp), if_neg Bool.false_ne_true,
        ih fun v hv => h v (by simp [hv])]
      rfl

theorem declaratorWords_append_of_holds {ws : List String}
    (h : ∃ w ∈ ws, holds '=' w = true) (us : List String) :
    declaratorWords (ws ++ us) = declaratorWords ws := by
  induction ws with
  | nil => simp at h
  | cons w ws ih =>
      rw [List.cons_append, declaratorWords, declaratorWords]
      split
      · rfl
      · next hw =>
          obtain ⟨v, hv, hholds⟩ := h
          rcases List.mem_cons.mp hv with rfl | hv
          · exact absurd hholds hw
          · rw [ih ⟨v, hv, hholds⟩]

/-! ## Groups of words with an equals sign -/

theorem toList_joinWords_append {ws : List String} (h : ws ≠ []) (v : String)
    (vs : List String) :
    (joinWords (ws ++ v :: vs)).toList
      = (joinWords ws).toList ++ ' ' :: (joinWords (v :: vs)).toList := by
  induction ws with
  | nil => exact absurd rfl h
  | cons w ws ih =>
      cases ws with
      | nil => exact toList_joinWords_cons_cons w v vs
      | cons x ws =>
          rw [List.cons_append, List.cons_append, toList_joinWords_cons_cons,
            toList_joinWords_cons_cons, ← List.cons_append, ih (List.cons_ne_nil x ws),
            List.append_assoc]
          rfl

/-- A character that is no space is in a word if and only if it is in all of them
    joined. -/
theorem mem_joinWords {e : Char} (he : e ≠ ' ') (ws : List String) :
    e ∈ (joinWords ws).toList ↔ ∃ w ∈ ws, holds e w = true := by
  induction ws with
  | nil => simp [joinWords, joinWith]
  | cons w ws ih =>
      cases ws with
      | nil => simp [joinWords, joinWith, holds]
      | cons v ws =>
          rw [toList_joinWords_cons_cons]
          simp [ih, he, holds]

theorem exists_holds_splitWords {e : Char} (he : e ≠ ' ') (text : String) :
    (∃ w ∈ splitWords text, holds e w = true) ↔ e ∈ text.toList := by
  rw [splitWords, exists_holds_argumentWords he]
  simp

/-- The last word of a group is not joined with the others. -/
theorem groupWords_concat {ws : List String} (h : ws ≠ []) (v : String) :
    groupWords (ws ++ [v]) = splitWords (joinWords ws) ++ splitWords v := by
  obtain ⟨w, ws, rfl⟩ := List.exists_cons_of_ne_nil h
  obtain ⟨x, xs, hx⟩ := List.exists_cons_of_ne_nil (List.append_ne_nil_of_right_ne_nil ws
    (List.cons_ne_nil v []))
  have hlast : (x :: xs).getLast (List.cons_ne_nil x xs) = v := by
    simp [← hx]
  have hinit : (w :: x :: xs).dropLast = w :: ws := by
    rw [← hx, ← List.cons_append, List.dropLast_concat]
  rw [List.cons_append, hx, groupWords, Part.ofWords, hinit, hlast]
  simp

/-- A text around its first equals sign. -/
theorem toList_of_holds_equals {x : String} (hx : holds '=' x = true) :
    x.toList = (before '=' x).toList ++ '=' :: (after '=' x).toList
      ∧ '=' ∉ (before '=' x).toList := by
  rw [holds, List.contains_iff_mem] at hx
  rw [before, after, String.toList_ofList, String.toList_ofList]
  generalize x.toList = cs at hx ⊢
  induction cs with
  | nil => exact absurd hx List.not_mem_nil
  | cons c cs ih =>
      by_cases hc : c = '='
      · subst hc
        exact ⟨rfl, List.not_mem_nil⟩
      · have hcs : '=' ∈ cs := by
          rcases List.mem_cons.mp hx with h | h
          · exact absurd h.symm hc
          · exact h
        have hne : (c != '=') = true := bne_iff_ne.mpr hc
        obtain ⟨hsplit, hbefore⟩ := ih hcs
        have htake : (c :: cs).takeWhile (fun d => d != '=')
            = c :: cs.takeWhile (fun d => d != '=') := List.takeWhile_cons_of_pos hne
        have hdrop : (c :: cs).dropWhile (fun d => d != '=')
            = cs.dropWhile (fun d => d != '=') := List.dropWhile_cons_of_pos hne
        rw [htake, hdrop, List.cons_append, ← hsplit, List.mem_cons, not_or]
        exact ⟨rfl, fun h => hc h.symm, hbefore⟩

/-- **What a group declares when a word `x` of it has an equals sign**: the words
    before `x`, and the part of `x` before the equals sign. -/
theorem declaratorWords_group {ws pre us : List String} {x : String}
    (hws : ∀ w ∈ ws, holds '=' w = false) (hne : pre ≠ [])
    (hpre : ∀ w ∈ pre, holds '=' w = false) (hx : holds '=' x = true)
    (hdepth : angleDepth 0 (joinWords pre).toList = 0) :
    declaratorWords (ws ++ groupWords (pre ++ x :: us))
      = ws ++ (splitWords (joinWords pre) ++ splitWords (before '=' x)) := by
  have hplain : ∀ w ∈ splitWords (joinWords pre), holds '=' w = false := by
    intro w hw
    refine Bool.eq_false_iff.mpr fun hholds => ?_
    obtain ⟨v, hv, hholds'⟩ := (mem_joinWords (by decide) pre).mp
      ((exists_holds_splitWords (by decide) _).mp ⟨w, hw, hholds⟩)
    exact Bool.false_ne_true ((hpre v hv).symm.trans hholds')
  obtain ⟨hsplit, hbefore⟩ := toList_of_holds_equals hx
  -- the text of `x` and whatever is joined to it
  have htail : ∀ (b : List Char) (vs : List String),
      declaratorWords (argumentWords 0 [] (x.toList ++ b) ++ vs)
        = splitWords (before '=' x) := by
    intro b vs
    rw [hsplit, List.append_assoc, List.cons_append]
    exact declaratorWords_argumentWords (by simp) hbefore _ vs
  rw [declaratorWords_append hws]
  rcases List.eq_nil_or_concat us with rfl | ⟨us, y, rfl⟩
  · have hlast := htail [] []
    rw [List.append_nil, List.append_nil] at hlast
    rw [groupWords_concat hne, declaratorWords_append hplain, splitWords, splitWords,
      hlast]
  · obtain ⟨b, hb⟩ : ∃ b, (joinWords (x :: us)).toList = x.toList ++ b := by
      cases us with
      | nil => exact ⟨[], (List.append_nil _).symm⟩
      | cons u us => exact ⟨_, toList_joinWords_cons_cons x u us⟩
    have hgroup : groupWords (pre ++ x :: (us ++ [y]))
        = splitWords (joinWords pre) ++ (argumentWords 0 [] (x.toList ++ b) ++ splitWords y) := by
      rw [← List.cons_append, ← List.append_assoc,
        groupWords_concat (List.append_ne_nil_of_left_ne_nil hne _), splitWords,
        toList_joinWords_append hne, hb, argumentWords_append_space hdepth,
        List.append_assoc]
      rfl
    rw [List.concat_eq_append, hgroup, declaratorWords_append hplain, htail]

/-! ## Settled statements -/

/-- Keywords are no words of a field. -/
theorem Part.kind_of_ofKeyword? {w : String} {p : Part} (h : ofKeyword? w = some p) :
    p.kind ≠ .typeName ∧ p.kind ≠ .identifier := by
  have hmarker : ∀ {kind : PartKind}, marker? w = some kind →
      kind ≠ .typeName ∧ kind ≠ .identifier := by
    grind [marker?]
  rw [ofKeyword?] at h
  split at h
  · cases h
    simp
  · split at h
    · cases h
      simp
    · split at h
      · cases h
        simp
      · obtain ⟨kind, hkind, rfl⟩ := Option.map_eq_some_iff.mp h
        exact hmarker hkind

namespace Statement

variable {s : Statement}

/-- The statement has come to the equals sign of a field.  One of its parts has it,
    or one of the pending words, after another word and outside angle brackets. -/
inductive Settled (s : Statement) : Prop where
  | parts (h : ∃ w ∈ (fieldReading s.parts).words, holds '=' w = true)
  | words (pre : List String) (x : String) (us : List String)
      (split : s.words = pre ++ x :: us) (ne : pre ≠ [])
      (plain : ∀ w ∈ (fieldReading s.parts).words ++ pre, holds '=' w = false)
      (equals : holds '=' x = true)
      (closed : angleDepth 0 (joinWords pre).toList = 0)

/-- The field that the statement declares so far, its words cut off at the equals
    sign. -/
def declared (s : Statement) : FieldReading :=
  { fieldReading s.flush.parts with
    words := declaratorWords (fieldReading s.flush.parts).words }

theorem declared_eq (s : Statement) :
    s.declared = { fieldReading s.parts with
      words := declaratorWords ((fieldReading s.parts).words ++ groupWords s.words) } := by
  rw [declared, show fieldReading s.flush.parts = _ from fieldReading_group s.parts s.words]

/-- If a part has the equals sign, the pending words do not matter. -/
theorem declared_of_parts (h : ∃ w ∈ (fieldReading s.parts).words, holds '=' w = true) :
    s.declared = { fieldReading s.parts with
      words := declaratorWords (fieldReading s.parts).words } := by
  rw [declared_eq, declaratorWords_append_of_holds h]

/-- If a word has it, only the words up to there matter. -/
theorem declared_of_words {pre us : List String} {x : String}
    (split : s.words = pre ++ x :: us) (ne : pre ≠ [])
    (plain : ∀ w ∈ (fieldReading s.parts).words ++ pre, holds '=' w = false)
    (equals : holds '=' x = true) (closed : angleDepth 0 (joinWords pre).toList = 0) :
    s.declared = { fieldReading s.parts with
      words := (fieldReading s.parts).words
        ++ (splitWords (joinWords pre) ++ splitWords (before '=' x)) } := by
  rw [declared_eq, split, declaratorWords_group
    (fun w hw => plain w (List.mem_append_left _ hw)) ne
    (fun w hw => plain w (List.mem_append_right _ hw)) equals closed]

/-- More words do not matter. -/
theorem Settled.addWord (h : s.Settled) (w : String) :
    (s.addWord w).Settled ∧ (s.addWord w).declared = s.declared := by
  cases h with
  | parts h =>
      exact ⟨.parts h, (declared_of_parts (s := s.addWord w) h).trans
        (declared_of_parts h).symm⟩
  | words pre x us split ne plain equals closed =>
      have hsplit : (s.addWord w).words = pre ++ x :: (us ++ [w]) := by
        show s.words ++ [w] = _
        rw [split, List.append_assoc]
        rfl
      exact ⟨.words pre x (us ++ [w]) hsplit ne plain equals closed,
        (declared_of_words hsplit ne plain equals closed).trans
          (declared_of_words split ne plain equals closed).symm⟩

/-- A word that has the equals sign may go on in any way after it. -/
theorem Settled.addWord_congr {w v : String} (h : (s.addWord w).Settled)
    (heq : holds '=' w = true → holds '=' v = true ∧ before '=' v = before '=' w) :
    (s.addWord v).Settled ∧ (s.addWord v).declared = (s.addWord w).declared := by
  have hof : s.Settled → (s.addWord v).Settled
      ∧ (s.addWord v).declared = (s.addWord w).declared := by
    intro hs
    exact ⟨(hs.addWord v).1, (hs.addWord v).2.trans (hs.addWord w).2.symm⟩
  cases h with
  | parts h => exact hof (.parts h)
  | words pre x us split ne plain equals closed =>
      have hwords : s.words ++ [w] = pre ++ x :: us := split
      rcases List.eq_nil_or_concat us with rfl | ⟨us, y, rfl⟩
      · -- the word itself has the equals sign
        obtain ⟨rfl, hlast⟩ := List.append_inj' hwords rfl
        obtain rfl : w = x := (List.cons.inj hlast).1
        obtain ⟨hv, hbefore⟩ := heq equals
        have hsplit : (s.addWord v).words = s.words ++ v :: [] := rfl
        refine ⟨.words s.words v [] hsplit ne plain hv closed, ?_⟩
        rw [declared_of_words hsplit ne plain hv closed,
          declared_of_words split ne plain equals closed, hbefore]
        rfl
      · rw [List.concat_eq_append, ← List.cons_append, ← List.append_assoc] at hwords
        exact hof (.words pre x us (List.append_inj' hwords rfl).1 ne plain equals closed)

/-- A settled statement has its equals sign in a part, once its words are parts. -/
theorem Settled.flush_holds (h : s.Settled) :
    ∃ w ∈ (fieldReading s.flush.parts).words, holds '=' w = true := by
  rw [show fieldReading s.flush.parts = _ from fieldReading_group s.parts s.words]
  cases h with
  | parts h =>
      obtain ⟨w, hw, hholds⟩ := h
      exact ⟨w, List.mem_append_left _ hw, hholds⟩
  | words pre x us split ne plain equals closed =>
      obtain ⟨w, hw, hholds⟩ :
          ∃ w ∈ groupWords (pre ++ x :: us), holds '=' w = true := by
        rcases List.eq_nil_or_concat us with rfl | ⟨us, y, rfl⟩
        · have hx := (exists_holds_splitWords (by decide) x).mpr
            (List.contains_iff_mem.mp equals)
          obtain ⟨w, hw, hholds⟩ := hx
          rw [groupWords_concat ne]
          exact ⟨w, List.mem_append_right _ hw, hholds⟩
        · obtain ⟨w, hw, hholds⟩ := (exists_holds_splitWords (by decide) _).mpr
            ((mem_joinWords (by decide) (pre ++ x :: us)).mpr ⟨x, by simp, equals⟩)
          rw [List.concat_eq_append, ← List.cons_append, ← List.append_assoc,
            groupWords_concat (List.append_ne_nil_of_left_ne_nil ne _)]
          exact ⟨w, List.mem_append_left _ hw, hholds⟩
      rw [split]
      exact ⟨w, List.mem_append_right _ hw, hholds⟩

theorem Settled.flush (h : s.Settled) :
    s.flush.Settled ∧ s.flush.declared = s.declared := by
  have hflush : s.flush.flush.parts = s.flush.parts := List.append_nil _
  refine ⟨.parts h.flush_holds, ?_⟩
  rw [declared, hflush]
  rfl

/-- A part that is no word says the same about the field wherever it stands. -/
theorem Settled.add (h : s.Settled) {p : Part} (hp : p.kind ≠ .typeName)
    (hp' : p.kind ≠ .identifier) :
    (s.flush.add p).Settled
      ∧ (s.flush.add p).declared = (s.declared.step p).value := by
  have hreading : fieldReading (s.flush.add p).parts
      = ((fieldReading s.flush.parts).step p).value := fieldReading_append s.flush.parts [p]
  have hstep : ∀ r : FieldReading, (r.step p).value.words = r.words
      ∧ { (r.step p).value with words := declaratorWords (r.step p).value.words }
        = (FieldReading.step { r with words := declaratorWords r.words } p).value := by
    intro r
    simp only [FieldReading.step]
    cases hk : p.kind with
    | typeName => exact absurd hk hp
    | identifier => exact absurd hk hp'
    | _ => exact ⟨rfl, rfl⟩
  have hflush : (s.flush.add p).flush.parts = (s.flush.add p).parts := List.append_nil _
  refine ⟨.parts ?_, ?_⟩
  · rw [hreading, (hstep _).1]
    exact h.flush_holds
  · rw [declared, hflush, hreading, (hstep _).2]
    rfl

theorem Settled.flush_parts_ne_nil (h : s.Settled) : s.flush.parts ≠ [] := by
  intro hnil
  obtain ⟨word, hword, -⟩ := h.flush_holds
  rw [hnil] at hword
  exact absurd hword List.not_mem_nil

/-- A lone word does not have the equals sign, so it can be put aside. -/
theorem Settled.putAside (h : s.Settled) {word : String} (hlone : s.words = [word]) :
    Settled { s with pendingName := word, words := [] }
      ∧ declared { s with pendingName := word, words := [] } = s.declared := by
  cases h with
  | parts h =>
      exact ⟨.parts h, (declared_of_parts
        (s := { s with pendingName := word, words := [] }) h).trans
        (declared_of_parts h).symm⟩
  | words pre x us split ne plain equals closed =>
      rw [hlone] at split
      obtain ⟨y, pre, rfl⟩ := List.exists_cons_of_ne_nil ne
      exact absurd (List.cons.inj split).2 (by simp)

/-- The statement is a field whose declaration is complete. -/
structure DeclaresField (s : Statement) : Prop where
  settled : s.Settled
  initializer : s.hasInitializer = true
  params : s.hasParams = false
  header : s.isHeader = false

/-- All that counts about such a statement: what it declares, and whether it is
    passed over. -/
def verdict (s : Statement) : FieldReading × Bool × Bool :=
  (s.declared, s.isNested, s.isExecutable)

theorem DeclaresField.flush (h : s.DeclaresField) :
    s.flush.DeclaresField ∧ s.flush.verdict = s.verdict := by
  obtain ⟨hsettled, hdeclared⟩ := h.settled.flush
  refine ⟨⟨hsettled, h.initializer, h.params, h.header⟩, ?_⟩
  rw [verdict, hdeclared]
  rfl

theorem DeclaresField.addWord (h : s.DeclaresField) (w : String) :
    (s.addWord w).DeclaresField ∧ (s.addWord w).verdict = s.verdict := by
  obtain ⟨hsettled, hdeclared⟩ := h.settled.addWord w
  refine ⟨⟨hsettled, ?_, h.params, h.header⟩, ?_⟩
  · show (s.hasInitializer || holds '=' w) = true
    rw [h.initializer, Bool.true_or]
  · rw [verdict, hdeclared]
    rfl

theorem DeclaresField.addWord_congr {w v : String} (h : (s.addWord w).DeclaresField)
    (heq : holds '=' w = true → holds '=' v = true ∧ before '=' v = before '=' w) :
    (s.addWord v).DeclaresField ∧ (s.addWord v).verdict = (s.addWord w).verdict := by
  obtain ⟨hsettled, hdeclared⟩ := h.settled.addWord_congr heq
  refine ⟨⟨hsettled, ?_, h.params, h.header⟩, ?_⟩
  · have hinit : (s.hasInitializer || holds '=' w) = true := h.initializer
    show (s.hasInitializer || holds '=' v) = true
    rw [Bool.or_eq_true] at hinit ⊢
    exact hinit.imp_right fun hw => (heq hw).1
  · rw [verdict, hdeclared]
    rfl

theorem DeclaresField.flagged (h : s.DeclaresField) (nested executable : Bool) :
    DeclaresField { s with isNested := nested, isExecutable := executable } := by
  refine ⟨?_, h.initializer, h.params, h.header⟩
  cases h.settled with
  | parts h => exact .parts h
  | words pre x us split ne plain equals closed =>
      exact .words pre x us split ne plain equals closed

theorem exists_take_keyword {t : Token} (hk : t.kind = .keyword) :
    ∃ F : FieldReading × Bool × Bool → FieldReading × Bool × Bool,
      ∀ s : Statement, s.DeclaresField →
        (s.take t).DeclaresField ∧ (s.take t).verdict = F s.verdict := by
  have hflush : ∃ F : FieldReading × Bool × Bool → FieldReading × Bool × Bool,
      ∀ s : Statement, s.DeclaresField →
        s.flush.DeclaresField ∧ s.flush.verdict = F s.verdict :=
    ⟨id, fun s h => h.flush⟩
  simp only [take_keyword hk]
  split
  · refine ⟨fun x => (x.1, true, x.2.2), fun s h => ?_⟩
    obtain ⟨hfield, hverdict⟩ := h.flush
    refine ⟨hfield.flagged true s.isExecutable, ?_⟩
    rw [← hverdict]
    rfl
  split
  · cases hp : Part.ofKeyword? t.text with
    | none => exact hflush
    | some p =>
        obtain ⟨hkind, hkind'⟩ := Part.kind_of_ofKeyword? hp
        refine ⟨fun x => ((x.1.step p).value, x.2), fun s h => ?_⟩
        obtain ⟨hsettled, hdeclared⟩ := h.settled.add hkind hkind'
        refine ⟨⟨hsettled, h.initializer, h.params, h.header⟩, ?_⟩
        show verdict (s.flush.add p) = _
        rw [verdict, hdeclared]
        rfl
  split
  · exact hflush
  split
  · refine ⟨fun x => (x.1, x.2.1, true), fun s h => ?_⟩
    obtain ⟨hfield, hverdict⟩ := h.flush
    refine ⟨hfield.flagged s.isNested true, ?_⟩
    rw [← hverdict]
    rfl
  · exact hflush

/-- **A token leaves such a statement one, and does the same to what counts about
    it.** -/
theorem exists_take (t : Token) :
    ∃ F : FieldReading × Bool × Bool → FieldReading × Bool × Bool,
      ∀ s : Statement, s.DeclaresField →
        (s.take t).DeclaresField ∧ (s.take t).verdict = F s.verdict := by
  by_cases hk : t.kind = .keyword
  · exact exists_take_keyword hk
  simp only [take]
  cases hkind : t.kind with
  | keyword => exact absurd hkind hk
  | symbol =>
      dsimp only
      split
      · exact ⟨id, fun s h => ⟨h, rfl⟩⟩
      · exact ⟨id, fun s h => h.addWord t.text⟩
  | join => exact ⟨id, fun s h => h.flush⟩
  | paramStart =>
      refine ⟨id, fun s h => ?_⟩
      obtain ⟨hfield, hverdict⟩ := h.flush
      have hparams : (s.hasParams || !s.hasInitializer) = s.flush.hasParams := by
        rw [h.initializer, Bool.not_true, Bool.or_false]
        rfl
      rw [hparams]
      exact ⟨hfield, hverdict⟩
  | paramEnd =>
      refine ⟨id, fun s h => ?_⟩
      dsimp only
      split
      · next word hlone =>
          obtain ⟨hsettled, hdeclared⟩ := h.settled.putAside hlone
          refine ⟨⟨hsettled, h.initializer, h.params, h.header⟩, ?_⟩
          rw [verdict, hdeclared]
          rfl
      · exact h.flush
  | statementEnd | lineNumber | sign => exact ⟨id, fun s h => ⟨h, rfl⟩⟩

end Statement

/-! ## Tokens inside a statement -/

namespace Walk

variable {w v : Walk} {t : Token}

/-- The walk with another statement. -/
def withStatement (s : Statement) (w : Walk) : Walk := { w with statement := s }

end Walk

/-- Two moves do the same, except that they may change the statement differently. -/
inductive Move.Alike : Move → Move → Prop where
  | same (m : Move) : Alike m m
  | gather {c c' : Change} (marks : c'.marks = c.marks) (a : Annotation)
      (events : List Event) : Alike (.gather c a events) (.gather c' a events)

namespace Walk

namespace View

variable {v : View}

theorem paramEnd_code (hs : v.span = .code) :
    ∃ c, c.marks = false ∧ v.paramEnd = .gather c v.annotation [] := by
  rw [paramEnd, if_neg (not_not_intro hs)]
  split
  · exact ⟨_, rfl, rfl⟩
  · exact ⟨_, rfl, rfl⟩

theorem alike_plainMove (hdoc : v.span ≠ .doc) (hend : t.kind ≠ .statementEnd)
    (s : Statement) :
    (v.plainMove t).Alike (plainMove { v with statement := s } t) := by
  rw [plainMove, plainMove]
  cases hk : t.kind with
  | symbol =>
      have hclose : closeComment { v with statement := s } = v.closeComment := by
        rw [closeComment, closeComment]
        cases hs : v.span with
        | doc => exact absurd hs hdoc
        | blockComment | code | lineComment => rfl
      show (v.symbol t.text).Alike (symbol { v with statement := s } t.text)
      rw [symbol, symbol, hclose]
      exact .same _
  | paramEnd =>
      show v.paramEnd.Alike (paramEnd { v with statement := s })
      by_cases hs : v.span = .code
      · obtain ⟨c, hc, hv⟩ := paramEnd_code hs
        obtain ⟨c', hc', hu⟩ := paramEnd_code (v := { v with statement := s }) hs
        rw [hv, hu]
        exact .gather (hc'.trans hc.symm) _ _
      · rw [paramEnd, paramEnd, if_pos hs, if_pos hs]
        exact .same _
  | statementEnd => exact absurd hk hend
  | _ => exact .same _

/-- Outside doc comments, and unless it ends the statement, a token makes much the
    same move whatever the statement: only a closing parenthesis looks at it. -/
theorem alike_move (hdoc : v.span ≠ .doc) (hend : t.kind ≠ .statementEnd)
    (s : Statement) : (v.move t).Alike (move { v with statement := s } t) := by
  rw [move, move]
  have hplain := alike_plainMove hdoc hend s
  revert hplain
  cases v.annotation with
  | absent | named => exact id
  | arguments d =>
      intro hplain
      dsimp only
      split
      · exact hplain
      · exact .same _

end View

end Walk

/-! ## The end of a field -/

/-- Statements that declare the same have the same field. -/
theorem Field.ofParts?_congr {s t : Statement} (h : t.declared = s.declared) (line : Int)
    (signature : String) :
    (Field.ofParts? t.flush.parts line signature).value
      = (Field.ofParts? s.flush.parts line signature).value := by
  have haccess : (fieldReading t.flush.parts).access = (fieldReading s.flush.parts).access :=
    (congrArg FieldReading.access h :)
  have hmodifiers : (fieldReading t.flush.parts).modifiers
      = (fieldReading s.flush.parts).modifiers := (congrArg FieldReading.modifiers h :)
  have hwords : declaratorWords (fieldReading t.flush.parts).words
      = declaratorWords (fieldReading s.flush.parts).words := congrArg FieldReading.words h
  rw [fieldReading, fieldReading] at haccess hmodifiers hwords
  rw [Field.ofParts?, Field.ofParts?, Logged.value_bind, Logged.value_bind, haccess,
    hmodifiers, hwords]

namespace Walk

variable {w v : Walk} {t : Token}

/-- The walk after the end of a field, unless the statement is passed over. -/
def afterField (w : Walk) (s : Statement) : Walk :=
  { w with
    draft := if s.isNested || s.isExecutable then w.draft
      else { w.draft with
        fields := w.draft.fields ++ (Field.ofParts? s.flush.parts w.cursor.startLine
          w.cursor.signature).value.toList }
    cursor := w.cursor.clear
    statement := {} }

theorem afterField_congr {s s' : Statement} (h : s'.verdict = s.verdict) (w : Walk) :
    w.afterField s' = w.afterField s := by
  have hdeclared : s'.declared = s.declared := congrArg Prod.fst h
  have hnested : s'.isNested = s.isNested := congrArg (·.2.1) h
  have hexecutable : s'.isExecutable = s.isExecutable := congrArg (·.2.2) h
  rw [afterField, afterField, hnested, hexecutable, Field.ofParts?_congr hdeclared]

/-- A field ends at a semicolon and at an opening brace alike. -/
theorem statementEnd_field (hin : w.inType = true) (hwait : w.awaitsConstants = false)
    (hspan : w.span = .code) {s : Statement} (h : s.DeclaresField) (text : String)
    (line : Int) :
    ((w.withStatement s).statementEnd text line).value = w.afterField s := by
  let x := (w.withStatement s).flush
  have hparts : x.statement.parts ≠ [] := h.settled.flush_parts_ne_nil
  have hskips : x.skips.value = (s.isNested || s.isExecutable) := skips_of_parts hparts
  have hsemicolon : x.endStatement.value
      = if s.isNested || s.isExecutable then x else x.addField.value :=
    endStatement_field hin hwait h.params hparts
  have hbrace : x.beginBlock.value
      = if s.isNested || s.isExecutable then x else x.addField.value := by
    have hblock : x.blockStatement = x.addField := by
      rw [blockStatement, if_neg (show ¬ x.statement.isHeader = true by
          rw [show x.statement.isHeader = false from h.header]; exact Bool.false_ne_true),
        if_neg (show ¬ x.awaitsConstants = true by
          rw [show x.awaitsConstants = false from hwait]; exact Bool.false_ne_true),
        if_pos (show x.statement.hasInitializer = true from h.initializer)]
    rw [beginBlock, Logged.value_bind, hskips, hblock]
    split
    · rfl
    · exact if_pos (show x.addField.value.inType = true from hin)
  have hfield : (if s.isNested || s.isExecutable then x else x.addField.value).nextStatement
      = w.afterField s := by
    rw [afterField]
    split <;> rfl
  have hspan' : (w.withStatement s).span = .code := hspan
  rw [statementEnd, if_neg (not_not_intro hspan')]
  split
  · rw [← hfield, ← hsemicolon]
    rfl
  · rw [← hfield, ← hbrace]
    rfl

/-! ## Walks that differ in a settled statement -/

/-- The walk `v` is `w`, or differs from it in a field that is settled, in a way
    that does not count. -/
inductive Matches (w : Walk) : Walk → Prop where
  | same : Matches w w
  | field (s : Statement) (inType : w.inType = true) (closed : w.awaitsConstants = false)
      (started : w.cursor.statementLine ≠ none) (left : w.statement.DeclaresField)
      (right : s.DeclaresField) (verdict : s.verdict = w.statement.verdict) :
      Matches w (w.withStatement s)

/-- No doc comment is open in a statement that has come to an equals sign. -/
def Undocumented (w : Walk) : Prop :=
  w.span = .doc → w.statement.hasInitializer = false

theorem Matches.refusal? (h : w.Matches v) (t : Token) : v.refusal? t = w.refusal? t := by
  cases h <;> rfl

/-- Tokens that join the statement keep the walks matching. -/
theorem matches_gather {s : Statement} (hin : w.inType = true)
    (hwait : w.awaitsConstants = false) (hstarted : w.cursor.statementLine ≠ none)
    (hleft : w.statement.DeclaresField) (hright : s.DeclaresField)
    (hverdict : s.verdict = w.statement.verdict) {c c' : Change}
    (hmarks : c'.marks = c.marks) (hc : w.view.Gathers t c)
    (hc' : (w.withStatement s).view.Gathers t c') (license : String) (a : Annotation) :
    Matches { w.gather c with draft.license := license, annotation := a }
      { (w.withStatement s).gather c' with draft.license := license, annotation := a } := by
  obtain ⟨F, hF⟩ := Statement.exists_take t
  obtain ⟨hl, hl'⟩ := hF w.statement hleft
  obtain ⟨hr, hr'⟩ := hF s hright
  rw [← hc.takes hin w.statement rfl] at hl hl'
  rw [← hc'.takes hin s rfl] at hr hr'
  have hstarted' : (if c.marks then w.cursor.mark else w.cursor).statementLine ≠ none := by
    split
    · exact Option.some_ne_none _
    · exact hstarted
  rw [gather, gather, hmarks]
  exact .field (s.change c') hin hwait hstarted' hl hr (by rw [hr', hverdict, ← hl'])

/-- **A token keeps walks matching**, if no doc comment is open in the statement. -/
theorem Matches.step (h : w.Matches v) (hdoc : w.Undocumented) (t : Token) :
    (w.step t).value.Matches (v.step t).value := by
  cases h with
  | same => exact .same
  | field s inType closed started left right verdict =>
      have hspan : w.span ≠ .doc := by
        intro hs
        exact Bool.false_ne_true ((hdoc hs).symm.trans left.initializer)
      by_cases hend : t.kind = .statementEnd
      · have hline : ¬ t.kind.isLine = true := by
          rw [hend]
          decide
        have hin : (w.withStatement s).inArguments = w.inArguments := rfl
        cases hargs : w.inArguments with
        | true =>
            -- among the arguments of an annotation nothing ends
            obtain ⟨d, hw⟩ := step_of_inArguments hargs (Bool.eq_false_iff.mpr hline)
            obtain ⟨e, hv⟩ := step_of_inArguments (hin.trans hargs)
              (Bool.eq_false_iff.mpr hline)
            rw [hw, hv, hend]
            exact .field s inType closed started left right verdict
        | false =>
            rw [step_of_not_inArguments hargs, step_of_not_inArguments (hin.trans hargs),
              plainStep, plainStep, hend]
            show (w.statementEnd t.text t.line).value.Matches
              ((w.withStatement s).statementEnd t.text t.line).value
            by_cases hcode : w.span = .code
            · rw [statementEnd_field inType closed hcode right, afterField_congr verdict,
                ← statementEnd_field inType closed hcode left t.text t.line]
              exact .same
            · have hcode' : (w.withStatement s).span ≠ .code := hcode
              rw [statementEnd, statementEnd, if_pos hcode, if_pos hcode']
              exact .field s inType closed started left right verdict
      · have halike : (w.view.move t).Alike ((w.withStatement s).view.move t) :=
          View.alike_move hspan hend { s with doc := {} }
        have hmoves := w.view.moves t
        have hmoves' := (w.withStatement s).view.moves t
        rw [step_eq, step_eq]
        generalize w.view.move t = m at halike hmoves ⊢
        generalize (w.withStatement s).view.move t = m' at halike hmoves' ⊢
        have hgather : ∀ {c c' : Change} (l : String) (a : Annotation), c'.marks = c.marks →
            w.view.Gathers t c → (w.withStatement s).view.Gathers t c' →
            Matches { w.gather c with draft.license := l, annotation := a }
              { (w.withStatement s).gather c' with draft.license := l, annotation := a } :=
          fun l a hmarks hc hc' =>
            matches_gather inType closed started left right verdict hmarks hc hc' l a
        cases halike with
        | gather hmarks a =>
            cases hmoves with
            | gather hg =>
                cases hmoves' with
                | gather hg' => exact hgather _ a hmarks hg hg'
        | same =>
            cases hmoves with
            | @aside _ _ r =>
                cases r <;> exact .field s inType closed started left right verdict
            | line => exact .field s inType closed started left right verdict
            | gather hg =>
                cases hmoves' with
                | gather hg' => exact hgather _ _ rfl hg hg'
            | license hg =>
                cases hmoves' with
                | license hg' => exact hgather _ _ rfl hg hg'
            | type _ _ _ hfresh =>
                exact absurd (hfresh.symm.trans inType) Bool.false_ne_true
            | closeDoc _ hs => exact absurd hs hspan
            | ends _ hk => exact absurd hk hend

/-- Two walks that match are refused the same token, or end matching. -/
theorem Matches.run {ts : List Token} :
    ∀ {w v : Walk}, w.Matches v → (∀ us, us <+: ts → (w.steps us).Undocumented) →
      (∃ f, (w.run ts).value = .error f ∧ (v.run ts).value = .error f)
        ∨ ∃ w' v', (w.run ts).value = .ok w' ∧ (v.run ts).value = .ok v'
            ∧ w'.Matches v' := by
  induction ts with
  | nil =>
      intro w v h _
      exact .inr ⟨w, v, rfl, rfl, h⟩
  | cons t ts ih =>
      intro w v h hdoc
      rw [Walk.run, Walk.run, h.refusal? t]
      cases w.refusal? t with
      | some f => exact .inl ⟨f, rfl, rfl⟩
      | none =>
          refine ih (h.step (hdoc [] List.nil_prefix) t) fun us hus => ?_
          exact hdoc (t :: us) (List.cons_prefix_cons.mpr ⟨rfl, hus⟩)

/-- Walks that match give the same declaration. -/
theorem Matches.finish (h : w.Matches v) : v.finish.value = w.finish.value := by
  cases h with
  | same => rfl
  | field s inType closed started left right verdict =>
      have hclosed : awaitsConstants (w.withStatement s) = false := closed
      rw [Walk.finish, Walk.finish, Logged.value_bind, Logged.value_bind, finishConstants,
        finishConstants, closed, hclosed]
      rfl

end Walk

end JavaOutline
