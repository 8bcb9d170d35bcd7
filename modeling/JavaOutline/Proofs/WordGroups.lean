import JavaOutline.Proofs.WrittenParts

/-! # Groups of words

    A statement keeps a group of words as parts: the last word, and the words
    before it joined by spaces.  The reader of fields parts these texts again, at
    the spaces outside angle brackets.

    Joining and parting are inverse on words that stand together (`Whole`): no
    space of such a word is outside its brackets, and none of its brackets is open
    at its end.  A closing bracket that closes nothing is no obstacle, so arrows and
    comparisons are words of this kind too. -/

namespace JavaOutline

open Text

/-! ## Words that stand together -/

/-- The number of open angle brackets after a character.  A closing bracket that
    closes nothing does not count. -/
def bracketsAfter (n : Nat) (c : Char) : Nat :=
  if c = '<' then n + 1 else if c = '>' then n - 1 else n

/-- The number of open angle brackets after a text, if there are `n` before it. -/
def openBrackets (n : Nat) (cs : List Char) : Nat := cs.foldl bracketsAfter n

/-- A word whose spaces are all inside angle brackets, and whose brackets are closed
    at its end. -/
structure Whole (w : String) : Prop where
  ne : w ≠ ""
  spaces : ∀ i < w.toList.length, w.toList[i]? = some ' ' →
    0 < openBrackets 0 (w.toList.take i)
  closed : openBrackets 0 w.toList = 0

instance (w : String) : Decidable (Whole w) :=
  decidable_of_iff (w ≠ "" ∧ (∀ i < w.toList.length, w.toList[i]? = some ' ' →
      0 < openBrackets 0 (w.toList.take i)) ∧ openBrackets 0 w.toList = 0)
    ⟨fun h => ⟨h.1, h.2.1, h.2.2⟩, fun h => ⟨h.ne, h.spaces, h.closed⟩⟩

/-- A character that is no space outside brackets goes on with the word. -/
theorem argumentWords_char {n : Nat} {c : Char} (h : c = ' ' → 0 < n)
    (u cs : List Char) :
    argumentWords n u (c :: cs) = argumentWords (bracketsAfter n c) (c :: u) cs := by
  have hkept : ¬ (c = ' ' ∧ n = 0) := fun hc => Nat.ne_of_gt (h hc.1) hc.2
  rw [argumentWords, if_neg hkept, bracketsAfter]
  split
  · rfl
  · split <;> rfl

/-- So does a text without such a space; the brackets it leaves open are counted. -/
theorem argumentWords_text {x : List Char} : ∀ {n : Nat},
    (∀ i < x.length, x[i]? = some ' ' → 0 < openBrackets n (x.take i)) →
      ∀ u cs, argumentWords n u (x ++ cs)
        = argumentWords (openBrackets n x) (x.reverse ++ u) cs := by
  induction x with
  | nil => exact fun _ _ _ => rfl
  | cons c x ih =>
      intro n h u cs
      have hchar : c = ' ' → 0 < n := fun hc => h 0 (by simp) (by rw [hc]; rfl)
      have hrest : ∀ i < x.length, x[i]? = some ' ' →
          0 < openBrackets (bracketsAfter n c) (x.take i) := fun i hi hspace =>
        h (i + 1) (Nat.succ_lt_succ hi) hspace
      rw [List.cons_append, argumentWords_char hchar, ih hrest, List.reverse_cons,
        List.append_assoc]
      rfl

/-- A word that stands together is parted nowhere. -/
theorem Whole.unsplit {w : String} (h : Whole w) : Unsplit w := by
  refine ⟨h.ne, fun u cs => ?_⟩
  rw [argumentWords_text h.spaces, h.closed]

/-! ## Reading a group -/

/-- The parts of a group are types and identifiers. -/
theorem Part.kind_of_mem_ofWords {ws : List String} {p : Part}
    (h : p ∈ Part.ofWords ws) : p.kind = .typeName ∨ p.kind = .identifier := by
  revert h
  fun_cases Part.ofWords ws with
  | case1 =>
      intro h
      cases h
  | case2 w =>
      intro h
      exact .inr (by rw [List.mem_singleton.mp h])
  | case3 w v ws =>
      intro h
      rcases List.mem_cons.mp h with rfl | h
      · exact .inl rfl
      · exact .inr (by rw [List.mem_singleton.mp h])

/-- Types and identifiers give their words, and nothing is reported. -/
theorem FieldReading.fold_words (r : FieldReading) {ps : List Part}
    (h : ∀ p ∈ ps, p.kind = .typeName ∨ p.kind = .identifier) :
    Logged.fold step r ps
      = pure { r with words := r.words ++ ps.flatMap fun p => splitWords p.text } := by
  induction ps generalizing r with
  | nil =>
      rw [Logged.fold, List.flatMap_nil, List.append_nil]
  | cons p ps ih =>
      have hstep : step r p = pure { r with words := r.words ++ splitWords p.text } := by
        rcases h p List.mem_cons_self with hp | hp <;> rw [step, hp]
      rw [Logged.fold, hstep, pure_bind, ih _ fun q hq => h q (List.mem_cons_of_mem p hq),
        List.flatMap_cons, List.append_assoc]

/-- Parting the parts of a group gives the group back. -/
theorem flatMap_splitWords_ofWords {ws : List String} (h : ∀ w ∈ ws, Unsplit w) :
    (Part.ofWords ws).flatMap (fun p => splitWords p.text) = ws := by
  cases ws with
  | nil => rfl
  | cons v ws =>
      cases ws with
      | nil =>
          show splitWords v ++ [] = [v]
          rw [(h v List.mem_cons_self).splitWords, List.append_nil]
      | cons w ws =>
          -- the words that a reading without words has afterwards
          have hwords := congrArg FieldReading.words
            (FieldReading.fold_ofWords h (r := {}) rfl)
          rw [FieldReading.fold_words {} fun p hp => Part.kind_of_mem_ofWords hp] at hwords
          exact hwords

/-- **A GROUP OF WORDS IS READ BACK.**  Let no space of any word be outside its angle
    brackets, and let no bracket be open at the end of any word.  Then the parts of the
    group, parted again, are the words of the group.  So the reader of fields, wherever
    it has got to, goes on with exactly these words and reports nothing; and if the
    group is a type, a name and any number of further words, then it gives the field of
    that type and name. -/
theorem words_of_group {ws : List String} (h : ∀ w ∈ ws, Whole w) :
    (Part.ofWords ws).flatMap (fun p => splitWords p.text) = ws
      ∧ (∀ r : FieldReading, Logged.fold FieldReading.step r (Part.ofWords ws)
          = pure { r with words := r.words ++ ws })
      ∧ ∀ type name initializer, ws = type :: name :: initializer →
          holds '=' type = false → holds '=' name = false →
          ∀ line signature, Field.ofParts? (Part.ofWords ws) line signature
            = pure (some { type, name, line, signature }) := by
  have hwords := flatMap_splitWords_ofWords fun w hw => (h w hw).unsplit
  have hfold : ∀ r : FieldReading, Logged.fold FieldReading.step r (Part.ofWords ws)
      = pure { r with words := r.words ++ ws } := by
    intro r
    rw [r.fold_words fun p hp => Part.kind_of_mem_ofWords hp, hwords]
  refine ⟨hwords, hfold, ?_⟩
  rintro type name initializer rfl htype hname line signature
  have hdeclared : declaratorWords (type :: name :: initializer)
      = type :: name :: declaratorWords initializer := by
    rw [declaratorWords, htype, declaratorWords, hname]
    rfl
  rw [Field.ofParts?, hfold, pure_bind]
  simp only [List.nil_append, hdeclared]

/-- A generic type, an initializer with an arrow, and a bracket that closes nothing. -/
theorem words_of_group_arrow :
    let ws := ["Map<K, List<? extends V>>", "m", "=", "k", "->", "a>b", "f.<T, U>g"]
    (∀ w ∈ ws, Whole w)
      ∧ (Part.ofWords ws).map Part.text
        = ["Map<K, List<? extends V>> m = k -> a>b", "f.<T, U>g"]
      ∧ (Part.ofWords ws).flatMap (fun p => splitWords p.text) = ws
      ∧ Field.ofParts? (Part.ofWords ws) 3 "m"
        = pure (some { type := "Map<K, List<? extends V>>", name := "m", line := 3,
                       signature := "m" }) := by
  intro ws
  have hwhole : ∀ w ∈ ws, Whole w := by decide +kernel
  obtain ⟨hwords, -, hfield⟩ := words_of_group hwhole
  exact ⟨hwhole, by decide +kernel, hwords,
    hfield _ _ _ rfl (by decide +kernel) (by decide +kernel) 3 "m"⟩

end JavaOutline
