import Mathlib.Algebra.Group.Nat.Defs
import JavaOutline.Text.Integer

/-! # Line numbers read back

    The number of a line is written in base ten and read again by whoever
    walks the tokens.  Reading undoes writing as long as the digits are not
    too many, and it fails beyond that; it never gives another number.  So two
    lines are never taken for one another. -/

namespace JavaOutline.Text

/-- A decimal digit has the value of its place after zero. -/
theorem digitValue?_of_isDigit {c : Char} (h : c.isDigit = true) :
    digitValue? c = some (c.toNat - '0'.toNat) := by
  have hbound := Char.isDigit_iff_toNat.mp h
  have hlt : c.toNat < 0x80 := Nat.lt_of_le_of_lt hbound.2 (by decide)
  simp only [digitValue?, if_pos hlt, if_pos h]
  rfl

/-- A run of decimal digits has the values of its digits. -/
theorem digitRun_of_digits (cs : List Char) (h : ∀ c ∈ cs, c.isDigit = true) :
    digitRun true cs = some (cs.map fun c => c.toNat - '0'.toNat) := by
  induction cs with
  | nil => rfl
  | cons c cs ih =>
      have hc := h c (by simp)
      have hne : c ≠ '_' := by
        rintro rfl
        exact absurd hc (by decide)
      rw [digitRun, if_neg hne, digitValue?_of_isDigit hc]
      show Option.map _ (digitRun true cs) = _
      rw [ih (fun d hd => h d (by simp [hd]))]
      rfl

/-- A run that is not empty may start with any digit. -/
theorem digitRun_start {cs : List Char} (hne : cs ≠ [])
    (h : ∀ c ∈ cs, c.isDigit = true) :
    digitRun false cs = some (cs.map fun c => c.toNat - '0'.toNat) := by
  cases cs with
  | nil => exact absurd rfl hne
  | cons c cs =>
      have hc : c ≠ '_' := by
        rintro rfl
        exact absurd (h '_' (by simp)) (by decide)
      rw [← digitRun_of_digits (c :: cs) h, digitRun, digitRun, if_neg hc,
        if_neg hc]

/-- The digits of a number write it. -/
theorem ofDigits_toDigits (n : Nat) :
    ofDigits ((Nat.toDigits 10 n).map fun c => c.toNat - '0'.toNat) = n := by
  have h := Nat.ofDigitChars_ten_toDigits (n := n)
  rw [Nat.ofDigitChars_eq_foldl] at h
  rw [ofDigits, List.foldl_map]
  exact h

/-- No digit counts as white space. -/
theorem isNumeralSpace_of_isDigit {c : Char} (h : c.isDigit = true) :
    isNumeralSpace c = false := by
  have hbound := Char.isDigit_iff_toNat.mp h
  have h0 : 48 ≤ c.toNat := hbound.1
  have h9 : c.toNat ≤ 57 := hbound.2
  have hblank : isBlank c = false := by
    simp only [isBlank, Bool.or_eq_false_iff, Bool.and_eq_false_iff,
      decide_eq_false_iff_not, beq_eq_false_iff_ne]
    omega
  rw [isNumeralSpace, hblank]
  rfl

/-- Nothing is trimmed off a text of digits. -/
theorem trimNumeral_of_digits {cs : List Char}
    (h : ∀ c ∈ cs, c.isDigit = true) : trimNumeral cs = cs := by
  have hdrop : ∀ ds : List Char, (∀ c ∈ ds, c.isDigit = true) →
      ds.dropWhile isNumeralSpace = ds := by
    intro ds hds
    cases ds with
    | nil => rfl
    | cons d ds =>
        rw [List.dropWhile_cons_of_neg]
        rw [isNumeralSpace_of_isDigit (hds d (by simp))]
        exact Bool.false_ne_true
  rw [trimNumeral, hdrop cs h, hdrop cs.reverse, List.reverse_reverse]
  intro c hc
  exact h c (List.mem_reverse.mp hc)

/-- A number is read back from its text, unless it has too many digits. -/
theorem integer?_toString (n : Nat) :
    integer? (toString n)
      = if n < 10 ^ maxDigits then some (n : Int) else none := by
  have hdigits : ∀ c ∈ Nat.toDigits 10 n, c.isDigit = true :=
    fun c hc => Nat.isDigit_of_mem_toDigits (by decide) (by decide) hc
  have htext : (toString n).toList = Nat.toDigits 10 n := Nat.toList_repr
  have hrun := digitRun_start Nat.toDigits_ne_nil hdigits
  have hsigned : signed? (Nat.toDigits 10 n)
      = (natural? (Nat.toDigits 10 n)).map (fun n => (n : Int)) := by
    -- a digit is no sign
    cases hd : Nat.toDigits 10 n with
    | nil => exact absurd hd Nat.toDigits_ne_nil
    | cons c cs =>
        have hc : c.isDigit = true := hdigits c (by rw [hd]; simp)
        unfold signed?
        split
        · next h => cases h; exact absurd hc (by decide)
        · next h => cases h; exact absurd hc (by decide)
        · rfl
  rw [integer?, htext, trimNumeral_of_digits hdigits, hsigned, natural?, hrun]
  simp only [List.length_map, ofDigits_toDigits]
  have hlen := Nat.length_toDigits_le_iff (b := 10) (n := n) (k := maxDigits)
    (by decide) (by decide)
  by_cases hn : n < 10 ^ maxDigits
  · rw [if_pos hn, if_pos (hlen.mpr hn)]
    rfl
  · rw [if_neg hn, if_neg (fun h => hn (hlen.mp h))]
    rfl

/-- What is read from the text of a number is that number. -/
theorem eq_of_integer?_toString {n : Nat} {m : Int}
    (h : integer? (toString n) = some m) : m = n := by
  rw [integer?_toString] at h
  by_cases hn : n < 10 ^ maxDigits
  · rw [if_pos hn] at h
    exact (Option.some.inj h).symm
  · rw [if_neg hn] at h
    exact nomatch h

end JavaOutline.Text
