import Mathlib.Data.List.Infix

/-! # Openers and closers

    A list is balanced if it closes only what it has opened, and closes all of it.
    The two counts say so for every list at once; to follow a list element by
    element, `BalancedFrom` also counts what was open before it, and
    `BalancedFrom.cons_iff` says what one element does to that number. -/

namespace JavaOutline

variable {α : Type}

/-- Never more closers than openers, and equally many in all. -/
structure Balanced (opens closes : α → Bool) (xs : List α) : Prop where
  never : ∀ ys, ys <+: xs → ys.countP closes ≤ ys.countP opens
  total : xs.countP closes = xs.countP opens

/-- The same for a list before which `n` openers stand that it closes as well. -/
structure BalancedFrom (opens closes : α → Bool) (n : Nat) (xs : List α) : Prop where
  never : ∀ ys, ys <+: xs → ys.countP closes ≤ n + ys.countP opens
  total : xs.countP closes = n + xs.countP opens

variable {opens closes : α → Bool} {n : Nat} {x : α} {xs : List α}

instance : Decidable (Balanced opens closes xs) :=
  decidable_of_iff
    ((∀ ys ∈ xs.inits, ys.countP closes ≤ ys.countP opens)
      ∧ xs.countP closes = xs.countP opens)
    ⟨fun h => ⟨fun ys hys => h.1 ys ((List.mem_inits ys xs).mpr hys), h.2⟩,
      fun h => ⟨fun ys hys => h.never ys ((List.mem_inits ys xs).mp hys), h.total⟩⟩

theorem balancedFrom_zero :
    BalancedFrom opens closes 0 xs ↔ Balanced opens closes xs := by
  constructor
  · rintro ⟨hnever, htotal⟩
    simp only [Nat.zero_add] at hnever htotal
    exact ⟨hnever, htotal⟩
  · rintro ⟨hnever, htotal⟩
    refine ⟨?_, ?_⟩
    · simpa only [Nat.zero_add] using hnever
    · simpa only [Nat.zero_add] using htotal

namespace BalancedFrom

/-- A list that closes nothing has nothing to close. -/
theorem nil_iff : BalancedFrom opens closes n [] ↔ n = 0 := by
  constructor
  · intro h
    exact h.total.symm
  · rintro rfl
    refine ⟨fun ys hys => ?_, rfl⟩
    rw [List.prefix_nil.mp hys]
    exact Nat.zero_le _

/-- What the first element does to the number of openers before the rest. -/
theorem cons_iff : BalancedFrom opens closes n (x :: xs) ↔
    ∃ m, m + (if closes x then 1 else 0) = n + (if opens x then 1 else 0)
      ∧ BalancedFrom opens closes m xs := by
  constructor
  · rintro ⟨hnever, htotal⟩
    -- the first element closes no more than there is
    have hfirst := hnever [x] ⟨xs, rfl⟩
    simp only [List.countP_cons, List.countP_nil] at hfirst htotal
    refine ⟨n + (if opens x then 1 else 0) - (if closes x then 1 else 0), by omega,
      fun ys hys => ?_, by omega⟩
    have hle := hnever (x :: ys) ((List.prefix_cons_inj x).mpr hys)
    simp only [List.countP_cons] at hle
    omega
  · rintro ⟨m, hm, hnever, htotal⟩
    refine ⟨fun ys hys => ?_, ?_⟩
    · rcases List.prefix_cons_iff.mp hys with rfl | ⟨zs, rfl, hzs⟩
      · exact Nat.zero_le _
      · have hle := hnever zs hzs
        simp only [List.countP_cons]
        omega
    · simp only [List.countP_cons]
      omega

end BalancedFrom

end JavaOutline
