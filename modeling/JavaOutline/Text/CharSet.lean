/-! # Sets of characters given by their edges

    A property of characters that a standard fixes by listing code points is
    kept as the increasing list of the code points at which membership
    changes: the first edge enters the set, the second leaves it, and so on.
    A character is a member exactly when an odd number of edges stand at or
    before it. -/

namespace JavaOutline.Text

/-- A set of characters, given by the code points where membership changes. -/
structure CharSet where
  edges : List Nat

namespace CharSet

/-- The number of edges at or before the code point `n`. -/
def edgesUpTo (s : CharSet) (n : Nat) : Nat :=
  s.edges.countP (fun e => decide (e ≤ n))

/-- Membership: an odd number of edges has been passed. -/
def contains (s : CharSet) (c : Char) : Bool :=
  s.edgesUpTo c.toNat % 2 == 1

end CharSet

end JavaOutline.Text
