import RegistryHive.Bisection

/-!
# Sets of characters

A set of characters is written as the ascending sequence of the code points at
which membership changes: the first run of members starts at the first
boundary and ends before the second, and so on. A character belongs to the set
when an odd number of boundaries lies at or below it.
-/

namespace RegistryHive.Text

/-- A set of characters, given by the code points at which membership changes. -/
structure CharSet where
  boundaries : Array Nat

namespace CharSet

/-- The boundary at an index lies at or below a character. -/
def reaches (set : CharSet) (c : Char) (i : Nat) : Bool :=
  if h : i < set.boundaries.size then set.boundaries[i] ≤ c.toNat else false

/-- The number of boundaries at or below a character. -/
def rank (set : CharSet) (c : Char) : Nat := bisect (set.reaches c) 0 set.boundaries.size

/-- Membership: an odd number of boundaries lies at or below the character. -/
def contains (set : CharSet) (c : Char) : Bool := set.rank c % 2 == 1

end CharSet

end RegistryHive.Text
