/-!
# Character tables

A property of characters is given by the ranges of code points that have it. The ranges of a table
are ascending and disjoint, so that a search can stop at the first range above the character.
-/

namespace StableFormat.Text

/-- Ascending, disjoint ranges of code points, both ends included. -/
abbrev CharTable := List (Nat × Nat)

namespace CharTable

/-- A code point lies in one of the ranges. -/
def covers : CharTable → Nat → Bool
  | [], _ => false
  | (lo, hi) :: rest, n =>
    if n < lo then false else if n ≤ hi then true else covers rest n

/-- A character lies in one of the ranges. -/
def contains (table : CharTable) (c : Char) : Bool :=
  table.covers c.toNat

end CharTable

end StableFormat.Text
