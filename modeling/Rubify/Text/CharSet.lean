/-!
# Sets of characters given by ranges of code points

A `CharSet` lists the ranges of its code points in ascending order. `contains` walks the list and
stops at the first range that begins above the character, so a small code point is settled after a
few steps.
-/

namespace Rubify.Text

/-- A set of characters: ascending, disjoint ranges of code points, both ends included. -/
structure CharSet where
  ranges : List (Nat × Nat)

namespace CharSet

/-- Whether some range of an ascending list holds the code point. -/
def within (code : Nat) : List (Nat × Nat) → Bool
  | [] => false
  | (first, last) :: rest =>
    if code < first then false else if code ≤ last then true else within code rest

/-- Membership of a character. -/
def contains (s : CharSet) (c : Char) : Bool :=
  within c.toNat s.ranges

end CharSet

end Rubify.Text
