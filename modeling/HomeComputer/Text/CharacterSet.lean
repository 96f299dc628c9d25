/-
Sets of characters, as ranges.

A standard gives a property of characters as a list of ranges of their numbers.  The
ranges are closed, ascending and apart, so a look-up may stop at the first range that
begins beyond the character.
-/

namespace HomeComputer

/-- A set of characters. -/
structure CharacterSet where
  /-- The first and the last number of each range, ascending. -/
  ranges : List (Nat × Nat)

namespace CharacterSet

/-- Whether one of the ranges covers a number. -/
def covers : List (Nat × Nat) → Nat → Bool
  | [], _ => false
  | (first, last) :: rest, n => first ≤ n && (n ≤ last || covers rest n)

/-- Whether a character is in the set. -/
def contains (s : CharacterSet) (c : Char) : Bool := covers s.ranges c.toNat

end CharacterSet

end HomeComputer
