/-
Sets of characters given by ranges of code points.

* `covers` — whether a code point is in one of the ranges.

Design notes: a property of the Unicode standard is a table of ranges in a module of its own.  The
ranges ascend, so a search ends at the first one that begins after the code point.
-/

namespace Transclude.Text

/-- Ranges of code points with both their ends, ascending and apart. -/
abbrev Ranges := List (Nat × Nat)

/-- Whether a code point is in one of the ranges. -/
def covers : Ranges → Nat → Bool
  | [], _ => false
  | (first, last) :: rest, n => decide (first ≤ n) && (decide (n ≤ last) || covers rest n)

end Transclude.Text
