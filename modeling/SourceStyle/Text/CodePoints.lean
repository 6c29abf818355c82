/-!
Sets of code points as inclusive ranges.
-/

namespace SourceStyle.Text

/-- A set of code points, given by the first and last member of each range. -/
abbrev CodePointRanges := List (Nat × Nat)

def CodePointRanges.contains (ranges : CodePointRanges) (c : Char) : Bool :=
  ranges.any fun range => range.1 ≤ c.toNat && c.toNat ≤ range.2

end SourceStyle.Text
