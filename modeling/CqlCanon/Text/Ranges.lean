import CqlCanon.Text.Basic

/-!
# Character properties as tables

A property of characters beyond ASCII is a list of ranges of code points.
-/

namespace CqlCanon.Text

/-- Ranges of code points, each as its first and last member. -/
abbrev Ranges := List (Nat × Nat)

/-- Whether the character lies in one of the ranges. -/
def Ranges.has (ranges : Ranges) (c : Char) : Bool :=
  ranges.any fun range => range.1 ≤ c.toNat && c.toNat ≤ range.2

end CqlCanon.Text
