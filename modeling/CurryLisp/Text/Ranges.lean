/-!
# Tables of code points

A set of code points is a list of inclusive ranges in ascending order.
-/

namespace CurryLisp.Text

/-- `n` lies in one of the ranges. -/
def inRanges (ranges : List (Nat × Nat)) (n : Nat) : Bool :=
  ranges.any fun range => range.1 ≤ n && n ≤ range.2

end CurryLisp.Text
