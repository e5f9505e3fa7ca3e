/-! Sets of characters given by ascending, disjoint ranges of code points. -/

namespace ExprLang.Unicode

/-- Membership in a set of ranges. The ranges ascend, so the search stops at the first one that
starts beyond the number. -/
def inRanges : List (Nat × Nat) → Nat → Bool
  | [], _ => false
  | (low, high) :: more, n => low ≤ n && (n ≤ high || inRanges more n)

end ExprLang.Unicode
