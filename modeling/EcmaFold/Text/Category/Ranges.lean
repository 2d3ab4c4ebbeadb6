/-!
Sets of code points as increasing lists of ranges.
-/

namespace EcmaFold

/-- Ranges of code points, both ends included, in increasing order. -/
abbrev Ranges := List (Nat × Nat)

/-- Whether a code point lies in one of the ranges. The order lets the search stop early. -/
def Ranges.contains : Ranges → Nat → Bool
  | [], _ => false
  | (low, high) :: rest, code =>
    if code < low then false else code ≤ high || Ranges.contains rest code

end EcmaFold
