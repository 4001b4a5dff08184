/-
Sets of code points, as tables of ranges.
-/

namespace SvgTree
namespace Text

def inRanges (ranges : Array (Nat × Nat)) (n : Nat) : Bool :=
  ranges.any fun r => r.1 ≤ n && n ≤ r.2

end Text
end SvgTree
