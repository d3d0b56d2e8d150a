/-! Ranges of characters.

A table is a list of ranges with both ends, in increasing order. -/
namespace QCircuit.Text

def inRanges (ranges : List (Nat × Nat)) (n : Nat) : Bool :=
  ranges.any fun (low, high) => low ≤ n && n ≤ high

end QCircuit.Text
