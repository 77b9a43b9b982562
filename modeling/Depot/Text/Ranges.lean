/-!
# Runs of characters

A class of characters is given by the first and the last number of each of its runs.
-/

namespace Depot

def inRanges (ranges : List (Nat × Nat)) (c : Char) : Bool :=
  ranges.any fun (first, last) => first ≤ c.toNat && c.toNat ≤ last

end Depot
