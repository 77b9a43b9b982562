/-!
# Words

How many values a word of bits has.
-/

namespace Depot

def wordSize (bits : Nat) : Nat := Nat.pow 2 bits

end Depot
