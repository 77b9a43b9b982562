/-!
# Floating point numbers from decimal ones

`nearestFloat m e` is the floating point number nearest to `m · 10 ^ e`; numbers far beyond the
range are told by their size alone, so no huge power of ten is computed.
-/

namespace Depot

def nearestFloat (m : Nat) (e : Int) : Float :=
  let magnitude : Int := (Nat.toDigits 10 m).length + e
  if m = 0 ∨ magnitude < -400 then 0
  else if 400 < magnitude then 1 / 0
  else Float.ofScientific m (e < 0) e.natAbs

end Depot
