import Depot.Decimal.Words
/-!
# The shortest decimal form of a binary number

A binary number `m · 2 ^ q` is what every real of an interval around it is rounded to.  Among the
decimal numbers of that interval `Decimal.shortest` takes one with the fewest digits, and of two
with as few digits the nearer one.  All arithmetic is exact: the interval is kept as three
numerators over one denominator, and a number of digits is tried by asking whether one of the two
neighbours of the value on that decimal grid lies inside.
-/

namespace Depot

/-- The number `digits · 10 ^ exponent`. -/
structure Decimal where
  digits : Nat
  exponent : Int
deriving DecidableEq, Repr, Inhabited

namespace Decimal

/-- The reals that are rounded to one value, all over one denominator. -/
structure Interval where
  low : Nat
  value : Nat
  high : Nat
  den : Nat
  /-- Whether the ends belong to it. -/
  closed : Bool
deriving DecidableEq, Repr

namespace Interval

/-- The interval of `m · 2 ^ q`; below a power of two the lower neighbour is half as far. -/
def ofBinary (m : Nat) (q : Int) (powerOfTwo : Bool) : Interval :=
  let up := wordSize (q - 2).toNat
  { low := (4 * m - if powerOfTwo then 1 else 2) * up
    value := 4 * m * up
    high := (4 * m + 2) * up
    den := wordSize (2 - q).toNat
    closed := m % 2 = 0 }

def inUnits (s : Interval) (e : Int) : Interval :=
  let up := Nat.pow 10 (-e).toNat
  { s with low := s.low * up, value := s.value * up, high := s.high * up,
           den := s.den * Nat.pow 10 e.toNat }

def holds (s : Interval) (n : Nat) : Bool :=
  if s.closed then s.low ≤ n * s.den && n * s.den ≤ s.high
  else s.low < n * s.den && n * s.den < s.high

/-- The whole number of the interval that is nearest to its value, if there is one. -/
def nearest? (s : Interval) : Option Nat :=
  let n := s.value / s.den
  match s.holds n, s.holds (n + 1) with
  | true, true => some (if 2 * s.value ≤ (2 * n + 1) * s.den then n else n + 1)
  | true, false => some n
  | false, true => some (n + 1)
  | false, false => none

/-- The `e` for which the value lies between `10 ^ e` and `10 ^ (e + 1)`. -/
def magnitude (s : Interval) : Int :=
  if s.den ≤ s.value then (Nat.toDigits 10 (s.value / s.den)).length - 1
  else -((Nat.toDigits 10 ((s.den - 1) / s.value)).length : Int)

end Interval

/-- A decimal number of the interval with the fewest digits; 17 are always enough. -/
def shortest (s : Interval) : Decimal :=
  let found := (List.range 17).findSome? fun (n : Nat) =>
    let e := s.magnitude - n
    (s.inUnits e).nearest?.map fun digits =>
      if digits = 10 then Decimal.mk 1 (e + 1) else ⟨digits, e⟩
  found.getD ⟨s.value / s.den, 0⟩

inductive Parts
  | notANumber
  | infinite (negative : Bool)
  | zero (negative : Bool)
  | finite (negative : Bool) (magnitude : Decimal)
deriving DecidableEq, Repr

def Parts.ofBits (bits : UInt64) : Parts :=
  let negative := bits.toNat / wordSize 63 = 1
  let exponent : Nat := bits.toNat / wordSize 52 % wordSize 11
  let fraction : Nat := bits.toNat % wordSize 52
  if exponent = wordSize 11 - 1 then
    if fraction = 0 then .infinite negative else .notANumber
  else if exponent = 0 then
    if fraction = 0 then .zero negative
    else .finite negative (shortest (.ofBinary fraction (-1074) false))
  else
    .finite negative <| shortest <|
      .ofBinary (wordSize 52 + fraction) (exponent - 1075) (fraction = 0 && exponent ≠ 1)

end Decimal

end Depot
