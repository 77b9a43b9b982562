import Depot.Decimal.Words
import Depot.Json.Basic
import Depot.Decimal.FloatText
/-!
# Numbers of JSON

A numeral is read in two steps: `readNumeral` checks its form and takes its digits apart, and
`Numeral.number?` finds its value.  Whole numbers of 64 bits are exact.  All others are floating
point numbers: as many leading digits as fit into 64 bits, scaled by a power of ten; a number
that is too large for a floating point number is no number.
-/

namespace Depot.Json

inductive Number
  | natural (n : Nat)
  /-- The whole number `-(n + 1)`. -/
  | negative (n : Nat)
  | real (x : Float)

structure Numeral where
  minus : Bool
  whole : List Char
  fraction : List Char
  /-- The sign and the digits of the exponent. -/
  exponent : Option (Bool × List Char)
deriving DecidableEq, Repr

/-- Takes digits, one at least; `ended` is the fault if the text ends before them. -/
def readDigits (ended : Fault) : Reader (List Char)
  | [] => .error ended
  | c :: rest =>
    if c.isDigit then .ok (c :: rest.takeWhile Char.isDigit, rest.dropWhile Char.isDigit)
    else .error .malformed

def readWholeDigits (ended : Fault) (s : List Char) :
    Except Fault (List Char × List Char) := do
  match ← readDigits ended s with
  | ('0' :: _ :: _, _) => throw .malformed
  | r => return r

def readFraction (ended : Fault) : Reader (List Char)
  | '.' :: rest => readDigits ended rest
  | s => .ok ([], s)

def readExponent (ended : Fault) : Reader (Option (Bool × List Char)) := fun s =>
  let signed : List Char → Bool × List Char
    | '+' :: rest => (true, rest)
    | '-' :: rest => (false, rest)
    | rest => (true, rest)
  match s with
  | c :: rest =>
    if c = 'e' ∨ c = 'E' then do
      let (positive, rest) := signed rest
      let (digits, rest) ← readDigits ended rest
      return (some (positive, digits), rest)
    else return (none, s)
  | [] => return (none, s)

/-- Takes a numeral apart; `ended` is the fault if the text ends within it. -/
def readNumeral (ended : Fault) : Reader Numeral := fun s => do
  let (minus, s) := match s with
    | '-' :: rest => (true, rest)
    | _ => (false, s)
  let (whole, s) ← readWholeDigits ended s
  let (fraction, s) ← readFraction ended s
  let (exponent, s) ← readExponent ended s
  return (⟨minus, whole, fraction, exponent⟩, s)

/-- Adds digits to a number as long as it stays below `2 ^ 64`; yields it and the count of the
digits that are left out. -/
def absorb (n : Nat) : List Char → Nat × Nat
  | [] => (n, 0)
  | c :: rest =>
    let next := n * 10 + (c.toNat - '0'.toNat)
    if next < wordSize 64 then absorb next rest else (n, rest.length + 1)

def digitsValue (digits : List Char) : Nat :=
  digits.foldl (fun n c => n * 10 + (c.toNat - '0'.toNat)) 0

def powerOfTen (n : Nat) : Float := Float.ofScientific 1 false n

def divideByPower (x : Float) : (steps : Nat) → Nat → Float
  | 0, n => x / powerOfTen n
  | steps + 1, n =>
    if n ≤ 308 then x / powerOfTen n
    else divideByPower (x / powerOfTen 308) steps (n - 308)

/-- The floating point number `n · 10 ^ e`; none if it is too large. -/
def scale? (n : Nat) (e : Int) : Option Float :=
  let x := n.toUInt64.toFloat
  if n = 0 then some x
  else if e < 0 then
    if e < -1000 then some 0 else some (divideByPower x 3 (-e).toNat)
  else if 308 < e then none
  else
    let y := x * powerOfTen e.toNat
    if y.isInf then none else some y

def Numeral.number? (n : Numeral) : Option Number :=
  let signed (x : Float) : Number := .real (if n.minus then -x else x)
  let (m, left) := absorb 0 n.whole
  if left = 0 ∧ n.fraction = [] ∧ n.exponent = none then
    if !n.minus then some (.natural m)
    else if m = 0 ∨ wordSize 63 < m then some (signed m.toUInt64.toFloat)
    else some (.negative (m - 1))
  else
    let (m, leftOfFraction) := absorb m n.fraction
    let e : Int := left - (n.fraction.length - leftOfFraction : Nat)
    match n.exponent with
    | none => (scale? m e).map signed
    | some (positive, digits) =>
      let by10 := digitsValue digits
      if wordSize 31 ≤ by10 then
        if m ≠ 0 ∧ positive then none else some (signed 0)
      else (scale? m (if positive then e + by10 else e - by10)).map signed

def readNumber : Reader Number := fun s => do
  let (numeral, s) ← readNumeral .truncated s
  match numeral.number? with
  | some n => return (n, s)
  | none => throw .malformed

def Number.describe : Number → String
  | .natural n => s!"integer `{n}`"
  | .negative n => s!"integer `-{n + 1}`"
  | .real x => s!"floating point `{FloatStyle.message.text x}`"

end Depot.Json
