import Depot.Decimal.Words
/-!
# Whole numbers from text

A sign is optional, and all else has to be digits.  The digits are read from the left, and the first
fault counts: a character that is no digit, or a number that leaves the range.
-/

namespace Depot

inductive WholeFault
  | empty
  | invalidDigit
  | tooLarge
  | tooSmall
deriving DecidableEq, Repr

def WholeFault.message : WholeFault → String
  | empty => "cannot parse integer from empty string"
  | invalidDigit => "invalid digit found in string"
  | tooLarge => "number too large to fit in target type"
  | tooSmall => "number too small to fit in target type"

/-- Reads digits of a magnitude up to `limit`; `excess` is the fault of a greater one. -/
def readMagnitude (limit : Nat) (excess : WholeFault) : Nat → List Char → Except WholeFault Nat
  | n, [] => .ok n
  | n, c :: s =>
    if c.isDigit then
      let next := n * 10 + (c.toNat - '0'.toNat)
      if next ≤ limit then readMagnitude limit excess next s else .error excess
    else .error .invalidDigit

def readInt32 (text : String) : Except WholeFault Int :=
  match text.toList with
  | [] => .error .empty
  | ['+'] => .error .invalidDigit
  | ['-'] => .error .invalidDigit
  | '-' :: s => (readMagnitude (wordSize 31) .tooSmall 0 s).map fun n => -(n : Int)
  | '+' :: s => (readMagnitude (wordSize 31 - 1) .tooLarge 0 s).map Int.ofNat
  | s => (readMagnitude (wordSize 31 - 1) .tooLarge 0 s).map Int.ofNat

def readNat64 (text : List Char) : Except WholeFault Nat :=
  match text with
  | [] => .error .empty
  | ['+'] => .error .invalidDigit
  | '+' :: s => readMagnitude (wordSize 64 - 1) .tooLarge 0 s
  | s => readMagnitude (wordSize 64 - 1) .tooLarge 0 s

end Depot
