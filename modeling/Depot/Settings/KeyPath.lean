import Depot.Decimal.Words
import Depot.Settings.Setting
/-!
# Keys

A key of a layer is written as names joined by points, with indexes in brackets: `a.b[0]`.
`keyPath` reads it; a key of any other form stands for itself.
-/

namespace Depot

namespace KeyPath

def isNameChar (c : Char) : Bool := c.isAlphanum || c == '_' || c == '-'

def takeName (s : List Char) : Option (String × List Char) :=
  match s.takeWhile isNameChar with
  | [] => none
  | name => some (String.ofList name, s.dropWhile isNameChar)

def isSpace (c : Char) : Bool := c == ' ' || c == '\t'

/-- The whole number that digits stand for, if it fits into 64 bits with its sign. -/
def index? (negative : Bool) (digits : List Char) : Option Int :=
  let n := digits.foldl (fun n c => n * 10 + (c.toNat - '0'.toNat)) 0
  if digits = [] then none
  else if negative then if n ≤ wordSize 63 then some (-(n : Int)) else none
  else if n < wordSize 63 then some n else none

def takeIndex (s : List Char) : Option (Int × List Char) := do
  let s := s.dropWhile isSpace
  let (negative, s) := match s with
    | '-' :: rest => (true, rest)
    | _ => (false, s)
  let i ← index? negative (s.takeWhile Char.isDigit)
  match (s.dropWhile Char.isDigit).dropWhile isSpace with
  | ']' :: rest => some (i, rest)
  | _ => none

/-- Reads the steps behind the first name, `fuel` of them at most. -/
def stepsOf : (fuel : Nat) → List Char → Option (List SettingStep)
  | _, [] => some []
  | 0, _ :: _ => none
  | fuel + 1, c :: s =>
    if c = '.' then do
      let (name, s) ← takeName s
      return .key name :: (← stepsOf fuel s)
    else if c = '[' then do
      let (i, s) ← takeIndex s
      return .index i :: (← stepsOf fuel s)
    else none

def parse? (key : String) : Option (List SettingStep) := do
  let (name, s) ← takeName key.toList
  return .key name :: (← stepsOf s.length s)

end KeyPath

def keyPath (key : String) : List SettingStep := (KeyPath.parse? key).getD [.key key]

example : keyPath "a.b[-1]" = [.key "a", .key "b", .index (-1)] := by decide
example : keyPath "a..b" = [.key "a..b"] := by decide

end Depot
