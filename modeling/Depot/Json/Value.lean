import Depot.Json.Number
import Depot.Json.Text
import Depot.Text.Quoted
/-!
# Values of JSON

`Value.read` reads any value, nested up to a depth.  `skipValue` passes over one of any depth.
`mismatchAt` tells what stands in a text instead of the wanted type.
-/

namespace Depot.Json

inductive Value
  | null
  | boolean (b : Bool)
  | number (n : Number)
  | text (s : String)
  | list (elements : List Value)
  | record (members : List (String × Value))

def readKey : Reader String := fun s => do
  let (key, s) ← readChars s
  return (String.ofList key, s)

def Value.read : (depth : Nat) → Reader Value
  | 0, _ => .error .malformed
  | depth + 1, s => do
    match skipBlanks s with
    | [] => throw .truncated
    | 'n' :: s => return (.null, (← readWord "ull".toList s).2)
    | 't' :: s => return (.boolean true, (← readWord "rue".toList s).2)
    | 'f' :: s => return (.boolean false, (← readWord "alse".toList s).2)
    | '"' :: s =>
      let (key, s) ← readKey s
      return (.text key, s)
    | '[' :: s =>
      let step (elements : List Value) : Reader (List Value) := fun s => do
        let (element, s) ← Value.read depth s
        return (element :: elements, s)
      if depth = 0 then throw .malformed
      let (elements, s) ← readElements step [] s
      return (.list elements.reverse, s)
    | '\x7b' :: s =>
      let step (members : List (String × Value)) : Reader (List (String × Value)) := fun s => do
        let (key, s) ← readKey s
        let ((), s) ← readMark ':' s
        let (value, s) ← Value.read depth s
        return ((key, value) :: members, s)
      if depth = 0 then throw .malformed
      let (members, s) ← readMembers step [] s
      return (.record members.reverse, s)
    | c :: s =>
      if c = '-' ∨ c.isDigit then
        let (n, s) ← readNumber (c :: s)
        return (.number n, s)
      else throw .malformed

/-- Passes over a value whose lists and records are nested less than `depth` deep. -/
def skipNested : (depth : Nat) → Reader Unit
  | 0, _ => .error .malformed
  | depth + 1, s => do
    match skipBlanks s with
    | [] => throw .truncated
    | 'n' :: s => readWord "ull".toList s
    | 't' :: s => readWord "rue".toList s
    | 'f' :: s => readWord "alse".toList s
    | '"' :: s => skipChars s
    | '[' :: s => readElements (fun () => skipNested depth) () s
    | '\x7b' :: s =>
      let step (_ : Unit) : Reader Unit := fun s => do
        let ((), s) ← skipChars s
        let ((), s) ← readMark ':' s
        skipNested depth s
      readMembers step () s
    | c :: s =>
      if c = '-' ∨ c.isDigit then
        let (_, s) ← readNumeral .malformed (c :: s)
        return ((), s)
      else throw .malformed

def skipValue : Reader Unit := fun s => skipNested (s.length + 1) s

def describeAt : List Char → Except Fault String
  | 'n' :: s => do
    let _ ← readWord "ull".toList s
    return "null"
  | 't' :: s => do
    let _ ← readWord "rue".toList s
    return "boolean `true`"
  | 'f' :: s => do
    let _ ← readWord "alse".toList s
    return "boolean `false`"
  | '"' :: s => do
    let (cs, _) ← readChars s
    return "string " ++ quoted (String.ofList cs)
  | '[' :: _ => return "sequence"
  | '\x7b' :: _ => return "map"
  | c :: s => do
    if c = '-' ∨ c.isDigit then return (← readNumber (c :: s)).1.describe
    else throw .malformed
  | [] => throw .malformed

def mismatchAt (expected : String) (s : List Char) : Fault :=
  match describeAt s with
  | .ok found => .mismatch s!"invalid type: {found}, expected {expected}"
  | .error f => f

end Depot.Json
