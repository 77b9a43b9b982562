import Depot.Json.Value
/-!
# Records of JSON

A `Shape` says how a record is read into a state: which members it has and how the value of each is
taken.  A record stands in a text as an object, or as an array of its members in their order.
Members of an object that the shape does not know are passed over, and none may occur twice.
-/

namespace Depot.Json

structure Member (σ : Type) where
  name : String
  /-- Whether the member was read already. -/
  present : σ → Bool
  /-- Reads the value of the member. -/
  read : σ → Reader σ

structure Shape (σ : Type) where
  name : String
  members : List (Member σ)
  /-- Whether no member may be missing. -/
  complete : Bool
  /-- The record of which nothing was read yet. -/
  start : σ

namespace Shape

variable {σ : Type}

def readMember (shape : Shape σ) (state : σ) : Reader σ := fun s => do
  let (key, s) ← readKey s
  match shape.members.find? fun m => m.name = key with
  | some m =>
    if m.present state then throw (.mismatch s!"duplicate field `{key}`")
    let ((), s) ← readMark ':' s
    m.read state s
  | none =>
    let ((), s) ← readMark ':' s
    let ((), s) ← skipValue s
    return (state, s)

def finish (shape : Shape σ) (state : σ) : Except Fault σ :=
  match shape.members.find? fun m => !m.present state with
  | some m =>
    if shape.complete then .error (.mismatch s!"missing field `{m.name}`") else .ok state
  | none => .ok state

/-- Reads the members of a record as the elements of an array; `count` of them were read. -/
def readInOrder (shape : Shape σ) :
    List (Member σ) → (count : Nat) → σ → Reader σ
  | [], _, state, s => .ok (state, s)
  | m :: rest, count, state, s => do
    match ← nextElement (count = 0) s with
    | some s =>
      let (state, s) ← m.read state s
      shape.readInOrder rest (count + 1) state s
    | none =>
      if shape.complete then
        let elements := if shape.members.length = 1 then "element" else "elements"
        let expected := s!"struct {shape.name} with {shape.members.length} {elements}"
        throw (.mismatch s!"invalid length {count}, expected {expected}")
      else return (state, s)

def read (shape : Shape σ) : Reader σ := fun s => do
  match skipBlanks s with
  | [] => throw .truncated
  | '[' :: s =>
    let (state, s) ← shape.readInOrder shape.members 0 shape.start s
    let ((), s) ← readMark ']' s
    return (state, s)
  | '\x7b' :: s =>
    let (state, s) ← readMembers shape.readMember shape.start s
    return (← shape.finish state, s)
  | s => throw (mismatchAt s!"struct {shape.name}" s)

end Shape

def readText (expected : String) : Reader String := fun s =>
  match skipBlanks s with
  | [] => .error .truncated
  | '"' :: s => readKey s
  | s => .error (mismatchAt expected s)

def readNatural : Reader Nat := fun s => do
  match skipBlanks s with
  | [] => throw .truncated
  | c :: s =>
    if c = '-' ∨ c.isDigit then
      match ← readNumber (c :: s) with
      | (.natural n, s) => return (n, s)
      | (.negative n, _) =>
        throw (.mismatch s!"invalid value: {(Number.negative n).describe}, expected u64")
      | (.real x, _) =>
        throw (.mismatch s!"invalid type: {(Number.real x).describe}, expected u64")
    else throw (mismatchAt "u64" (c :: s))

def readOptional {α : Type} (value : Reader α) : Reader (Option α) := fun s => do
  match skipBlanks s with
  | 'n' :: s => return (none, (← readWord "ull".toList s).2)
  | s =>
    let (a, s) ← value s
    return (some a, s)

def readNothing : Reader Unit := fun s =>
  match skipBlanks s with
  | [] => .error .truncated
  | 'n' :: s => readWord "ull".toList s
  | s => .error (mismatchAt "unit" s)

/-- Reads a choice among names, as a text or as an object whose only key is the name and whose
value is `null`. -/
def readChoice {α : Type} (names : List String) (choose : String → Option α) : Reader α := fun s =>
  let known (name : String) : Except Fault α :=
    match choose name with
    | some a => .ok a
    | none =>
      let list := ", ".intercalate (names.map fun n => s!"`{n}`")
      .error (.mismatch s!"unknown variant `{name}`, expected one of {list}")
  match skipBlanks s with
  | [] => .error .truncated
  | '"' :: s => do
    let (name, s) ← readKey s
    return (← known name, s)
  | '\x7b' :: s => do
    let (name, s) ← readText "variant identifier" s
    let a ← known name
    let ((), s) ← readMark ':' s
    let ((), s) ← readNothing s
    let ((), s) ← readMark '\x7d' s
    return (a, s)
  | _ => .error .malformed

end Depot.Json
