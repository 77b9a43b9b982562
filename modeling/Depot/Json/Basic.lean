/-!
# Reading JSON

A `Json.Reader` takes a value from the front of a text and yields what is left.  There are three
ways to fail: the text breaks the grammar, it ends too early, or it is good JSON of another type
than the one that is wanted.  Readers of arrays and objects fold over what they hold, so that one
reader serves lists, records and values that are passed over.
-/

namespace Depot.Json

inductive Fault
  | malformed
  /-- The text ends before the value does. -/
  | truncated
  /-- The text is JSON, but no value of the wanted type. -/
  | mismatch (message : String)
deriving DecidableEq, Repr, Inhabited

abbrev Reader (α : Type) := List Char → Except Fault (α × List Char)

def isBlank (c : Char) : Bool := c == ' ' || c == '\n' || c == '\t' || c == '\r'

def skipBlanks (s : List Char) : List Char := s.dropWhile isBlank

theorem skipBlanks_cons {c : Char} {s : List Char} (h : isBlank c = false) :
    skipBlanks (c :: s) = c :: s := by
  simp [skipBlanks, h]

def readWord : List Char → Reader Unit
  | [], s => .ok ((), s)
  | _ :: _, [] => .error .truncated
  | w :: word, c :: s => if c = w then readWord word s else .error .malformed

def readMark (mark : Char) : Reader Unit := fun s =>
  match skipBlanks s with
  | [] => .error .truncated
  | c :: rest => if c = mark then .ok ((), rest) else .error .malformed

/-- Goes to the next element of an array, or tells that its end is reached. -/
def nextElement (first : Bool) (s : List Char) : Except Fault (Option (List Char)) :=
  match skipBlanks s with
  | [] => .error .truncated
  | c :: rest =>
    if c = ']' then .ok none
    else if first then .ok (some (c :: rest))
    else if c ≠ ',' then .error .malformed
    else match skipBlanks rest with
      | [] => .error .truncated
      | c :: rest => if c = ']' then .error .malformed else .ok (some (c :: rest))

/-- Goes behind the opening quote of the next key of an object, or tells that the end of the object
is reached. -/
def nextKey (first : Bool) (s : List Char) : Except Fault (Option (List Char)) :=
  let key : List Char → Except Fault (Option (List Char))
    | [] => .error .truncated
    | c :: rest => if c = '"' then .ok (some rest) else .error .malformed
  match skipBlanks s with
  | [] => .error .truncated
  | c :: rest =>
    if c = '}' then .ok none
    else if first then key (c :: rest)
    else if c ≠ ',' then .error .malformed
    else key (skipBlanks rest)

def foldElements {σ : Type} (step : σ → Reader σ) : (fuel : Nat) → Bool → σ → Reader σ
  | 0, _, _, _ => .error .malformed
  | fuel + 1, first, state, s => do
    match ← nextElement first s with
    | none =>
      let ((), s) ← readMark ']' s
      return (state, s)
    | some s =>
      let (state, s) ← step state s
      foldElements step fuel false state s

/-- Folds over the members of an object, `fuel` of them at most; a step gets the text behind the
opening quote of the key. -/
def foldMembers {σ : Type} (step : σ → Reader σ) : (fuel : Nat) → Bool → σ → Reader σ
  | 0, _, _, _ => .error .malformed
  | fuel + 1, first, state, s => do
    match ← nextKey first s with
    | none =>
      let ((), s) ← readMark '}' s
      return (state, s)
    | some s =>
      let (state, s) ← step state s
      foldMembers step fuel false state s

/-- Reads an array behind its opening bracket; no array has more elements than characters. -/
def readElements {σ : Type} (step : σ → Reader σ) (start : σ) : Reader σ := fun s =>
  foldElements step (s.length + 1) true start s

/-- Reads an object behind its opening brace; no object has more members than characters. -/
def readMembers {σ : Type} (step : σ → Reader σ) (start : σ) : Reader σ := fun s =>
  foldMembers step (s.length + 1) true start s

def readList {α : Type} (element : Reader α) : Reader (List α) := fun s => do
  let ((), s) ← readMark '[' s
  let step (read : List α) : Reader (List α) := fun s => do
    let (a, s) ← element s
    return (a :: read, s)
  let (read, s) ← readElements step [] s
  return (read.reverse, s)

def readWhole {α : Type} (reader : Reader α) (text : String) : Except Fault α := do
  let (a, s) ← reader text.toList
  match skipBlanks s with
  | [] => return a
  | _ :: _ => throw .malformed

end Depot.Json
