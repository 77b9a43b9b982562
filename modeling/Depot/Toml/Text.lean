/-!
# Texts and layout of TOML

Readers take something from the front of a text and yield what is left.  This module holds the
blanks between the parts of a document, comments, keys and the four kinds of strings.
-/

namespace Depot.Toml

abbrev Reader (α : Type) := List Char → Option (α × List Char)

def isSpace (c : Char) : Bool := c == ' ' || c == '\t'

def skipSpaces (s : List Char) : List Char := s.dropWhile isSpace

/-- The characters that may stand in strings and comments: no controls but the tab. -/
def isPrintable (c : Char) : Bool := c == '\t' || (0x20 ≤ c.toNat && c.toNat ≠ 0x7F)

def skipLineBreak? : List Char → Option (List Char)
  | '\n' :: s => some s
  | '\r' :: '\n' :: s => some s
  | _ => none

def skipComment : List Char → List Char
  | '#' :: s => s.dropWhile isPrintable
  | s => s

def finishLine (s : List Char) : Option (List Char) :=
  match skipComment (skipSpaces s) with
  | [] => some []
  | s => skipLineBreak? s

/-- A text without the spaces, comments and line breaks at its front; `fuel` bounds their lines. -/
def skipLines : (fuel : Nat) → List Char → List Char
  | 0, s => s
  | fuel + 1, s =>
    let s := skipComment (skipSpaces s)
    match skipLineBreak? s with
    | some s => skipLines fuel s
    | none => s

def skipBlanks (s : List Char) : List Char := skipLines (s.length + 1) s

def readMark (mark : Char) : List Char → Option (List Char)
  | [] => none
  | c :: s => if c = mark then some s else none

def hexValue? (c : Char) : Option Nat :=
  if '0' ≤ c ∧ c ≤ '9' then some (c.toNat - '0'.toNat)
  else if 'a' ≤ c ∧ c ≤ 'f' then some (c.toNat - 'a'.toNat + 10)
  else if 'A' ≤ c ∧ c ≤ 'F' then some (c.toNat - 'A'.toNat + 10)
  else none

def readCode : (digits : Nat) → (value : Nat) → Reader Char
  | 0, value, s => if value.isValidChar then some (Char.ofNat value, s) else none
  | _ + 1, _, [] => none
  | digits + 1, value, c :: s => do readCode digits (value * 16 + (← hexValue? c)) s

def readEscape : Reader Char
  | [] => none
  | c :: s =>
    match c with
    | 'b' => some ('\x08', s)
    | 't' => some ('\t', s)
    | 'n' => some ('\n', s)
    | 'f' => some ('\x0c', s)
    | 'r' => some ('\r', s)
    | 'e' => some ('\x1b', s)
    | '"' => some ('"', s)
    | '\\' => some ('\\', s)
    | 'x' => readCode 2 0 s
    | 'u' => readCode 4 0 s
    | 'U' => readCode 8 0 s
    | _ => none

/-- Takes a string on one line up to its quote; only the double quote knows escapes. -/
def readLineString (quote : Char) : (fuel : Nat) → Reader (List Char)
  | 0, _ => none
  | _ + 1, [] => none
  | fuel + 1, c :: s =>
    if c = quote then some ([], s)
    else if c = '\\' ∧ quote = '"' then do
      let (x, s) ← readEscape s
      let (cs, s) ← readLineString quote fuel s
      return (x :: cs, s)
    else if isPrintable c then do
      let (cs, s) ← readLineString quote fuel s
      return (c :: cs, s)
    else none

/-- A text behind the blanks and line breaks that a backslash at the end of a line removes. -/
def skipFolded (s : List Char) : List Char :=
  s.dropWhile fun c => isSpace c || c == '\n' || c == '\r'

/-- Takes a string over several lines up to its three quotes; one or two more quotes before
them belong to the string. -/
def readBlockString (quote : Char) : (fuel : Nat) → Reader (List Char)
  | 0, _ => none
  | _ + 1, [] => none
  | fuel + 1, c :: s =>
    if c = quote then
      let quotes := (s.takeWhile (· = quote)).length + 1
      if 6 ≤ quotes then none
      else if 3 ≤ quotes then some (List.replicate (quotes - 3) quote, s.drop (quotes - 1))
      else do
        let (cs, s) ← readBlockString quote fuel s
        return (c :: cs, s)
    else if c = '\\' ∧ quote = '"' then
      if (skipLineBreak? (skipSpaces s)).isSome then
        readBlockString quote fuel (skipFolded s)
      else do
        let (x, s) ← readEscape s
        let (cs, s) ← readBlockString quote fuel s
        return (x :: cs, s)
    else
      match skipLineBreak? (c :: s) with
      | some s => do
        let (cs, s) ← readBlockString quote fuel s
        return ('\n' :: cs, s)
      | none =>
        if isPrintable c then do
          let (cs, s) ← readBlockString quote fuel s
          return (c :: cs, s)
        else none

def readString (quote : Char) : Reader String := fun s => do
  match s with
  | q₁ :: q₂ :: rest =>
    if q₁ = quote ∧ q₂ = quote then
      let body := (skipLineBreak? rest).getD rest
      let (cs, s) ← readBlockString quote (body.length + 1) body
      return (String.ofList cs, s)
    else
      let (cs, s) ← readLineString quote (s.length + 1) s
      return (String.ofList cs, s)
  | _ =>
    let (cs, s) ← readLineString quote (s.length + 1) s
    return (String.ofList cs, s)

def isKeyChar (c : Char) : Bool := c.isAlphanum || c == '_' || c == '-'

def readSimpleKey : Reader String := fun s =>
  match s with
  | '"' :: rest => do
    let (cs, s) ← readLineString '"' (rest.length + 1) rest
    return (String.ofList cs, s)
  | '\'' :: rest => do
    let (cs, s) ← readLineString '\'' (rest.length + 1) rest
    return (String.ofList cs, s)
  | _ =>
    match s.takeWhile isKeyChar with
    | [] => none
    | key => some (String.ofList key, s.dropWhile isKeyChar)

def readKeyParts : (fuel : Nat) → Reader (List String)
  | 0, _ => none
  | fuel + 1, s => do
    let (key, s) ← readSimpleKey (skipSpaces s)
    match skipSpaces s with
    | '.' :: s =>
      let (keys, s) ← readKeyParts fuel s
      return (key :: keys, s)
    | s => return ([key], s)

def readKey : Reader (List String × String) := fun s => do
  let (keys, s) ← readKeyParts (s.length + 1) s
  let last ← keys.getLast?
  return ((keys.dropLast, last), s)

end Depot.Toml
