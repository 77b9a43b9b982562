import Depot.Text.Identifier
/-!
# Literals in source code

Each function takes one kind of literal from the front of a text and yields what is left; none if
the text does not begin with such a literal.  A literal may end in a name, its suffix.
-/

namespace Depot.Code

def takeName : List Char → Option (List Char × List Char)
  | [] => none
  | c :: s =>
    if isIdentifierStart c then
      some (c :: s.takeWhile isIdentifierPart, s.dropWhile isIdentifierPart)
    else none

def skipSuffix (s : List Char) : List Char :=
  match takeName s with
  | some (_, rest) => rest
  | none => s

def skipFront : List Char → List Char → Option (List Char)
  | [], s => some s
  | _ :: _, [] => none
  | c :: front, d :: s => if c = d then skipFront front s else none

def hexValue? (c : Char) : Option Nat :=
  if '0' ≤ c ∧ c ≤ '9' then some (c.toNat - '0'.toNat)
  else if 'a' ≤ c ∧ c ≤ 'f' then some (c.toNat - 'a'.toNat + 10)
  else if 'A' ≤ c ∧ c ≤ 'F' then some (c.toNat - 'A'.toNat + 10)
  else none

def takeByte : List Char → Option (Nat × List Char)
  | a :: b :: s => do return ((← hexValue? a) * 16 + (← hexValue? b), s)
  | _ => none

/-- The value of a number in braces, behind the opening one: six digits at most, with underscores
between them. -/
def takeCode : (digits : Nat) → (started : Bool) → Nat → List Char → Option (Nat × List Char)
  | _, _, _, [] => none
  | digits, started, value, c :: s =>
    if c = '_' then if started then takeCode digits true value s else none
    else if c = '\x7d' then if started then some (value, s) else none
    else match digits, hexValue? c with
      | digits + 1, some d => takeCode digits true (value * 16 + d) s
      | _, _ => none

/-- The value of a character that is written by its number, behind the `u`. -/
def takeUnicode : List Char → Option (Nat × List Char)
  | '\x7b' :: s => do
    let (value, s) ← takeCode 6 false 0 s
    if value.isValidChar then return (value, s) else none
  | _ => none

/-- What the strings of a kind may hold. -/
structure StringKind where
  /-- Whether all characters are among the first 128. -/
  ascii : Bool
  /-- The numbers that an escape of two digits may give. -/
  byteEscape : Nat → Bool
  /-- The numbers that an escape in braces may give; none if there is no such escape. -/
  codeEscape : Option (Nat → Bool)
  /-- Whether the zero character may occur. -/
  zero : Bool

namespace StringKind

def text : StringKind := ⟨false, fun n => n < 128, some fun _ => true, true⟩

def bytes : StringKind := ⟨true, fun _ => true, none, true⟩

def terminated : StringKind := ⟨false, fun n => n ≠ 0, some fun n => n ≠ 0, false⟩

def admits (kind : StringKind) (c : Char) : Bool :=
  (!kind.ascii || c.toNat < 128) && (kind.zero || c.toNat ≠ 0)

def skipEscape (kind : StringKind) : List Char → Option (List Char)
  | [] => none
  | c :: s =>
    if "nrt\\'\"".toList.contains c ∨ (c = '0' ∧ kind.zero) then some s
    else if c = 'x' then do
      let (value, s) ← takeByte s
      if kind.byteEscape value then return s else none
    else if c = 'u' then
      match kind.codeEscape with
      | some allowed => do
        let (value, s) ← takeUnicode s
        if allowed value then return s else none
      | none => none
    else none

/-- A text behind the blanks that a backslash at the end of a line removes; a lone carriage return
is no line break. -/
def skipContinuation : List Char → Option (List Char)
  | [] => none
  | '\r' :: '\n' :: s => skipContinuation s
  | c :: s =>
    if c = '\r' then none
    else if c = ' ' ∨ c = '\t' ∨ c = '\n' then skipContinuation s
    else some (c :: s)

/-- A text behind the closing quote of a string, `fuel` characters on at most. -/
def skipBody (kind : StringKind) : (fuel : Nat) → List Char → Option (List Char)
  | 0, _ => none
  | _ + 1, [] => none
  | fuel + 1, c :: s =>
    if c = '"' then some (skipSuffix s)
    else if c = '\r' then
      match s with
      | '\n' :: s => skipBody kind fuel s
      | _ => none
    else if c = '\\' then
      match s with
      | '\n' :: _ | '\r' :: _ => do skipBody kind fuel (← skipContinuation s)
      | _ => do skipBody kind fuel (← kind.skipEscape s)
    else if kind.admits c then skipBody kind fuel s
    else none

/-- A text behind the end of a raw string, which so many number signs mark. -/
def skipRaw (kind : StringKind) (signs : Nat) : List Char → Option (List Char)
  | [] => none
  | '\r' :: s =>
    match s with
    | '\n' :: s => skipRaw kind signs s
    | _ => none
  | c :: s =>
    if c = '"' ∧ (s.take signs).length = signs ∧ (s.take signs).all (· = '#') then
      some (skipSuffix (s.drop signs))
    else if kind.admits c then skipRaw kind signs s
    else none

def skipRawString (kind : StringKind) (s : List Char) : Option (List Char) :=
  let signs := (s.takeWhile (· = '#')).length
  match s.drop signs with
  | '"' :: s => if signs ≤ 255 then kind.skipRaw signs s else none
  | _ => none

end StringKind

def skipString (s : List Char) : Option (List Char) :=
  let body (kind : StringKind) (s : List Char) := kind.skipBody (s.length + 1) s
  match s with
  | '"' :: s => body .text s
  | 'r' :: s => StringKind.text.skipRawString s
  | 'b' :: '"' :: s => body .bytes s
  | 'b' :: 'r' :: s => StringKind.bytes.skipRawString s
  | 'c' :: '"' :: s => body .terminated s
  | 'c' :: 'r' :: s => StringKind.terminated.skipRawString s
  | _ => none

def skipCharacter (kind : StringKind) (s : List Char) : Option (List Char) := do
  let s ← match s with
    | '\\' :: s => kind.skipEscape s
    | c :: s => if !kind.ascii || c.toNat < 128 then some s else none
    | [] => none
  match s with
  | '\'' :: s => return skipSuffix s
  | _ => none

def endsWord (s : List Char) : Bool := !s.head?.any isIdentifierPart

def isDigitPart (c : Char) : Bool := c.isDigit || c == '_'

/-- A text behind the exponent of a number, whose mark is gone; none if it has no digit. -/
def skipExponent (s : List Char) : Option (List Char) :=
  let s := s.dropWhile (· = '_')
  let s := match s with
    | '+' :: s | '-' :: s => s.dropWhile (· = '_')
    | s => s
  if s.head?.any Char.isDigit then some (s.dropWhile isDigitPart) else none

/-- A text behind the digits of a floating point number: they have a point or an exponent, and no
name follows the point. -/
def skipFloatDigits (s : List Char) : Option (List Char) :=
  let isExponent (c : Char) : Bool := c == 'e' || c == 'E'
  if !s.head?.any Char.isDigit then none
  else
    match s.dropWhile isDigitPart with
    | '.' :: rest =>
      if rest.head?.any fun c => c = '.' ∨ isIdentifierStart c then none
      else
        match rest.dropWhile isDigitPart with
        | c :: more =>
          if isExponent c then some ((skipExponent more).getD (c :: more)) else some (c :: more)
        | [] => some []
    | c :: rest => if isExponent c then skipExponent rest else none
    | [] => none

def skipIntegerDigits (s : List Char) : Option (List Char) :=
  let (base, s) := match s with
    | '0' :: 'x' :: s => (16, s)
    | '0' :: 'o' :: s => (8, s)
    | '0' :: 'b' :: s => (2, s)
    | s => (10, s)
  let isDigit (c : Char) : Bool := c.isDigit || (base == 16 && (hexValue? c).isSome)
  let digits := s.takeWhile fun c => isDigit c || c == '_'
  if digits.any fun c => c.isDigit && base ≤ c.toNat - '0'.toNat then none
  else if digits.head? = some '_' ∧ base = 10 then none
  else if digits.all (· = '_') then none
  else some (s.drop digits.length)

def skipNumber (s : List Char) : Option (List Char) :=
  let ended (s : List Char) : Option (List Char) :=
    let s := skipSuffix s
    if endsWord s then some s else none
  match (skipFloatDigits s).bind ended with
  | some s => some s
  | none => (skipIntegerDigits s).bind ended

def skipLiteral (s : List Char) : Option (List Char) :=
  match skipString s with
  | some s => some s
  | none =>
    match s with
    | 'b' :: '\'' :: s => skipCharacter .bytes s
    | '\'' :: s => skipCharacter .text s
    | _ => skipNumber s

def takeLiteral (s : List Char) : Option (String × List Char) :=
  (skipLiteral s).map fun rest => (String.ofList (s.take (s.length - rest.length)), rest)

end Depot.Code
