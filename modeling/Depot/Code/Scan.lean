import Depot.Code.Literal
import Depot.Code.Token
import Depot.Text.Blank
import Depot.Text.Visible
/-!
# Tokens from text

`scan` splits a text into tokens; none if some part is no token or the delimiters do not match.
Comments and blanks part tokens and vanish, but a documentation comment becomes the attribute that
it stands for.
-/

namespace Depot.Code

def isCodeBlank (c : Char) : Bool := isWhite c || c == '\u200e' || c == '\u200f'

def skipLine (s : List Char) : List Char := s.dropWhile (· ≠ '\n')

def lineOf (s : List Char) : List Char :=
  let line := s.takeWhile (· ≠ '\n')
  if (skipLine s).isEmpty then line
  else match line.getLast? with
    | some '\r' => line.dropLast
    | _ => line

/-- A text behind a comment between marks, which may hold others; `depth` of them are open. -/
def skipNested : (depth : Nat) → List Char → Option (List Char)
  | 0, s => some s
  | _, [] => none
  | depth + 1, '/' :: '*' :: s => skipNested (depth + 2) s
  | depth + 1, '*' :: '/' :: s => skipNested depth s
  | depth + 1, _ :: s => skipNested (depth + 1) s

def skipBlockComment (s : List Char) : Option (List Char) := skipNested 1 (s.drop 2)

def startsWith (front : String) (s : List Char) : Bool := (skipFront front.toList s).isSome

def skipPlainComment? (s : List Char) : Option (List Char) :=
  if startsWith "//" s then
    if (!startsWith "///" s || startsWith "////" s) && !startsWith "//!" s then some (skipLine s)
    else none
  else if startsWith "/**/" s then some (s.drop 4)
  else if startsWith "/*" s then
    if (!startsWith "/**" s || startsWith "/***" s) && !startsWith "/*!" s then skipBlockComment s
    else none
  else none

/-- A text without the blanks and plain comments at its front; `fuel` bounds their number. -/
def skipIdle : (fuel : Nat) → List Char → List Char
  | 0, s => s
  | fuel + 1, s =>
    match skipPlainComment? s with
    | some s => skipIdle fuel s
    | none =>
      match s with
      | c :: rest => if isCodeBlank c then skipIdle fuel rest else s
      | [] => []

/-- Takes a documentation comment: whether it belongs to what surrounds it, and its text. -/
def takeDocumentation (s : List Char) : Option ((Bool × List Char) × List Char) :=
  let block (inner : Bool) : Option ((Bool × List Char) × List Char) := do
    let rest ← skipBlockComment s
    let text := s.take (s.length - rest.length)
    return ((inner, (text.drop 3).take (text.length - 5)), rest)
  if startsWith "//!" s then some ((true, lineOf (s.drop 3)), skipLine s)
  else if startsWith "/*!" s then block true
  else if startsWith "////" s then none
  else if startsWith "///" s then some ((false, lineOf (s.drop 3)), skipLine s)
  else if startsWith "/***" s then none
  else if startsWith "/**" s then block false
  else none

def wholeBreaks : List Char → Bool
  | [] => true
  | '\r' :: '\n' :: s => wholeBreaks s
  | c :: s => c ≠ '\r' && wholeBreaks s

def documentationChar (c : Char) : List Char :=
  match c with
  | '"' => ['\\', '"']
  | '\\' => ['\\', '\\']
  | '\n' => ['\\', 'n']
  | '\r' => ['\\', 'r']
  | '\t' => ['\\', 't']
  | c =>
    if isVisible c then [c]
    else ['\\', 'u', '\x7b'] ++ Nat.toDigits 16 c.toNat ++ ['\x7d']

/-- The characters of a string literal that holds a documentation comment; a zero character is
written short unless a digit follows. -/
def documentationChars : List Char → List Char
  | [] => []
  | '\x00' :: s =>
    (if s.head?.any fun c => '0' ≤ c ∧ c ≤ '7' then ['\\', 'x', '0', '0'] else ['\\', '0'])
      ++ documentationChars s
  | c :: s => documentationChar c ++ documentationChars s

def documentationLiteral (text : List Char) : String :=
  String.ofList ('"' :: documentationChars text ++ ['"'])

def documentationTokens (inner : Bool) (text : List Char) : List Token :=
  let content := [.name "doc", .mark '=' false, .literal (documentationLiteral text)]
  .mark '#' inner :: (if inner then [.mark '!' false] else []) ++ [.group .bracket content]

def isMark (c : Char) : Bool := "~!@#$%^&*-=+|;:,<.>/?'".toList.contains c

def startsWithMark (s : List Char) : Bool :=
  !startsWith "//" s && !startsWith "/*" s && s.head?.any isMark

def unrawable : List String := ["_", "super", "self", "Self", "crate"]

def takeAnyName (s : List Char) : Option (String × List Char) :=
  match skipFront ['r', '#'] s with
  | none => (takeName s).map fun (name, rest) => (String.ofList name, rest)
  | some s => do
    let (name, rest) ← takeName s
    let name := String.ofList name
    if unrawable.contains name then none else return ("r#" ++ name, rest)

def takeNameToken (s : List Char) : Option (Token × List Char) :=
  if ["r\"", "r#\"", "r##", "b\"", "b'", "br\"", "br#", "c\"", "cr\"", "cr#"].any
      (startsWith · s) then none
  else (takeAnyName s).map fun (name, rest) => (.name name, rest)

def takeLifetime (s : List Char) : Option (Token × List Char) := do
  let (name, rest) ← takeAnyName s
  let raw := startsWith "r#" s
  if startsWith "'" rest || (startsWith "#" rest && !raw) then none
  else return (.lifetime name, rest)

def takeLeaf (s : List Char) : Option (Token × List Char) :=
  match takeLiteral s with
  | some (text, rest) => some (.literal text, rest)
  | none =>
    if startsWithMark s then
      match s with
      | '\'' :: rest => takeLifetime rest
      | c :: rest => some (.mark c (startsWithMark rest), rest)
      | [] => none
    else takeNameToken s

/-- Takes tokens up to a closing delimiter, or to the end of the text if none is open. -/
def scanUntil : (fuel : Nat) → Option Delimiter → List Char → Option (List Token × List Char)
  | 0, _, _ => none
  | fuel + 1, opened, s => do
    let s := skipIdle (s.length + 1) s
    match takeDocumentation s with
    | some ((inner, text), rest) =>
      if !wholeBreaks text then none
      let (more, rest) ← scanUntil fuel opened rest
      return (documentationTokens inner text ++ more, rest)
    | none =>
      match s with
      | [] => if opened.isNone then return ([], []) else none
      | c :: rest =>
        match Delimiter.ofOpening? c, Delimiter.ofClosing? c with
        | some d, _ =>
          let (content, rest) ← scanUntil fuel (some d) rest
          let (more, rest) ← scanUntil fuel opened rest
          return (.group d content :: more, rest)
        | none, some d => if opened = some d then return ([], rest) else none
        | none, none =>
          let (token, rest) ← takeLeaf s
          let (more, rest) ← scanUntil fuel opened rest
          return (token :: more, rest)

def scan (text : String) : Option (List Token) :=
  (scanUntil (2 * text.length + 2) none text.toList).map Prod.fst

end Depot.Code
