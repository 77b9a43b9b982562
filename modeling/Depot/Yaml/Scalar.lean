import Depot.Decimal.Words
import Depot.Decimal.Nearest
import Depot.Settings.Setting
import Depot.Yaml.Cursor
/-!
# Single values of YAML

A plain text may stand for nothing, a truth value or a number; between quotes and in blocks it is
always a text.  Texts go over several lines: a line break becomes a space, and every further one
stays.
-/

namespace Depot.Yaml

/-- The number that digits of a base below ten stand for, or of sixteen. -/
def digitsValue? (base : Nat) (digits : List Char) : Option Nat :=
  let value (c : Char) : Nat :=
    if c.isDigit then c.toNat - '0'.toNat
    else if 'a' ≤ c ∧ c ≤ 'f' then c.toNat - 'a'.toNat + 10
    else if 'A' ≤ c ∧ c ≤ 'F' then c.toNat - 'A'.toNat + 10
    else base
  if digits = [] ∨ digits.any (base ≤ value ·) then none
  else some (digits.foldl (fun n c => n * base + value c) 0)

def signed : List Char → Bool × List Char
  | '+' :: s => (false, s)
  | '-' :: s => (true, s)
  | s => (false, s)

def word64? (negative : Bool) (n : Nat) : Option Int :=
  if negative then if n ≤ wordSize 63 then some (-(n : Int)) else none
  else if n < wordSize 63 then some n else none

def decimal? (word : List Char) : Option Int :=
  let (negative, s) := signed word
  (digitsValue? 10 s).bind (word64? negative)

def integer? : List Char → Option Int
  | '0' :: 'x' :: s => (digitsValue? 16 s).bind (word64? false)
  | '0' :: 'o' :: s => (digitsValue? 8 s).bind (word64? false)
  | word => decimal? word

def exponent? : List Char → Option Int
  | [] => some 0
  | c :: r =>
    if c = 'e' ∨ c = 'E' then
      let (negative, r) := signed r
      (digitsValue? 10 r).map fun n => if negative then -(n : Int) else n
    else none

def real? (word : List Char) : Option Float := do
  let (negative, s) := signed word
  let whole := s.takeWhile Char.isDigit
  let r := s.dropWhile Char.isDigit
  let (places, r) := match r with
    | '.' :: r => (r.takeWhile Char.isDigit, r.dropWhile Char.isDigit)
    | r => ([], r)
  if whole = [] ∧ places = [] then none
  let e ← exponent? r
  let x := nearestFloat ((digitsValue? 10 (whole ++ places)).getD 0) (e - places.length)
  return if negative then -x else x

def isSpecialReal (word : String) : Bool :=
  [".inf", ".Inf", ".INF", "+.inf", "+.Inf", "+.INF", "-.inf", "-.Inf", "-.INF", ".nan", ".NaN",
    ".NAN"].contains word

def plainValue (origin : String) (word : String) : Option Setting :=
  if word = "~" ∨ word = "null" ∨ word = "" then some (.nothing (some origin))
  else if word = "true" then some (.boolean true)
  else if word = "false" then some (.boolean false)
  else if isSpecialReal word then none
  else match integer? word.toList, real? word.toList with
    | some i, _ => some (.integer i)
    | none, some x => some (.real x)
    | none, none => some (.text word)

/-- The value of a plain text that a tag declares to be of some type; one that is not of the type
is nothing, and a tag of the document's own makes a text. -/
def declaredValue (origin tag word : String) : Option Setting :=
  let orNothing (value : Option Setting) : Setting := value.getD (.nothing (some origin))
  match tag with
  | "!!bool" =>
    some (if word = "true" then .boolean true
      else if word = "false" then .boolean false
      else .nothing (some origin))
  | "!!int" => some (orNothing ((decimal? word.toList).map .integer))
  | "!!float" =>
    if isSpecialReal word then none else some (orNothing ((real? word.toList).map .real))
  | "!!null" => some (.nothing (some origin))
  | _ => some (.text word)

def wordValue (origin : String) (tag : Option String) (word : String) : Option Setting :=
  match tag with
  | some tag => declaredValue origin tag word
  | none => plainValue origin word

def foldedGap (lines : Nat) : List Char :=
  if lines ≤ 1 then [' '] else List.replicate (lines - 1) '\n'

def trimEnd (cs : List Char) : List Char := (cs.reverse.dropWhile Cursor.isSpace).reverse

/-- The line breaks at the front of a text between spaces, and the place behind them. -/
def skipGap : (fuel : Nat) → (lines : Nat) → Cursor → Nat × Cursor
  | 0, lines, p => (lines, p)
  | fuel + 1, lines, p =>
    let p := p.skipSpaces
    match p.rest with
    | '\n' :: _ => skipGap fuel (lines + 1) p.nextLine
    | _ => (lines, p)

/-- The part of a line that a plain text takes; in a flow collection its marks end it. -/
def plainLine (flow : Bool) : List Char → List Char
  | [] => []
  | c :: rest =>
    if c = '\n' then []
    else if c = ':' ∧ (rest = [] ∨ rest.head?.any (fun d => Cursor.isSpace d || d == '\n') ∨
        (flow ∧ rest.head?.any ",[]\x7b\x7d".toList.contains)) then []
    else if flow ∧ ",[]\x7b\x7d".toList.contains c then []
    else if Cursor.isSpace c ∧ rest.head? = some '#' then []
    else c :: plainLine flow rest

/-- Takes a plain text; lines that are indented further than `indent` go on with it. -/
def readPlain (flow : Bool) (indent : Int) : (fuel : Nat) → Cursor → List Char × Cursor
  | 0, p => ([], p)
  | fuel + 1, p =>
    let line := plainLine flow p.rest
    let text := trimEnd line
    let p := p.skip line.length
    match p.rest with
    | '\n' :: _ =>
      let (lines, q) := skipGap (p.rest.length + 1) 0 p
      match q.rest with
      | [] => (text, p)
      | c :: _ =>
        let ends := c = '#' || q.isBoundary || (plainLine flow q.rest).isEmpty ||
          (!flow && (q.column : Int) ≤ indent)
        if ends then (text, p)
        else
          let (more, q) := readPlain flow indent fuel q
          (text ++ foldedGap lines ++ more, q)
    | _ => (text, p)

def readSingle : (fuel : Nat) → Cursor → Option (List Char × Cursor)
  | 0, _ => none
  | fuel + 1, p =>
    match p.rest with
    | [] => none
    | '\'' :: '\'' :: _ => do
      let (cs, q) ← readSingle fuel (p.skip 2)
      return ('\'' :: cs, q)
    | '\'' :: _ => some ([], p.skip 1)
    | c :: _ => do
      let (lines, q) := skipGap (p.rest.length + 1) 0 p
      if lines = 0 then
        let (cs, q) ← readSingle fuel (p.skip 1)
        return (c :: cs, q)
      else
        let (cs, q) ← readSingle fuel q
        return (foldedGap lines ++ cs, q)

def codeChar? (digits : List Char) : Option Char := do
  let n ← digitsValue? 16 digits
  if n.isValidChar then return Char.ofNat n else none

/-- The character of an escape between double quotes, and how long the escape is. -/
def escape? : List Char → Option (Char × Nat)
  | [] => none
  | c :: rest =>
    let coded (count : Nat) : Option (Char × Nat) :=
      if (rest.take count).length = count then
        (codeChar? (rest.take count)).map (·, count + 1)
      else none
    match c with
    | '0' => some ('\x00', 1)
    | 'a' => some ('\x07', 1)
    | 'b' => some ('\x08', 1)
    | 't' => some ('\t', 1)
    | '\t' => some ('\t', 1)
    | 'n' => some ('\n', 1)
    | 'v' => some ('\x0b', 1)
    | 'f' => some ('\x0c', 1)
    | 'r' => some ('\r', 1)
    | 'e' => some ('\x1b', 1)
    | ' ' => some (' ', 1)
    | '"' => some ('"', 1)
    | '/' => some ('/', 1)
    | '\\' => some ('\\', 1)
    | 'N' => some ('\u0085', 1)
    | '_' => some ('\u00a0', 1)
    | 'L' => some ('\u2028', 1)
    | 'P' => some ('\u2029', 1)
    | 'x' => coded 2
    | 'u' => coded 4
    | 'U' => coded 8
    | _ => none

def readDouble : (fuel : Nat) → Cursor → Option (List Char × Cursor)
  | 0, _ => none
  | fuel + 1, p =>
    match p.rest with
    | [] => none
    | '"' :: _ => some ([], p.skip 1)
    | '\\' :: '\n' :: _ => readDouble fuel (p.skip 1).nextLine.skipSpaces
    | '\\' :: rest => do
      let (c, length) ← escape? rest
      let (cs, q) ← readDouble fuel (p.skip (1 + length))
      return (c :: cs, q)
    | c :: _ => do
      let (lines, q) := skipGap (p.rest.length + 1) 0 p
      if lines = 0 then
        let (cs, q) ← readDouble fuel (p.skip 1)
        return (c :: cs, q)
      else
        let (cs, q) ← readDouble fuel q
        return (foldedGap lines ++ cs, q)

/-- What becomes of the line breaks at the end of a block of text. -/
inductive Chomping
  | strip
  | clip
  | keep
deriving DecidableEq, Repr

/-- The indicators of a block of text: what becomes of its end, and its indentation. -/
def blockIndicators : List Char → Chomping × Option Nat
  | [] => (.clip, none)
  | c :: rest =>
    let (chomping, indent) := blockIndicators rest
    if c = '-' then (.strip, indent)
    else if c = '+' then (.keep, indent)
    else (chomping, some (c.toNat - '0'.toNat))

/-- The lines of a block of text: all that are blank or indented far enough. -/
def blockLines (indent : Nat) : (fuel : Nat) → Cursor → List (List Char) × Cursor
  | 0, p => ([], p)
  | fuel + 1, p =>
    let line := p.rest.takeWhile (· ≠ '\n')
    let spaces := (line.takeWhile (· = ' ')).length
    let blank := spaces = line.length
    if p.rest = [] ∨ (spaces < indent ∧ !blank) then ([], p)
    else
      let shown := line.drop indent
      let q := p.skip line.length
      if q.rest = [] then ([shown], q)
      else
        let (lines, q) := blockLines indent fuel q.nextLine
        (shown :: lines, q)

/-- Lines joined by line breaks, or folded: between two lines at the left margin a break becomes
a space. -/
def joinLines (folded : Bool) : List (List Char) → List Char
  | [] => []
  | [line] => line
  | line :: next :: rest =>
    let flat (l : List Char) : Bool := match l with
      | [] => false
      | c :: _ => !Cursor.isSpace c
    let joined := joinLines folded (next :: rest)
    if folded ∧ flat line ∧ flat next then line ++ ' ' :: joined
    else if folded ∧ flat line ∧ next = [] then line ++ joined
    else line ++ '\n' :: joined

/-- Takes a block of text, from its `|` or `>` on; `indent` is the one of what it belongs to. -/
def readBlockText (indent : Int) (p : Cursor) : Option (List Char × Cursor) := do
  let folded := p.rest.head? = some '>'
  let head := (p.rest.drop 1).takeWhile (fun c => c.isDigit || c == '-' || c == '+')
  let (chomping, given) := blockIndicators head
  let q := (p.skip (1 + head.length)).skipSpaces
  let q := match q.rest with
    | '#' :: _ => q.skipLine
    | _ => q
  match q.rest with
  | [] => return ([], q)
  | '\n' :: rest =>
    let body := q.nextLine
    let (_, first) := skipGap (rest.length + 1) 0 body
    let base := (indent + 1).toNat
    let margin := match given with
      | some n => indent.toNat + n
      | none => max base first.column
    let (lines, q) := blockLines margin (rest.length + 1) body
    let ended := (lines.reverse.dropWhile (·.isEmpty)).reverse
    let breaks := lines.length - ended.length
    let text := joinLines folded ended
    let tail := match chomping with
      | .strip => []
      | .clip => if ended = [] then [] else ['\n']
      | .keep => List.replicate (breaks + if ended = [] then 0 else 1) '\n'
    return (text ++ tail, q)
  | _ => none

end Depot.Yaml
