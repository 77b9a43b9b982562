import Depot.Settings.Setting
/-!
# Places in a YAML document

The layout of a YAML document tells what belongs together, so a reader has to know in which column
it stands.  A `Cursor` is the rest of the text, that column, and the values that were named on the
way.
-/

namespace Depot.Yaml

structure Cursor where
  rest : List Char
  column : Nat
  /-- The values that have a name, the latest first. -/
  named : List (String × Setting)

namespace Cursor

def start (text : List Char) : Cursor := ⟨text, 0, []⟩

def skip (p : Cursor) (count : Nat) : Cursor :=
  { p with rest := p.rest.drop count, column := p.column + count }

def nextLine (p : Cursor) : Cursor := { p with rest := p.rest.drop 1, column := 0 }

def withName (p : Cursor) (name : String) (value : Setting) : Cursor :=
  { p with named := (name, value) :: p.named }

def isSpace (c : Char) : Bool := c == ' ' || c == '\t'

def skipSpaces (p : Cursor) : Cursor := p.skip (p.rest.takeWhile isSpace).length

def skipLine (p : Cursor) : Cursor := p.skip (p.rest.takeWhile (· ≠ '\n')).length

/-- The place behind spaces, comments and line breaks, and whether a line ended on the way; `fuel`
bounds the lines. -/
def skipLines : (fuel : Nat) → Bool → Cursor → Bool × Cursor
  | 0, newLine, p => (newLine, p)
  | fuel + 1, newLine, p =>
    let p := p.skipSpaces
    let p := match p.rest with
      | '#' :: _ => p.skipLine
      | _ => p
    match p.rest with
    | '\n' :: _ => skipLines fuel true p.nextLine
    | _ => (newLine, p)

/-- The place behind spaces, comments and line breaks, and whether a line ended on the way. -/
def skipBlanks (p : Cursor) : Bool × Cursor := skipLines (p.rest.length + 1) false p

/-- Whether a text begins with an indicator that a space or the end of the line follows. -/
def isIndicator (mark : Char) : List Char → Bool
  | [c] => c = mark
  | c :: d :: _ => c = mark ∧ (isSpace d ∨ d = '\n')
  | [] => false

def isMarker (marker : List Char) (p : Cursor) : Bool :=
  p.column = 0 && p.rest.take 3 == marker &&
    match p.rest.drop 3 with
    | [] => true
    | c :: _ => isSpace c || c == '\n'

def isBoundary (p : Cursor) : Bool :=
  p.isMarker ['-', '-', '-'] || p.isMarker ['.', '.', '.']

end Cursor

end Depot.Yaml
