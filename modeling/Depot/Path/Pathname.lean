import Depot.Text.Bytes
/-!
# Path names

A `Pathname` is the byte string that names an entry of the file system.  `components` reads it as
a sequence of roots, names and dots; `join`, `parent?` and `absolute` compute with the text alone
and never look at the disk.

Main facts: `join_empty_bytes`, `bytes_appended`, and the examples at the end, which fix the
treatment of doubled slashes, trailing slashes and dots.
-/

namespace Depot

structure Pathname where
  bytes : Bytes
deriving DecidableEq, Repr, Inhabited

namespace Pathname

def slash : UInt8 := 47

def dot : Bytes := [46]

def dotDot : Bytes := [46, 46]

def ofString (s : String) : Pathname := ⟨Bytes.ofString s⟩

def display (p : Pathname) : String := p.bytes.lossy

def empty : Pathname := ⟨[]⟩

def isAbsolute (p : Pathname) : Bool := p.bytes.head? == some slash

def endsInSlash (p : Pathname) : Bool := p.bytes.getLast? == some slash

def pieces (p : Pathname) : List Bytes := p.bytes.splitOn slash

/-- The parts of a path that are not empty: what a walk from directory to directory reads. -/
def names (p : Pathname) : List Bytes := p.pieces.filter fun piece => piece ≠ []

/-- What one part of a path stands for. -/
inductive Component
  | root
  /-- The directory where the path starts. -/
  | current
  | parent
  | normal (name : Bytes)
deriving DecidableEq, Repr

def Component.bytes : Component → Bytes
  | root => [slash]
  | current => dot
  | parent => dotDot
  | normal name => name

/-- The component of a piece after the first; empty pieces and single dots have none. -/
def Component.ofPiece? (piece : Bytes) : Option Component :=
  if piece = [] ∨ piece = dot then none
  else if piece = dotDot then some .parent
  else some (.normal piece)

/-- The components of a path; a single dot counts only as the first piece of a relative path. -/
def components (p : Pathname) : List Component :=
  match p.pieces with
  | [] => []
  | first :: rest =>
    let body := rest.filterMap Component.ofPiece?
    if first = [] then (if rest = [] then [] else .root :: body)
    else if first = dot then .current :: body
    else (Component.ofPiece? first).toList ++ body

/-- The last part of a path, if it is an ordinary name. -/
def fileName? (p : Pathname) : Option Bytes :=
  match p.components.getLast? with
  | some (.normal name) => some name
  | _ => none

def join (p q : Pathname) : Pathname :=
  if q.isAbsolute then q
  else if p.bytes = [] ∨ p.endsInSlash then ⟨p.bytes ++ q.bytes⟩
  else ⟨p.bytes ++ slash :: q.bytes⟩

def appended (p : Pathname) (suffix : Bytes) : Pathname := ⟨p.bytes ++ suffix⟩

def ofNames (names : List Bytes) : Pathname := ⟨[slash].intercalate names⟩

/-- The absolute path of a sequence of names below the root directory. -/
def ofRootNames (names : List Bytes) : Pathname := ⟨slash :: [slash].intercalate names⟩

/-- A list without the elements at its end that pass a test. -/
def dropEndWhile {α : Type} (drop : α → Bool) : List α → List α
  | [] => []
  | x :: xs =>
    match dropEndWhile drop xs with
    | [] => if drop x then [] else [x]
    | kept => x :: kept

def isIdle (piece : Bytes) : Bool := piece = [] ∨ piece = dot

/-- The pieces that lead to the parent: the last meaningful one and all idle ones around it
are gone. -/
def withoutLast (body : List Bytes) : Option (List Bytes) :=
  match dropEndWhile isIdle body with
  | [] => none
  | kept => some (dropEndWhile isIdle kept.dropLast)

/-- The path of the directory that holds the last part; none for the root and the empty path. -/
def parent? (p : Pathname) : Option Pathname :=
  match p.pieces with
  | [] => none
  | first :: rest =>
    if first = [] then
      (withoutLast rest).map fun body => ⟨slash :: [slash].intercalate body⟩
    else if first = dot then
      match withoutLast rest with
      | some body => some ⟨[slash].intercalate (first :: body)⟩
      | none => some empty
    else
      match withoutLast rest with
      | some body => some ⟨[slash].intercalate (first :: body)⟩
      | none => some empty

/-- The ancestors of a path from itself upwards, at most as many as `bound`. -/
def ancestors : Nat → Pathname → List Pathname
  | 0, _ => []
  | bound + 1, p =>
    p :: match p.parent? with
      | some q => ancestors bound q
      | none => []

/-- The path seen from the root directory, computed from the text alone: single dots and doubled
slashes go, double dots, a trailing slash and a leading pair of slashes stay. -/
def absolute (workingDir p : Pathname) : Pathname :=
  let comps := p.components.filter fun c => c ≠ .current
  let start : Pathname × List Component :=
    if p.isAbsolute then
      if p.bytes.take 2 = [slash, slash] ∧ p.bytes.take 3 ≠ [slash, slash, slash] then
        (⟨[slash, slash]⟩, comps.drop 1)
      else (empty, comps)
    else (workingDir, comps)
  let whole := start.2.foldl (fun acc c => acc.join ⟨c.bytes⟩) start.1
  if p.endsInSlash then whole.join empty else whole

/-! ## Facts -/

@[simp] theorem bytes_appended (p : Pathname) (suffix : Bytes) :
    (p.appended suffix).bytes = p.bytes ++ suffix := rfl

theorem isAbsolute_empty : empty.isAbsolute = false := rfl

theorem join_empty_bytes (p : Pathname) :
    (p.join empty).bytes =
      if p.bytes = [] ∨ p.endsInSlash then p.bytes else p.bytes ++ [slash] := by
  rw [join, isAbsolute_empty, if_neg (by decide)]
  split <;> simp [empty]

example : (ofString "/srv//a/./b/").parent? = some (ofString "/srv//a") := by decide
example : (ofString "a").parent? = some empty := by decide
example : (ofString "/").parent? = none := by decide
example : (ofString "./a").parent? = some (ofString ".") := by decide
example : absolute (ofString "/w") (ofString "./a//b/../c/") = ofString "/w/a/b/../c/" := by
  decide
example : absolute (ofString "/w") (ofString ".") = ofString "/w" := by decide
example : (ofString "a/./b/..").components = [.normal [97], .normal [98], .parent] := by decide

end Pathname

end Depot
