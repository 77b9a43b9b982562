import Depot.FileSystem.Basic
import Depot.FileSystem.IoError
/-!
# Walking paths

`locate` walks a path as the system does: from directory to directory, through symbolic links, at
most forty of them, up to the place that the path names.  The place holds an entry or is vacant in
a directory that exists.  `locateLast` stops one name earlier and hands out the last name, as
creating, renaming and removing need it.

`turn` takes one name, `descend` goes on until a link has to be followed and is structural in the
names left, and `walk` counts the links.
-/

namespace Depot

inductive Place
  | occupied (pos : Position) (entry : Entry)
  /-- The directory is there, and no entry of this name in it. -/
  | vacant (dir : Position) (name : Bytes)
deriving DecidableEq, Repr

def Place.position : Place → Position
  | occupied pos _ => pos
  | vacant dir name => dir ++ [name]

/-- What one name on a way does. -/
inductive Turn
  | refused (e : IoError)
  | into (pos : Position)
  /-- The directory is there, but not the name. -/
  | missing
  | link (target : Pathname)

/-- How far a walk gets before it has to follow a link. -/
inductive Descent
  | ended (result : Except IoError Place)
  /-- A link stands in a directory, and names are left after it. -/
  | atLink (dir : Position) (target : Pathname) (rest : List Bytes)

namespace Pathname

/-- The names that a walk along a path reads; a trailing slash asks for a directory, as a dot
would. -/
def steps (p : Pathname) : List Bytes :=
  if p.endsInSlash && !p.names.isEmpty then p.names ++ [dot] else p.names

end Pathname

namespace FileSystem

def maxNameLength : Nat := 255

def pathLimit : Nat := 4096

def linkLimit : Nat := 40

def turn (fs : FileSystem) (pos : Position) (name : Bytes) : Turn :=
  match fs.at? pos with
  | some (.directory _) =>
    if name = Pathname.dot then .into pos
    else if name = Pathname.dotDot then .into pos.dropLast
    else if maxNameLength < name.length then .refused .nameTooLong
    else match fs.at? (pos ++ [name]) with
      | none => .missing
      | some (.link target) => .link target
      | some _ => .into (pos ++ [name])
  | some _ => .refused .notDirectory
  | none => .refused .noEntry

/-- Walks from a position until the names end or a link has to be followed; a link in the last
place is followed only if `follow` says so. -/
def descend (fs : FileSystem) (follow : Bool) (pos : Position) : List Bytes → Descent
  | [] =>
    match fs.at? pos with
    | some entry => .ended (.ok (.occupied pos entry))
    | none => .ended (.error .noEntry)
  | name :: rest =>
    match fs.turn pos name with
    | .refused e => .ended (.error e)
    | .into pos' => fs.descend follow pos' rest
    | .missing => .ended (if rest = [] then .ok (.vacant pos name) else .error .noEntry)
    | .link target =>
      if rest = [] && !follow then .ended (.ok (.occupied (pos ++ [name]) (.link target)))
      else .atLink pos target rest

def startOf (fs : FileSystem) (p : Pathname) : Position :=
  if p.isAbsolute then [] else fs.workingDir

/-- Walks from a position with a number of links still allowed. -/
def walk (fs : FileSystem) (follow : Bool) : Nat → Position → List Bytes → Except IoError Place
  | links, pos, steps =>
    match fs.descend follow pos steps with
    | .ended result => result
    | .atLink dir target rest =>
      match links with
      | 0 => .error .tooManyLinks
      | links + 1 =>
        fs.walk follow links (if target.isAbsolute then [] else dir) (target.steps ++ rest)

def checkPath (p : Pathname) : Except IoError Unit :=
  if 0 ∈ p.bytes then .error .zeroByte
  else if p.bytes = [] then .error .noEntry
  else if pathLimit ≤ p.bytes.length then .error .nameTooLong
  else .ok ()

def locate (fs : FileSystem) (follow : Bool) (p : Pathname) : Except IoError Place := do
  checkPath p
  fs.walk follow linkLimit (fs.startOf p) p.steps

def locateEntry (fs : FileSystem) (follow : Bool) (p : Pathname) :
    Except IoError (Position × Entry) := do
  match ← fs.locate follow p with
  | .occupied pos entry => return (pos, entry)
  | .vacant _ _ => throw .noEntry

/-- The last name of a path in the directory that holds it. -/
inductive LastName
  | name (dir : Position) (name : Bytes)
  /-- The root directory, a dot or a double dot. -/
  | special
deriving DecidableEq, Repr

/-- The last name of a path, after a walk to its directory. -/
def locateLast (fs : FileSystem) (p : Pathname) : Except IoError LastName := do
  checkPath p
  match p.names.getLast? with
  | none => return .special
  | some last =>
    match ← fs.walk true linkLimit (fs.startOf p) p.names.dropLast with
    | .vacant _ _ => throw .noEntry
    | .occupied dir entry =>
      if !entry.isDirectory then throw .notDirectory
      else if last = Pathname.dot ∨ last = Pathname.dotDot then return .special
      else if maxNameLength < last.length then throw .nameTooLong
      else return .name dir last

def stat (fs : FileSystem) (p : Pathname) : Except IoError Entry :=
  Prod.snd <$> fs.locateEntry true p

/-- The entry that a path names, a link in the last place included. -/
def linkStat (fs : FileSystem) (p : Pathname) : Except IoError Entry :=
  Prod.snd <$> fs.locateEntry false p

def leadsToDirectory (fs : FileSystem) (p : Pathname) : Bool :=
  match fs.stat p with
  | .ok entry => entry.isDirectory
  | .error _ => false

/-- The path from the root directory to what a path names, free of links and dots. -/
def realPath (fs : FileSystem) (p : Pathname) : Except IoError Pathname := do
  let (pos, _) ← fs.locateEntry true p
  return .ofRootNames pos

end FileSystem

end Depot
