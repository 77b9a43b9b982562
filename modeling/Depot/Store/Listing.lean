import Depot.Store.Object
/-!
# Listing

A listing walks the directories below a path.  It goes down real directories only; the path itself
may be a link to a directory.  `FileSystem.traverse` is the walk, `Store.list` keeps the regular
files whose names are text and end in the wanted way.

The walk names every entry by its full path, so it cannot look into a directory whose path has
become too long for the system, and a listing that meets such an entry fails.
-/

namespace Depot

def entryPath (base : Pathname) (names : Position) : Pathname := base.join (.ofNames names)

def Pathname.fits (p : Pathname) : Bool := p.bytes.length < FileSystem.pathLimit

structure Traversal where
  /-- The position of the path itself. -/
  top : Position
  /-- The entry at the path itself. -/
  topEntry : Entry
  /-- The position that the walk goes down from. -/
  base : Position
  /-- The entries below, with their names from the base. -/
  entries : List (Position × Entry)

namespace FileSystem

/-- Whether a walk from a base comes to an entry: the path of its directory must not be too long,
which that of the base is not. -/
def isReached (base : Pathname) (names : Position) : Bool :=
  names.length ≤ 1 || (entryPath base names.dropLast).fits

/-- The entries below a position that a walk from a base comes to. -/
def reached (fs : FileSystem) (base : Pathname) (pos : Position) : List (Position × Entry) :=
  (fs.below pos).filter fun found => isReached base found.1

def traverse (fs : FileSystem) (p : Pathname) : Except IoError Traversal := do
  let (top, entry) ← fs.locateEntry false p
  match entry with
  | .directory _ => return ⟨top, entry, top, fs.reached p top⟩
  | .link _ =>
    let (base, target) ← fs.locateEntry true p
    return ⟨top, entry, base, if target.isDirectory then fs.reached p base else []⟩
  | _ => return ⟨top, entry, top, []⟩

end FileSystem

/-- The names of a position as one text with slashes, if all of them are text. -/
def slashName? (names : Position) : Option String :=
  (names.mapM Bytes.text?).map fun texts => "/".intercalate texts

namespace Store

/-- What a listing says about one entry below its base. -/
inductive Listed
  | object (info : ObjectInfo)
  /-- A regular file whose name is no text. -/
  | nameless
  | skipped
  /-- An entry that cannot be looked at: its path is too long. -/
  | unreachable (doing : String)

def listFile (fs : FileSystem) (base : Pathname) (ending : String) (names : Position)
    (entry : Entry) : Listed :=
  match slashName? names with
  | none => .nameless
  | some name =>
    if !name.endsWith ending then .skipped
    else if (entryPath base names).fits then .object ⟨name, fs.sizeOf entry⟩
    else .unreachable s!"stat {(entryPath base names).display}"

def listEntry (fs : FileSystem) (base : Pathname) (ending : String) (names : Position) :
    Entry → Listed
  | .file id => listFile fs base ending names (.file id)
  | .directory _ =>
    if (entryPath base names).fits then .skipped
    else .unreachable s!"walking the path {base.display}"
  | _ => .skipped

/-- The objects below a base path, in the order of the walk. -/
def collect (base : Pathname) (ending : String) :
    List (Position × Entry) → Op StorageError (List ObjectInfo)
  | [] => return []
  | (names, entry) :: rest => do
    match listEntry (← get).fs base ending names entry with
    | .object info => return info :: (← collect base ending rest)
    | .skipped => collect base ending rest
    | .unreachable doing =>
      throw (.during doing (.atPath (entryPath base names).display .nameTooLong))
    | .nameless =>
      Op.report
        { level := .debug
          target := objectTarget
          message := "Skipping non-UTF-8 object name"
          fields := [("path", .plain (entryPath base names).display)] }
      collect base ending rest

/-- The objects below the beginning of a name whose remaining names end in the wanted way. -/
def list (s : Store) (beginning ending : String) : Op StorageError (List ObjectInfo) := do
  let base ← s.resolveBeginning beginning
  match (← get).fs.traverse base with
  | .ok found => collect base ending found.entries
  | .error e =>
    if e.kind = .notFound then return []
    else throw (.during s!"walking the path {base.display}" (.atPath base.display e))

end Store

end Depot
