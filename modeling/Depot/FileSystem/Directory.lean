import Depot.FileSystem.Lookup
/-!
# Changing directories

The operations that bind, move and remove entries: `makeDirectory`, `unlink`, `rename`,
`makeLink`, `makeHardLink`, `emptyDirectory`, `removeDirectory` and `setMode`.  Each either fails
and changes nothing or succeeds in one step.
-/

namespace Depot.FileSystem

/-- Makes one directory; anything in its place is in the way. -/
def makeDirectory (fs : FileSystem) (p : Pathname) : Except IoError FileSystem := do
  match ← fs.locateLast p with
  | .special => throw .alreadyExists
  | .name dir name =>
    match fs.at? (dir ++ [name]) with
    | some _ => throw .alreadyExists
    | none => return fs.bind (dir ++ [name]) (.directory directoryMode)

/-- Removes an entry that is not a directory; a link goes, what it points to stays. -/
def unlink (fs : FileSystem) (p : Pathname) : Except IoError FileSystem := do
  match ← fs.locateLast p with
  | .special => throw .isDirectory
  | .name dir name =>
    match fs.at? (dir ++ [name]) with
    | none => throw .noEntry
    | some (.directory _) => throw .isDirectory
    | some _ => if p.endsInSlash then throw .notDirectory else return fs.unbind (dir ++ [name])

def emptyDirectory (fs : FileSystem) (p : Pathname) : Except IoError FileSystem := do
  let (pos, entry) ← fs.locateEntry false p
  if entry.isDirectory then return fs.clear pos else throw .notDirectory

def removeDirectory (fs : FileSystem) (p : Pathname) : Except IoError FileSystem := do
  match ← fs.locateLast p with
  | .special =>
    match p.names.getLast? with
    | none => throw .busy
    | some last => throw (if last = Pathname.dot then .invalid else .notEmpty)
  | .name dir name =>
    match fs.at? (dir ++ [name]) with
    | none => throw .noEntry
    | some (.directory _) =>
      if (fs.below (dir ++ [name])).isEmpty then return fs.unbind (dir ++ [name])
      else throw .notEmpty
    | some _ => throw .notDirectory

def makeLink (fs : FileSystem) (target p : Pathname) : Except IoError FileSystem := do
  checkPath target
  match ← fs.locateLast p with
  | .special => throw .alreadyExists
  | .name dir name =>
    match fs.at? (dir ++ [name]) with
    | some _ => throw .alreadyExists
    | none =>
      if p.endsInSlash then throw .noEntry
      else return fs.bind (dir ++ [name]) (.link target)

/-- Gives an existing entry that is not a directory one more position. -/
def makeHardLink (fs : FileSystem) (existing p : Pathname) : Except IoError FileSystem := do
  let (_, entry) ← fs.locateEntry false existing
  match ← fs.locateLast p with
  | .special => throw .alreadyExists
  | .name dir name =>
    match fs.at? (dir ++ [name]) with
    | some _ => throw .alreadyExists
    | none =>
      if p.endsInSlash then throw .noEntry
      else if entry.isDirectory then throw (.os 1)
      else return fs.bind (dir ++ [name]) entry

/-- The file system with the subtree at one position moved to another. -/
def relocate (fs : FileSystem) (source target : Position) : FileSystem :=
  let moved := fs.entries.pairs.filter fun kv => source.isPrefixOf kv.1
  let stripped := (fs.prune source).prune target
  moved.foldl (fun acc kv => acc.bind (target ++ kv.1.drop source.length) kv.2) stripped

def checkReplace (fs : FileSystem) (source : Entry) (target : Position) :
    Except IoError Unit :=
  match fs.at? target with
  | none => .ok ()
  | some existing =>
    if source.isDirectory then
      if !existing.isDirectory then .error .notDirectory
      else if !(fs.below target).isEmpty then .error .notEmpty
      else .ok ()
    else if existing.isDirectory then .error .isDirectory
    else .ok ()

/-- Moves an entry in one step, over whatever entry of its kind is at the new path.  Two names of
one file stay as they are. -/
def rename (fs : FileSystem) (old new : Pathname) : Except IoError FileSystem := do
  let source ← fs.locateLast old
  let target ← fs.locateLast new
  match source, target with
  | .name oldDir oldName, .name newDir newName =>
    let src := oldDir ++ [oldName]
    let dst := newDir ++ [newName]
    match fs.at? src with
    | none => throw .noEntry
    | some entry =>
      if !entry.isDirectory && (old.endsInSlash || new.endsInSlash) then throw .notDirectory
      if src = dst then return fs
      if src.isPrefixOf dst then throw .invalid
      if dst.isPrefixOf src then throw .notEmpty
      match entry, fs.at? dst with
      | .file a, some (.file b) => if a = b then return fs
      | _, _ => pure ()
      fs.checkReplace entry dst
      if entry.isDirectory then return fs.relocate src dst
      else return (fs.unbind src).bind dst entry
  | _, _ => throw .busy

def setMode (fs : FileSystem) (p : Pathname) (mode : Nat) : Except IoError FileSystem := do
  let (pos, entry) ← fs.locateEntry true p
  match entry with
  | .file id =>
    match fs.file? id with
    | some f => return fs.store id { f with mode := mode }
    | none => return fs
  | .directory _ => if pos = [] then return fs else return fs.bind pos (.directory mode)
  | _ => return fs

end Depot.FileSystem
