import Depot.Store.Basic
/-!
# Opening a store

`Store.openAt` turns a configured path into the root of a store.  A missing directory is made with
everything above it, unless that is switched off; a symbolic link is replaced by what it leads to;
the result has to be a directory.
-/

namespace Depot

/-- The path that is taken when nothing has to be resolved. -/
def absolutePath (fs : FileSystem) (p : Pathname) : Pathname :=
  Pathname.absolute (.ofRootNames fs.workingDir) p

/-- A path that is not absolute needs a working directory, which may have been removed. -/
def FileSystem.absolute (fs : FileSystem) (p : Pathname) : Except IoError Pathname :=
  match fs.at? (fs.startOf p) with
  | some _ => .ok (absolutePath fs p)
  | none => .error .noEntry

def makeAbsolute (p : Pathname) : Op StorageError Pathname :=
  Op.during s!"absolute path of {p.display}" (Op.query (·.absolute p))

def makeRoot (p : Pathname) : Op StorageError Pathname := do
  Op.during s!"mkdir {p.display}" (makeDirectories p)
  Op.report
    { level := .info
      target := "stow_storage::root"
      message := "Created storage root directory"
      fields := [("path", .plain p.display)] }
  makeAbsolute p

/-- The path and the entry behind an existing path: links are followed, other paths are only
rewritten as text. -/
def existingRoot (p : Pathname) (entry : Entry) : Op StorageError (Pathname × Entry) := do
  if entry.isLink then
    let target ← Op.during s!"resolve link: {p.display}" (Op.query (·.realPath p))
    let entry ← Op.during s!"stat {target.display}" (Op.query (·.linkStat target))
    return (target, entry)
  else return (← makeAbsolute p, entry)

def resolveRoot (p : Pathname) (create : Bool) : Op StorageError Pathname := do
  if p = .empty then
    throw (.invalidConfig "path can't be empty" (some "filesystem backend"))
  match (← get).fs.linkStat p with
  | .error e =>
    if e.kind = .notFound then
      if create then makeRoot p
      else
        throw (.invalidConfig s!"{p.display} does not exist" (some "root creation is disabled"))
    else throw (.during s!"stat {p.display}" e)
  | .ok entry =>
    let (root, entry) ← existingRoot p entry
    if entry.isDirectory then return root
    else throw (.invalidConfig s!"{root.display} is not directory" none)

def Store.openAt (p : Pathname) (create : Bool) : Op StorageError Store := do
  let root ← resolveRoot p create
  Op.report
    { level := .debug
      target := "stow_storage::builder"
      message := "Filesystem backend ready"
      fields := [("root", .plain root.display)] }
  return ⟨root⟩

end Depot
