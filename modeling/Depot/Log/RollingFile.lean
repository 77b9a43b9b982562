import Depot.Log.Error
import Depot.Execution
/-!
# The files of a log

A log writes into one file of a series in its directory.  Before it opens a file it removes the
oldest ones of the series, so that with the new one no more are left than it shall keep.
-/

namespace Depot

namespace FileSystem

def readDirectory (fs : FileSystem) (p : Pathname) : Except IoError (List (Bytes × Entry)) := do
  let (pos, entry) ← fs.locateEntry true p
  if entry.isDirectory then
    return (fs.below pos).filterMap fun (names, entry) =>
      match names with
      | [name] => some (name, entry)
      | _ => none
  else throw .notDirectory

/-- The regular files of a directory that belong to the series of a log, the oldest first; of two
files the one with the smaller identity is the older. -/
def logFiles (fs : FileSystem) (dir : Pathname) (logName : String) :
    Except IoError (List Bytes) := do
  let entries ← fs.readDirectory dir
  let series := entries.filterMap fun (name, entry) =>
    match entry, Bytes.text? name with
    | .file id, some text =>
      if text.startsWith logName && text.endsWith logEnding then some (name, id) else none
    | _, _ => none
  return (series.mergeSort fun a b => a.2 ≤ b.2).map (·.1)

end FileSystem

/-- How many of a number of files have to go so that one more makes no more than `maxFiles`. -/
def excessOf (files maxFiles : Nat) : Nat := if files < maxFiles then 0 else files - (maxFiles - 1)

def removeLogFiles (dir : Pathname) : List Bytes → Act LogError Unit
  | [] => pure ()
  | name :: rest => do
    let path := dir.join ⟨name⟩
    match ← Act.attempt (Op.change_ (·.unlink path) : Op IoError Unit) with
    | .ok () => pure ()
    | .error e => Act.complain s!"Failed to remove old log file {path.display}: {e.message}"
    removeLogFiles dir rest

def pruneLogFiles (dir : Pathname) (logName : String) (maxFiles : Nat) : Act LogError Unit := do
  match (← get).world.fs.logFiles dir logName with
  | .ok files => removeLogFiles dir (files.take (excessOf files.length maxFiles))
  | .error e => Act.complain s!"Error reading the log directory/files: {e.message}"

/-- Opens a file for appending; if that fails, once more after its directory was made. -/
def openLogFile (path : Pathname) : Act LogError Handle := do
  let opening : Op IoError Handle := Op.change (·.openAppend path)
  match ← Act.attempt opening with
  | .ok handle => return handle
  | .error e =>
    match path.parent? with
    | none => throw (.file .file e none)
    | some parent =>
      Act.perform (.file .directory · none) (makeDirectories parent)
      Act.perform (.file .file · none) opening

def openRollingFile (logName : String) (s : LogFileSettings) : Act LogError LogFile := do
  pruneLogFiles s.directory logName s.maxFiles
  let now := Moment.ofSeconds (← get).world.fs.clock
  let handle ← openLogFile (s.directory.join (.ofString (s.rotation.fileName logName now)))
  return ⟨handle, s.records⟩

end Depot
