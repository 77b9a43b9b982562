import Depot.Json.Record
import Depot.Json.Writer
import Depot.Store.Config
import Depot.Store.Object
import Depot.Store.Purge
/-!
# JSON forms of the data of a store

Configurations and what a store tells about objects are written as JSON and read back.  A section
that is absent is not written; members that are absent take their default, but an object needs its
name and its size.  A configuration is only written if its path is text.
-/

namespace Depot

open Json

namespace BackendKind

def document (kind : BackendKind) : Document := .text kind.name

def readJson : Json.Reader BackendKind := readChoice (all.map name) ofName?

end BackendKind

namespace FsConfig

def document (config : FsConfig) : Document := .record [("path", .text config.path.display)]

/-- What a section is written as; other bytes than those of a text have no JSON form. -/
def serialize (config : FsConfig) : Except String Document :=
  match Bytes.text? config.path.bytes with
  | some _ => .ok config.document
  | none => .error "path contains invalid UTF-8 characters"

def shape : Shape (Option Pathname) where
  name := "FsConfig"
  complete := false
  start := none
  members := [{
    name := "path"
    present := Option.isSome
    read := fun _ s => do
      let (path, s) ← readText "path string" s
      return (some (.ofString path), s) }]

def readJson : Json.Reader FsConfig := fun s => do
  let (path, s) ← shape.read s
  return (⟨path.getD .empty⟩, s)

end FsConfig

namespace StorageConfig

def document (config : StorageConfig) : Document :=
  .record <| ("type", config.kind.document) ::
    match config.filesystem with
    | some files => [("filesystem", files.document)]
    | none => []

/-- What a configuration is written as, if its section can be written. -/
def serialize (config : StorageConfig) : Except String Document := do
  if let some files := config.filesystem then
    let _ ← files.serialize
  return config.document

structure Partial where
  kind : Option BackendKind
  filesystem : Option (Option FsConfig)

def shape : Shape Partial where
  name := "StorageConfig"
  complete := false
  start := ⟨none, none⟩
  members := [
    { name := "type"
      present := fun c => c.kind.isSome
      read := fun c s => do
        let (kind, s) ← BackendKind.readJson s
        return ({ c with kind := some kind }, s) },
    { name := "filesystem"
      present := fun c => c.filesystem.isSome
      read := fun c s => do
        let (filesystem, s) ← readOptional FsConfig.readJson s
        return ({ c with filesystem := some filesystem }, s) }]

def readJson : Json.Reader StorageConfig := fun s => do
  let (c, s) ← shape.read s
  return (⟨c.kind.getD .filesystem, c.filesystem.getD none⟩, s)

end StorageConfig

namespace ObjectInfo

def document (info : ObjectInfo) : Document :=
  .record [("name", .text info.name), ("size", .natural info.size)]

structure Partial where
  name : Option String
  size : Option Nat

def shape : Shape Partial where
  name := "FileInfo"
  complete := true
  start := ⟨none, none⟩
  members := [
    { name := "name"
      present := fun info => info.name.isSome
      read := fun info s => do
        let (name, s) ← readText "a string" s
        return ({ info with name := some name }, s) },
    { name := "size"
      present := fun info => info.size.isSome
      read := fun info s => do
        let (size, s) ← readNatural s
        return ({ info with size := some size }, s) }]

def readJson : Json.Reader ObjectInfo := fun s => do
  let (info, s) ← shape.read s
  return (⟨info.name.getD "", info.size.getD 0⟩, s)

end ObjectInfo

def PurgeReport.document (report : PurgeReport) : Document :=
  .record [("removed", .natural report.removed), ("failed", .natural report.failed)]

end Depot
