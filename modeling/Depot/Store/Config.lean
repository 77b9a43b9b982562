import Depot.Store.Root
/-!
# Configuration of a store

A `StorageConfig` names a kind of store and, for the kind that keeps objects in files, a directory.
The other kinds can be named and are refused.
-/

namespace Depot

/-- The kinds of store that a configuration can name. -/
inductive BackendKind
  | filesystem
  | s3
  | azure
  | gcs
  | blackhole
deriving DecidableEq, Repr, Inhabited

namespace BackendKind

def name : BackendKind → String
  | filesystem => "filesystem"
  | s3 => "s3"
  | azure => "azure"
  | gcs => "gcs"
  | blackhole => "blackhole"

def all : List BackendKind := [filesystem, s3, azure, gcs, blackhole]

def ofName? (name : String) : Option BackendKind := all.find? fun kind => kind.name = name

theorem ofName?_name (kind : BackendKind) : ofName? kind.name = some kind := by
  cases kind <;> decide

end BackendKind

structure FsConfig where
  path : Pathname
deriving DecidableEq, Repr, Inhabited

structure StorageConfig where
  kind : BackendKind
  filesystem : Option FsConfig
deriving DecidableEq, Repr, Inhabited

namespace FsConfig

def validate (c : FsConfig) : Except StorageError Unit :=
  if c.path = .empty then .error (.invalidConfig "path can't be empty" (some "filesystem"))
  else .ok ()

def openStore (c : FsConfig) : Op StorageError Store := do
  c.validate
  Store.openAt c.path true

end FsConfig

namespace StorageConfig

def default : StorageConfig := ⟨.filesystem, none⟩

def atPath (path : Pathname) : StorageConfig := ⟨.filesystem, some ⟨path⟩⟩

def section? (c : StorageConfig) : Except StorageError FsConfig :=
  if c.kind ≠ .filesystem then
    .error (.invalidConfig s!"backend type '{c.kind.name}' is not supported" none)
  else
    match c.filesystem with
    | some fs => .ok fs
    | none =>
      .error (.invalidConfig "missing [filesystem] section" (some "type = \"filesystem\""))

def validate (c : StorageConfig) : Except StorageError Unit := do
  (← c.section?).validate

def openStore (c : StorageConfig) : Op StorageError Store := do
  (← c.section?).openStore

end StorageConfig

end Depot
