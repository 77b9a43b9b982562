import Depot.Session.Disturbance
import Depot.Store.Config
import Depot.Store.Purge
/-!
# Scripts

A script is a list of steps on stores, open readers and the file system itself.  The source of a
save is scripted, too: between two of its deliveries it can run further steps, to any depth, so a
script can interleave any operations with a write.
-/

namespace Depot

inductive Opening
  /-- At a path, a missing directory made or not. -/
  | atPath (path : Pathname) (create : Bool)
  /-- Through the section of a configuration. -/
  | configured (config : FsConfig)
  /-- Through a whole configuration; `general` hides what only a store in files offers. -/
  | selected (config : StorageConfig) (general : Bool)
deriving DecidableEq, Repr

mutual

/-- One step of a script; stores and readers go by keys. -/
inductive Step
  | disturb (change : Disturbance)
  | tree (path : Pathname)
  | openStore (key : String) (how : Opening)
  | cloneStore (key other : String)
  | kind (key : String)
  | root (key : String)
  | resolve (key name : String)
  | save (key name : String) (source : List SourceItem) (expected : Nat)
  | read (key name : String)
  | stat (key name : String)
  | list (key beginning ending : String)
  | copy (key src dst : String)
  | delete (key name : String)
  | purge (key : String) (maxAge : Nat)
  | openReader (key name reader : String)
  | readMore (reader : String) (limit : Option Nat)
  | closeReader (reader : String)
  /-- Runs the program with arguments, environment and input. -/
  | command (args : List Bytes) (environment : List (String × String)) (input : Bytes)

/-- One item of the source of a save. -/
inductive SourceItem
  | delivery (d : Delivery)
  /-- Steps that run when the source is read at this point. -/
  | steps (steps : List Step)

end

instance : Inhabited Step := ⟨.kind ""⟩

instance : Inhabited SourceItem := ⟨.steps []⟩

/-- An entry as a listing of a tree shows it. -/
structure TreeEntry where
  names : Position
  node : FileSystem.Node
deriving DecidableEq, Repr

structure CommandResult where
  code : Nat
  output : Bytes
  /-- What was written to the error stream. -/
  errors : String
deriving DecidableEq, Repr, Inhabited

inductive Answer
  | done
  | noStore
  | noReader
  /-- The store was opened in a way that does not offer this. -/
  | notOffered
  | disturbanceFailed (error : IoError)
  | failed (error : StorageError)
  | readFailed (error : IoError)
  /-- A store was opened; its root is shown unless it is opened in general. -/
  | opened (root : Option Pathname)
  | root (path : Pathname)
  | path (path : Pathname)
  | kind (kind : BackendKind)
  | data (bytes : Bytes)
  | info (info : ObjectInfo)
  | listing (objects : List ObjectInfo)
  | purged (report : PurgeReport)
  | flag (value : Bool)
  | tree (entries : List TreeEntry)
  | command (result : CommandResult)
  /-- The answer of a save whose source ran steps, and the answers of those. -/
  | during (answer : Answer) (steps : List Answer)

end Depot
