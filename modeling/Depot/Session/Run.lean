import Depot.Session.Script
import Depot.CommandLine.Program
/-!
# Running scripts

`Session.runStep` carries out one step and yields its answer; `Session.playSource` reads the source
of a save item by item and runs the steps it meets.  Both are structural in the script.
-/

namespace Depot

/-- A store that is open in a session. -/
structure OpenStore where
  store : Store
  /-- Whether only what every kind of store offers can be used. -/
  general : Bool
deriving DecidableEq, Repr, Inhabited

structure Session where
  world : World
  stores : Table String OpenStore
  readers : Table String Reader

namespace Session

def ofFileSystem (fs : FileSystem) : Session := ⟨.ofFileSystem fs, .empty, .empty⟩

def perform {ε α : Type} (op : Op ε α) : StateM Session (Except ε α) := do
  let session ← get
  let (result, world) := op.run session.world
  set { session with world := world }
  return result

/-- Runs an operation of a store and answers with what it yields. -/
def answerWith {α : Type} (op : Op StorageError α) (answer : α → Answer) :
    StateM Session Answer := do
  match ← perform op with
  | .ok a => return answer a
  | .error e => return .failed e

def withStore (key : String) (f : OpenStore → StateM Session Answer) : StateM Session Answer := do
  match (← get).stores.get? key with
  | some opened => f opened
  | none => return .noStore

def withFiles (key : String) (f : Store → StateM Session Answer) : StateM Session Answer :=
  withStore key fun opened => if opened.general then return .notOffered else f opened.store

def openingOp : Opening → Op StorageError OpenStore
  | .atPath path create => do return ⟨← Store.openAt path create, false⟩
  | .configured config => do return ⟨← config.openStore, false⟩
  | .selected config general => do return ⟨← config.openStore, general⟩

def openStore (key : String) (how : Opening) : StateM Session Answer := do
  match ← perform (openingOp how) with
  | .error e => return .failed e
  | .ok opened =>
    modify fun session => { session with stores := session.stores.set key opened }
    return .opened (if opened.general then none else some opened.store.root)

def treeOf (fs : FileSystem) (path : Pathname) : List TreeEntry :=
  match fs.locateEntry true path with
  | .error _ => []
  | .ok (pos, _) =>
    (fs.below pos).filterMap fun ne => (fs.nodeOf ne.2).map fun node => ⟨ne.1, node⟩

def readObject (store : Store) (name : String) : StateM Session Answer := do
  match ← perform (store.openReader name) with
  | .error e => return .failed e
  | .ok reader =>
    match reader.read none (← get).world.fs with
    | .ok (bytes, _) => return .data bytes
    | .error e => return .readFailed e

/-- Opens an object for reading and keeps the reader under a key. -/
def openReader (store : Store) (name key : String) : StateM Session Answer := do
  match ← perform (store.openReader name) with
  | .error e => return .failed e
  | .ok reader =>
    modify fun session => { session with readers := session.readers.set key reader }
    return .done

def readMore (key : String) (limit : Option Nat) : StateM Session Answer := do
  let session ← get
  match session.readers.get? key with
  | none => return .noReader
  | some reader =>
    match reader.read limit session.world.fs with
    | .ok (bytes, reader) =>
      set { session with readers := session.readers.set key reader }
      return .data bytes
    | .error e => return .readFailed e

/-- Closes the reader under a key and tells whether there was one. -/
def closeReader (key : String) : StateM Session Answer := do
  let session ← get
  set { session with readers := session.readers.remove key }
  return .flag (session.readers.get? key).isSome

/-- The answer of a save, with the answers of the steps that its source ran. -/
def withSteps (steps : List Answer) (answer : Answer) : Answer :=
  if steps.isEmpty then answer else .during answer steps

def finishSave (name : String) (expected : Nat) (w : Writing) : StateM Session Answer :=
  answerWith (Store.endSave name expected w) fun _ => .done

mutual

def runStep : Step → StateM Session Answer
  | .disturb change => do
    match ← perform change.run with
    | .ok () => return .done
    | .error e => return .disturbanceFailed e
  | .tree path => do return .tree (treeOf (← get).world.fs path)
  | .openStore key how => openStore key how
  | .cloneStore key other => withStore key fun opened => do
    modify fun session => { session with stores := session.stores.set other opened }
    return .done
  | .kind key => withStore key fun _ => return .kind .filesystem
  | .root key => withFiles key fun store => return .root store.root
  | .resolve key name => withFiles key fun store =>
    match store.resolve name with
    | .ok path => return .path path
    | .error e => return .failed e
  | .save key name source expected => do
    match (← get).stores.get? key with
    | none => return .noStore
    | some opened =>
      match ← perform (opened.store.beginSave name) with
      | .error e => return .failed e
      | .ok w =>
        let (answer, steps) ← playSource source name expected w
        return withSteps steps answer
  | .read key name => withStore key fun opened => readObject opened.store name
  | .stat key name => withStore key fun opened => answerWith (opened.store.stat name) .info
  | .list key beginning ending => withStore key fun opened =>
    answerWith (opened.store.list beginning ending) .listing
  | .copy key src dst => withStore key fun opened =>
    answerWith (opened.store.copy src dst) fun _ => .done
  | .delete key name => withStore key fun opened =>
    answerWith (opened.store.delete name) fun _ => .done
  | .purge key maxAge => withFiles key fun store => answerWith (store.purge maxAge) .purged
  | .openReader key name reader => withStore key fun opened => openReader opened.store name reader
  | .readMore reader limit => readMore reader limit
  | .closeReader reader => closeReader reader
  | .command args environment input => do
    let session ← get
    let (result, world) := (runProgram args environment input).run session.world
    set { session with world := world }
    return .command result

def runSteps : List Step → StateM Session (List Answer)
  | [] => return []
  | step :: rest => do
    let answer ← runStep step
    return answer :: (← runSteps rest)

/-- Reads the source of a save to its end; yields the answer of the save and those of the steps
that ran meanwhile. -/
def playSource (source : List SourceItem) (name : String) (expected : Nat) (w : Writing) :
    StateM Session (Answer × List Answer) :=
  match source with
  | [] => do return (← finishSave name expected w, [])
  | .delivery d :: rest => do
    match ← perform (w.receive d) with
    | .error e => return (.failed e, [])
    | .ok (.ended w) => return (← finishSave name expected w, [])
    | .ok (.more w) => playSource rest name expected w
  | .steps steps :: rest => do
    let answers ← runSteps steps
    let (answer, more) ← playSource rest name expected w
    return (answer, answers ++ more)

end

end Session

end Depot
