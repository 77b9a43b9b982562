import Depot.CommandLine.Request
import Depot.Log.Start
import Depot.Session.Script
import Depot.Settings.Load
import Depot.Store.Json
/-!
# The program

`runProgram` reads a command line, starts the log, loads the configuration, and does what was
asked for.  What fails ends the program with a message and its causes on the error stream, after
the log was closed.
-/

namespace Depot

open CommandLine

/-- A failure that ends the program: its text and those of the failures behind it. -/
structure Failure where
  message : String
  causes : List String
deriving DecidableEq, Repr

namespace Failure

def ofStorage (e : StorageError) : Failure := ⟨e.message, e.causes⟩

def ofIo (e : IoError) : Failure := ⟨e.message, e.causes.map IoError.message⟩

def ofLog (e : LogError) : Failure := ⟨e.message, e.causes⟩

def during (doing : String) (f : Failure) : Failure := ⟨doing, f.message :: f.causes⟩

def indented (first further : String) (text : String) : String :=
  first ++ ("\n" ++ further).intercalate (text.splitOn "\n")

def causeLines : List String → List String
  | [] => []
  | [cause] => [indented "    " "    " cause]
  | causes => causes.zipIdx.map fun (cause, n) =>
    let number := toString n
    indented (String.ofList (List.replicate (5 - number.length) ' ') ++ number ++ ": ")
      "       " cause

def report (f : Failure) : String :=
  s!"Error: {f.message}\n" ++
    if f.causes = [] then ""
    else "\nCaused by:\n" ++ String.join ((causeLines f.causes).map (· ++ "\n"))

end Failure

def commandTarget : String := "stow::commands"

def configTarget : String := "stow::config"

def reportDone (message : String) (fields : List (String × FieldValue)) : Act Failure Unit :=
  Act.report { level := .info, target := commandTarget, message := message, fields := fields }

def printDocument (d : Json.Document) : Act Failure Unit :=
  Act.print (Bytes.ofString (String.ofList d.pretty ++ "\n"))

namespace StorageConfig

def openForTask (config : StorageConfig) : Act Failure Store :=
  Act.perform (fun e => (Failure.ofStorage e).during "Failed to open storage") config.openStore

end StorageConfig

def performStorage {α : Type} (op : Op StorageError α) : Act Failure α :=
  Act.perform Failure.ofStorage op

def performIo {α : Type} (op : Op IoError α) : Act Failure α := Act.perform Failure.ofIo op

def runSave (store : Store) (name : String) (input : Option Pathname) (expected : Option Nat)
    (stream : Bytes) : Act Failure Unit := do
  match input with
  | some path =>
    let handle ← Act.perform (fun e => (Failure.ofIo e).during s!"Failed to open {path.display}")
      (Op.query (·.openRead path))
    let size := (← get).world.fs.lengthOf handle
    performStorage (store.saveFrom name (deliveriesOf handle) (expected.getD size))
  | none => performStorage (store.save name [.chunk stream] (expected.getD 0))
  reportDone "Saved" [("name", .quoted name)]

def writeOutput (handle : Handle) (bytes : Bytes) : Op IoError Unit := do
  Op.change_ fun fs => .ok (fs.writeAt handle 0 bytes)
  Op.query fun _ => FileSystem.sync handle

def runRead (store : Store) (name : String) (output : Option Pathname) : Act Failure Unit := do
  let reader ← performStorage (store.openReader name)
  let content : Op IoError Bytes := Op.query fun fs => Prod.fst <$> reader.read none fs
  let bytes ← match output with
    | some path => do
      let handle ← Act.perform
        (fun e => (Failure.ofIo e).during s!"Failed to create {path.display}")
        (Op.change (·.create path))
      let bytes ← performIo content
      performIo (writeOutput handle bytes)
      pure bytes
    | none => do
      let bytes ← performIo content
      Act.print bytes
      pure bytes
  reportDone "Read" [("name", .quoted name), ("bytes", .number bytes.length)]

def CommandLine.Task.run (task : Task) (config : StorageConfig) (stream : Bytes) :
    Act Failure Unit := do
  let store ← config.openForTask
  match task with
  | save name input expected => runSave store name input expected stream
  | read name output => runRead store name output
  | stat name => do printDocument (← performStorage (store.stat name)).document
  | list beginning ending => do
    let objects ← performStorage (store.list beginning ending)
    printDocument (.list (objects.map ObjectInfo.document))
  | copy src dst => do
    performStorage (store.copy src dst)
    reportDone "Copied" [("src", .quoted src), ("dst", .quoted dst)]
  | delete name => do
    performStorage (store.delete name)
    reportDone "Deleted" [("name", .quoted name)]
  | kind => Act.print (Bytes.ofString s!"{config.kind.name}\n")
  | purge maxAge => do printDocument (← performStorage (store.purge maxAge)).document

/-- What a program leaves to the libraries that it is built with. -/
structure Libraries where
  /-- The order in which the entries of the layers of settings are put in place. -/
  order : SettingOrder
  /-- How the directives of the log are read. -/
  filters : FilterReader

def Libraries.standard : Libraries := ⟨.asWritten, .standard⟩

namespace CommandLine.Request

def logSettings (r : Request) : LogSettings where
  name := programName
  coloured := false
  threshold := r.threshold
  file := r.logDirectory.map fun dir => { directory := dir, records := r.records }

def loadConfig (r : Request) (environment : List (String × String)) (order : SettingOrder) :
    Act Failure StorageConfig := do
  if let some path := r.config then
    Act.report
      { level := .info
        target := configTarget
        message := s!"Loading config from {path.display}"
        fields := [] }
  match StorageConfig.load r.config environment r.root (← get).world.fs order with
  | .ok config => return config
  | .error fault => throw ⟨"Critical: Configuration is malformed", fault.chain⟩

def runTask (r : Request) (environment : List (String × String)) (stream : Bytes)
    (order : SettingOrder) : Act Failure Unit := do
  r.task.run (← r.loadConfig environment order) stream

/-- The name of the variable of the environment with the directives of the log. -/
def logVariable : String := "RUST_LOG"

/-- Does what was asked for with a log, which is closed in the end. -/
def run (r : Request) (environment : List (String × String)) (stream : Bytes)
    (libraries : Libraries) : Act Failure Unit := do
  let log ← ExceptT.adapt Failure.ofLog
    (r.logSettings.start ((environment.lookup logVariable).getD "") libraries.filters)
  let result ← ExceptT.lift (r.runTask environment stream libraries.order).run
  log.close
  match result with
  | .ok () => return ()
  | .error f => throw f

end CommandLine.Request

def CommandLine.Stop.result : Stop → CommandResult
  | shown text => ⟨0, Bytes.ofString text, ""⟩
  | nothing => ⟨2, [], programHelp⟩
  | fault f => ⟨2, [], s!"error: {f.message}\n"⟩

def runProgram (args : List Bytes) (environment : List (String × String)) (stream : Bytes)
    (libraries : Libraries := .standard) : StateM World CommandResult := do
  match Request.read args with
  | .error stop => return stop.result
  | .ok request =>
    let (result, e) := (request.run environment stream libraries).run (Execution.ofWorld (← get))
    set e.world
    match result with
    | .ok () => return ⟨0, e.output, e.errors⟩
    | .error f => return ⟨1, e.output, e.errors ++ f.report⟩

end Depot
