import Depot.CommandLine.Program
import Depot.Proofs.CommandLine.Values
import Depot.Proofs.Settings.Override
import Depot.Proofs.Store.Opening
import Depot.Proofs.Text.Utf8
/-!
# The directory on the command line

A command with a directory of its own does what it would do if that directory were opened by itself:
the file of settings only has to be readable, and the environment has no say.  The directory is
passed on as text, though, so one that is not text becomes another one.

* `Request.taskAt` — what a command does in a directory;
* `Request.runTask_root` — which directory that is;
* `root_is_opened` — the whole program, and where the directory leads.
-/

namespace Depot

open CommandLine FileSystem

/-! ## A task in a directory -/

def CommandLine.Task.serve (task : Task) (store : Store) (stream : Bytes) : Act Failure Unit :=
  match task with
  | save name input expected => runSave store name input expected stream
  | read name output => runRead store name output
  | stat name => do printDocument (← performStorage (store.stat name)).document
  | list beginning ending => do
    let objects ← performStorage (store.list beginning ending)
    printDocument (.list (objects.map ObjectInfo.document))
  | copy src dst => do
    performStorage (store.copy src dst)
    reportDone "Copied" [("src", .quoted src), ("dst", .quoted dst)]
  | delete name => do
    performStorage (store.delete name)
    reportDone "Deleted" [("name", .quoted name)]
  | kind => Act.print (Bytes.ofString s!"{BackendKind.filesystem.name}\n")
  | purge maxAge => do printDocument (← performStorage (store.purge maxAge)).document

theorem StorageConfig.openStore_atPath {p : Pathname} (hp : p ≠ .empty) :
    (StorageConfig.atPath p).openStore = Store.openAt p true := by
  have hvalid : (⟨p⟩ : FsConfig).validate = .ok () := if_neg hp
  show (FsConfig.openStore ⟨p⟩ : Op StorageError Store) = _
  rw [FsConfig.openStore, hvalid]
  rfl

namespace CommandLine.Request

variable {r : Request} {root : Pathname}

def checkFile (r : Request) : Act Failure Unit := do
  if let some path := r.config then
    Act.report
      { level := .info
        target := configTarget
        message := s!"Loading config from {path.display}"
        fields := [] }
  let fs := (← get).world.fs
  match match r.config with
    | some name => fs.readSettings name
    | none => .ok [] with
  | .ok _ => return ()
  | .error fault => throw ⟨"Critical: Configuration is malformed", fault.chain⟩

def taskAt (r : Request) (root : Pathname) (stream : Bytes) : Act Failure Unit := do
  r.checkFile
  let store ← Act.perform (fun e => (Failure.ofStorage e).during "Failed to open storage")
    (Store.openAt root true)
  r.task.serve store stream

def runLogged (r : Request) (environment : List (String × String)) (filters : FilterReader)
    (act : Act Failure Unit) : Act Failure Unit := do
  let log ← ExceptT.adapt Failure.ofLog
    (r.logSettings.start ((environment.lookup logVariable).getD "") filters)
  let result ← ExceptT.lift act.run
  log.close
  match result with
  | .ok () => return ()
  | .error f => throw f

theorem loadConfig_root (hroot : r.root = some root) (environment : List (String × String))
    (order : SettingOrder) :
    r.loadConfig environment order = (do
      r.checkFile
      return .atPath (.ofString root.display)) := by
  have hload : ∀ fs : FileSystem,
      StorageConfig.load r.config environment r.root fs order =
        (match r.config with
          | some name => fs.readSettings name
          | none => .ok []) >>= fun _ => .ok (.atPath (.ofString root.display)) := by
    intro fs
    rw [hroot]
    exact StorageConfig.load_root r.config environment root fs order
  rw [loadConfig, checkFile]
  simp only [hload]
  cases r.config with
  | none => rfl
  | some name =>
      dsimp only
      rw [bind_assoc]
      congr 1
      funext u
      rw [bind_assoc]
      congr 1
      funext p
      cases p.world.fs.readSettings name <;> rfl

theorem runTask_root (hroot : r.root = some root) (hne : root ≠ .empty)
    (environment : List (String × String)) (stream : Bytes) (order : SettingOrder) :
    r.runTask environment stream order = r.taskAt (.ofString root.display) stream := by
  have hshown := Pathname.ofString_display_ne_empty hne
  rw [runTask, loadConfig_root hroot, taskAt, bind_assoc]
  congr 1
  funext u
  rw [pure_bind, Task.run, StorageConfig.openForTask, StorageConfig.openStore_atPath hshown]
  cases r.task <;> rfl

end CommandLine.Request

def resultOf (act : Act Failure Unit) : StateM World CommandResult := do
  let (result, e) := act.run (Execution.ofWorld (← get))
  set e.world
  match result with
  | .ok () => return ⟨0, e.output, e.errors⟩
  | .error f => return ⟨1, e.output, e.errors ++ f.report⟩

/-- A program with a directory on its command line works there, as far as the directory is text; and
a store that is opened there lies where the directory leads. -/
theorem root_is_opened {args : List Bytes} {r : Request} {root : Pathname}
    (hargs : Request.read args = .ok r) (hroot : r.root = some root)
    (environment : List (String × String)) (stream : Bytes) (libraries : Libraries) :
    runProgram args environment stream libraries =
        resultOf (r.runLogged environment libraries.filters
          (r.taskAt (.ofString root.display) stream)) ∧
      (Pathname.ofString root.display = root ↔ ∃ text, root = .ofString text) ∧
      ∀ w w' : World, ∀ s, w.fs.WellFormed →
        (∃ mode, w.fs.at? w.fs.workingDir = some (.directory mode)) →
        (Store.openAt root true).run w = (.ok s, w') → w'.fs.IsRootOf root s.root := by
  refine ⟨?_, ?_, fun w w' s hwf hdir hopen => ?_⟩
  · have hrun : r.run environment stream libraries =
        r.runLogged environment libraries.filters
          (r.runTask environment stream libraries.order) := rfl
    rw [runProgram, hargs, ← Request.runTask_root hroot (Request.root_ne_empty hargs hroot)
      environment stream libraries.order, ← hrun]
    rfl
  · exact Pathname.ofString_display_eq_iff
  · exact ((Store.openAt_root_runs hwf (startOf_directory hdir root) true).of_ok rfl hopen).2

/-! ### Directories that are text, and others -/

def saveIn (root : Bytes) : List Bytes :=
  [Bytes.ofString "--root", root, Bytes.ofString "save", Bytes.ofString "n"]

def requestIn (root : Bytes) : Request :=
  ⟨none, some ⟨root⟩, .upTo .warn, none, false, .save "n" none none⟩

/-- A variable that names another kind of store changes nothing. -/
theorem root_is_opened_whatever :
    runProgram (saveIn [47, 114]) [("STOW__TYPE", "s3")] [120] .standard =
      resultOf ((requestIn [47, 114]).runLogged [("STOW__TYPE", "s3")] .standard
        ((requestIn [47, 114]).taskAt ⟨[47, 114]⟩ [120])) := by
  have hread : Request.read (saveIn [47, 114]) = .ok (requestIn [47, 114]) := by decide +kernel
  obtain ⟨hprogram, htext, -⟩ := root_is_opened hread rfl [("STOW__TYPE", "s3")] [120] .standard
  have hroot : (⟨[47, 114]⟩ : Pathname) = .ofString "/r" := rfl
  rwa [htext.2 ⟨"/r", hroot⟩] at hprogram

/-- Two directories that are no text become one, and neither is touched. -/
theorem roots_coincide :
    (∀ b ∈ ([254, 255] : Bytes),
      ((runProgram (saveIn [47, 114, b]) [] [120]).run (.ofFileSystem .empty)).1.code = 0 ∧
      ((runProgram (saveIn [47, 114, b]) [] [120]).run (.ofFileSystem .empty)).2.fs.view
        [[114, 239, 191, 189], [110]] = some (.file [120] fileMode) ∧
      ((runProgram (saveIn [47, 114, b]) [] [120]).run (.ofFileSystem .empty)).2.fs.view
        [[114, b]] = none) ∧
    ∀ b ∈ ([254, 255] : Bytes),
      ((Store.openAt ⟨[47, 114, b]⟩ true).run (.ofFileSystem .empty)).2.fs.view [[114, b]] =
        some (.directory directoryMode) := by
  constructor <;> decide +kernel

end Depot
