import Depot.Store.Basic
/-!
# Staged writing

An object is written to a staging file beside it, forced to the medium, and then renamed over the
object.  A `Writing` is a write in progress: it holds the open staging file and knows how many
bytes it has written, so whatever happens to the path of the staging file meanwhile, the bytes go
to the file that was opened.

`beginWriting`, `Writing.append` and `Writing.publish` are the three parts; between them other
operations may run.  A failure in any of them leaves the object alone and removes what is at the
staging path.
-/

namespace Depot

def stagingPath (target : Pathname) : Pathname := target.appended stagingSuffix

structure Writing where
  target : Pathname
  handle : Handle
  /-- How many bytes were written; the next one goes to this offset. -/
  written : Nat
deriving DecidableEq, Repr

def writerTarget : String := "stow_storage::writer"

/-- Removes what is at a staging path, if it can be removed. -/
def discard (staging : Pathname) : Op StorageError Unit := do
  match ← Op.attempt (Op.change_ (·.unlink staging)) with
  | .ok () =>
    Op.report
      { level := .debug
        target := writerTarget
        message := "Staging artifact discarded"
        fields := [("path", .plain staging.display)] }
  | .error e =>
    if e.kind = .notFound then pure ()
    else
      Op.report
        { level := .debug
          target := writerTarget
          message := "Staging artifact left behind"
          fields := [("path", .plain staging.display), ("error", .plain e.message)] }

/-- Runs a part of a write; if it fails, the staging file is removed. -/
def discarding {α : Type} (target : Pathname) (op : Op StorageError α) : Op StorageError α := do
  match ← Op.attempt op with
  | .ok a => return a
  | .error e =>
    discard (stagingPath target)
    throw e

/-- Opens the staging file, emptied, and gives it the mode of objects. -/
def createStaging (target : Pathname) : Op StorageError Writing := do
  let staging := stagingPath target
  let handle ← Op.during s!"create destination file <{staging.display}>"
    (Op.change (·.create staging))
  Op.during s!"change permissions for file <{staging.display}>"
    (Op.change_ (·.setHandleMode handle fileMode))
  return ⟨target, handle, 0⟩

def openStaging (target : Pathname) : Op StorageError Writing := do
  if let some parent := (stagingPath target).parent? then
    Op.during s!"create path {parent.display}" (makeDirectories parent)
  createStaging target

theorem openStaging_of_parent {target staging parent : Pathname}
    (hstaging : stagingPath target = staging) (hparent : staging.parent? = some parent) :
    openStaging target = (do
      Op.during s!"create path {parent.display}" (makeDirectories parent)
      createStaging target) := by
  rw [openStaging, hstaging, hparent]

def beginWriting (target : Pathname) : Op StorageError Writing :=
  discarding target (openStaging target)

namespace Writing

def append (w : Writing) (data : Bytes) : Op StorageError Writing := do
  Op.change_ fun fs => .ok (fs.writeAt w.handle w.written data)
  return { w with written := w.written + data.length }

def abort (w : Writing) (e : IoError) : Op StorageError Writing :=
  discarding w.target
    (throw (.during s!"copy file <{(stagingPath w.target).display}>" e))

/-- Forces the staging file to the medium and renames it over the object; yields the number of
bytes published. -/
def publish (w : Writing) : Op StorageError Nat := do
  let staging := stagingPath w.target
  discarding w.target do
    Op.during s!"sync file <{staging.display}>" (Op.query fun _ => FileSystem.sync w.handle)
    Op.during s!"rename <{staging.display}> to <{w.target.display}>"
      (Op.change_ (·.rename staging w.target))
  Op.report
    { level := .debug
      target := writerTarget
      message := "Object published atomically"
      fields := [("path", .plain w.target.display), ("bytes", .number w.written)] }
  return w.written

end Writing

/-- What a source yields when it is read. -/
inductive Delivery
  /-- Some bytes; no bytes are the end of the source. -/
  | chunk (bytes : Bytes)
  /-- A failure; an interruption is only a reason to read again. -/
  | fault (error : IoError)
deriving DecidableEq, Repr

/-- What becomes of a write when its source was read once. -/
inductive Received
  | more (w : Writing)
  | ended (w : Writing)

def Writing.receive (w : Writing) : Delivery → Op StorageError Received
  | .chunk [] => return .ended w
  | .chunk bytes => .more <$> w.append bytes
  | .fault e => if e.kind = .interrupted then return .more w else .more <$> w.abort e

def Writing.receiveAll (w : Writing) : List Delivery → Op StorageError Writing
  | [] => return w
  | d :: rest => do
    match ← w.receive d with
    | .ended w => return w
    | .more w => w.receiveAll rest

/-- Publishes what a source yields as an object.  The source is read after the staging file was
opened. -/
def stageAndPublish (target : Pathname) (source : FileSystem → List Delivery) :
    Op StorageError Nat := do
  let w ← beginWriting target
  let w ← w.receiveAll (source (← get).fs)
  w.publish

def bufferSize : Nat := 8192

def buffersOf (bytes : Bytes) : List Bytes :=
  (List.range ((bytes.length + bufferSize - 1) / bufferSize)).map fun i =>
    (bytes.drop (bufferSize * i)).take bufferSize

def deliveriesOf (h : Handle) (fs : FileSystem) : List Delivery :=
  match fs.readFrom h 0 with
  | .ok bytes => (buffersOf bytes).map .chunk
  | .error e => [.fault e]

end Depot
