import Depot.FileSystem.Content
import Depot.Log.Filter
import Depot.Log.Line
import Depot.Time.Moment
/-!
# Logs

`LogSettings` says what a log shows and where; a `Log` is one that was started.  Its console is
the error stream of the execution, its file the current one of a series in a directory.
-/

namespace Depot

/-- How often a log begins a new file. -/
inductive Rotation
  | never
  | daily
  | hourly
  | minutely
deriving DecidableEq, Repr, Inhabited

def Rotation.label? (r : Rotation) (m : Moment) : Option String :=
  match r with
  | never => none
  | daily => some m.date
  | hourly => some s!"{m.date}-{Moment.padded 2 m.hour}"
  | minutely => some s!"{m.date}-{Moment.padded 2 m.hour}-{Moment.padded 2 m.minute}"

def logEnding : String := "log"

def Rotation.fileName (r : Rotation) (logName : String) (m : Moment) : String :=
  match r.label? m with
  | none => s!"{logName}.{logEnding}"
  | some label => s!"{logName}.{label}.{logEnding}"

structure LogFileSettings where
  directory : Pathname
  rotation : Rotation := .daily
  /-- How many files are kept, the current one included. -/
  maxFiles : Nat := 7
  /-- Whether lines are records of JSON. -/
  records : Bool := false
deriving DecidableEq, Repr, Inhabited

structure LogSettings where
  /-- The name of the log, with which the names of its files begin. -/
  name : String
  /-- Whether lines go to the error stream. -/
  console : Bool := true
  coloured : Bool := true
  /-- The threshold where no directive says otherwise. -/
  threshold : Threshold := .upTo .info
  /-- The directives; without them those of the environment count. -/
  filter : Option String := none
  file : Option LogFileSettings := none
deriving DecidableEq, Repr

structure LogFile where
  handle : Handle
  records : Bool
deriving DecidableEq, Repr

structure Log where
  filter : Filter
  /-- Whether lines on the error stream are coloured; none if there are no such lines. -/
  console : Option Bool
  file : Option LogFile
deriving DecidableEq, Repr

def LogFile.lineOf (file : LogFile) (stamp : String) (e : Event) : Bytes :=
  Bytes.ofString <| (if file.records then e.recordLine stamp else e.line false stamp) ++ "\n"

example : Rotation.hourly.fileName "stow" (.ofSeconds 0) = "stow.1970-01-01-00.log" := by decide

end Depot
