import Depot.FileSystem.IoError
import Depot.Store.Error
/-!
# Failures of the log

Why a log could not be started.  As with the failures of the store, every failure can carry a
context.
-/

namespace Depot

/-- What could not be made for the file of a log. -/
inductive LogPart
  | directory
  | file
deriving DecidableEq, Repr, Inhabited

def LogPart.word : LogPart → String
  | directory => "directory"
  | file => "file"

inductive LogError
  /-- The file of the log could not be opened. -/
  | file (part : LogPart) (source : IoError) (context : Option String)
  /-- The execution has a log already. -/
  | taken (context : Option String)
  /-- The directory of the log could not be made. -/
  | directory (source : IoError) (context : Option String)
  | invalid (text : String) (context : Option String)
deriving DecidableEq, Repr, Inhabited

namespace LogError

def takenText : String := "a global default trace dispatcher has already been set"

def fileText (part : LogPart) (source : IoError) : String :=
  s!"failed to create log {part.word}: {source.message}"

def message : LogError → String
  | file part source context =>
    s!"Rolling file appender error{formatContext context}: {fileText part source}"
  | taken context => s!"Tracing subscriber error{formatContext context}: {takenText}"
  | directory source context => s!"Log directory error{formatContext context}: {source.message}"
  | invalid text context => s!"Invalid logger configuration{formatContext context}: {text}"

def withContext (e : LogError) (context : String) : LogError :=
  match e with
  | file part source _ => file part source (some context)
  | taken _ => taken (some context)
  | directory source _ => directory source (some context)
  | invalid text _ => invalid text (some context)

def causes : LogError → List String
  | file part source _ => [fileText part source, source.message]
  | taken _ => [takenText]
  | directory source _ => source.message :: source.causes.map IoError.message
  | invalid _ _ => []

@[simp] theorem withContext_withContext (e : LogError) (c d : String) :
    (e.withContext c).withContext d = e.withContext d := by cases e <;> rfl

end LogError

end Depot
