import Depot.Log.RollingFile
/-!
# Starting and closing a log

`LogSettings.start` checks the settings, reads the filter, opens the file, and gives the log to the
execution, in this order: settings that are no good are refused before anything is made, and an
execution that has a log already keeps it.
-/

namespace Depot

def logTarget : String := "stow_logger"

def LogError.setting (text : String) : LogError := .invalid text none

namespace LogSettings

def validate (s : LogSettings) : Except LogError Unit :=
  if isBlankText s.name then .error (.setting "Logger name cannot be empty")
  else if s.file.any fun file => file.maxFiles = 0 then
    .error (.setting "max_files must be greater than zero")
  else .ok ()

/-- Reads the filter: the directives of the settings, or those of the environment without the bad
ones, of which the execution complains. -/
def readFilter (s : LogSettings) (environment : String) (reader : FilterReader) :
    Act LogError Filter :=
  match s.filter with
  | some text =>
    match reader.strict s.threshold text.toList with
    | .ok filter => return filter
    | .error fault => throw (.setting s!"Invalid env filter '{text}': {fault}")
  | none => do
    let (filter, bad) := reader.lenient s.threshold environment.toList
    bad.forM fun (text, fault) =>
      Act.complain ("ignoring \u0060" ++ String.ofList text ++ "\u0060: " ++ fault)
    return filter

def openFile (s : LogSettings) : Act LogError (Option LogFile) := do
  match s.file with
  | none => return none
  | some file =>
    let dir := file.directory.display
    Act.perform (.directory · (some s!"Failed to create log directory: {dir}"))
      (makeDirectories file.directory)
    some <$> ExceptT.adapt (·.withContext s!"Failed to open log directory: {dir}")
      (openRollingFile s.name file)

def start (s : LogSettings) (environment : String) (reader : FilterReader := .standard) :
    Act LogError Log := do
  s.validate
  let filter ← s.readFilter environment reader
  let file ← s.openFile
  if !s.console && file.isNone then
    throw (.setting "No logging layers enabled. Enable console or file output.")
  let log : Log := ⟨filter, if s.console then some s.coloured else none, file⟩
  if (← get).log.isSome then throw (.taken none)
  modify fun p => { p with log := some log }
  return log

end LogSettings

def Log.close {ε : Type} (log : Log) : Act ε Unit :=
  if log.file.isSome then
    Act.report
      { level := .debug
        target := logTarget
        message := "Logging system shutting down, flushing buffers"
        fields := [] }
  else pure ()

end Depot
