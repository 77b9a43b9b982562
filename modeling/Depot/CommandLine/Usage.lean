import Depot.CommandLine.Help
/-!
# Faults of a command line

Why a command line is refused, and what else can end its reading: somebody asked for help or for
the version.
-/

namespace Depot.CommandLine

inductive UsageFault
  | unknownArgument (text : String)
  | unknownCommand (text : String)
  | repeated (option : String)
  /-- The value of an option is absent or empty. -/
  | missingValue (option : String)
  /-- A value was attached to a flag. -/
  | unwantedValue (value option : String)
  | badValue (value option reason : String)
  /-- A value that has to be text is none. -/
  | notText
  | missingArguments
  | missingCommand
deriving DecidableEq, Repr

def UsageFault.message : UsageFault → String
  | unknownArgument text => s!"unexpected argument '{text}' found"
  | unknownCommand text => s!"unrecognized subcommand '{text}'"
  | repeated option => s!"the argument '{option}' cannot be used multiple times"
  | missingValue option => s!"a value is required for '{option}' but none was supplied"
  | unwantedValue value option =>
    s!"unexpected value '{value}' for '{option}' found; no more were expected"
  | badValue value option reason => s!"invalid value '{value}' for '{option}': {reason}"
  | notText => "invalid UTF-8 was detected in one or more arguments"
  | missingArguments => "the following required arguments were not provided:"
  | missingCommand => s!"'{programName}' requires a subcommand but one was not provided"

/-- What ends the reading of a command line. -/
inductive Stop
  | shown (text : String)
  | nothing
  | fault (f : UsageFault)
deriving DecidableEq, Repr

end Depot.CommandLine
