import Depot.Log.Threshold
import Depot.Path.Pathname
/-!
# Declarations of the command line

What the program can be given: options that every command takes, and the commands with their own
arguments and options.  Reading and the help texts both follow these declarations.
-/

namespace Depot.CommandLine

inductive ValueKind
  /-- A path that is not empty. -/
  | path
  | text
  /-- A whole number of 64 bits. -/
  | number
  | threshold
deriving DecidableEq, Repr

/-- An option, written with two dashes and its name. -/
structure OptionDecl where
  name : String
  /-- The letter that stands for the name behind one dash. -/
  letter : Option Char := none
  /-- The name and the kind of its value; an option without one is a flag. -/
  value : Option (String × ValueKind)
  help : String
  /-- The value that counts when it is absent, as the help shows it. -/
  default : Option String := none
  /-- The option that has to be there with it. -/
  needs : Option String := none
deriving DecidableEq, Repr

def OptionDecl.display (o : OptionDecl) : String :=
  match o.value with
  | some (name, _) => s!"--{o.name} <{name}>"
  | none => s!"--{o.name}"

/-- An argument, given by its place; it has to be there and is a text. -/
structure ArgumentDecl where
  name : String
  help : String
deriving DecidableEq, Repr

def ArgumentDecl.display (a : ArgumentDecl) : String := s!"<{a.name}>"

inductive Verb
  | save
  | read
  | stat
  | list
  | copy
  | delete
  | kind
  | purge
deriving DecidableEq, Repr

structure CommandDecl where
  verb : Verb
  name : String
  about : String
  arguments : List ArgumentDecl
  options : List OptionDecl
deriving DecidableEq, Repr

def programName : String := "stow"

def programVersion : String := "0.1.0"

def programAbout : String := "Store, inspect and restore backup objects"

def sharedOptions : List OptionDecl := [
  { name := "config"
    value := some ("FILE", .path)
    help := "Storage configuration file (TOML, YAML or JSON)" },
  { name := "root"
    value := some ("DIR", .path)
    help := "Filesystem root; overrides the configured backend" },
  { name := "log-level"
    value := some ("LEVEL", .threshold)
    help := "Minimum level written to stderr and log files"
    default := some "warn" },
  { name := "log-dir"
    value := some ("DIR", .path)
    help := "Directory for rolling log files" },
  { name := "log-json"
    value := none
    help := "Write log files as JSON lines"
    needs := some "log-dir" }]

def objectArgument : ArgumentDecl := ⟨"NAME", "Object name"⟩

def commands : List CommandDecl := [
  { verb := .save
    name := "save"
    about := "Store an object atomically, reading from a file or stdin"
    arguments := [objectArgument]
    options := [
      { name := "input"
        letter := some 'i'
        value := some ("INPUT", .path)
        help := "Read content from this file instead of stdin" },
      { name := "size-hint"
        value := some ("SIZE_HINT", .number)
        help := "Expected size in bytes (advisory)" }] },
  { verb := .read
    name := "read"
    about := "Stream an object to a file or stdout"
    arguments := [objectArgument]
    options := [
      { name := "output"
        letter := some 'o'
        value := some ("OUTPUT", .path)
        help := "Write content to this file instead of stdout" }] },
  { verb := .stat
    name := "stat"
    about := "Print the name and size of an object as JSON"
    arguments := [objectArgument]
    options := [] },
  { verb := .list
    name := "list"
    about := "List objects as a JSON array"
    arguments := []
    options := [
      { name := "prefix"
        value := some ("PREFIX", .text)
        help := "Only objects below this prefix"
        default := some "\"\"" },
      { name := "suffix"
        value := some ("SUFFIX", .text)
        help := "Only names ending with this suffix"
        default := some "\"\"" }] },
  { verb := .copy
    name := "copy"
    about := "Copy an object to a new name"
    arguments := [⟨"SRC", "Source object name"⟩, ⟨"DST", "Destination object name"⟩]
    options := [] },
  { verb := .delete
    name := "delete"
    about := "Delete an object, recursively for directories"
    arguments := [objectArgument]
    options := [] },
  { verb := .kind
    name := "kind"
    about := "Print the configured backend type"
    arguments := []
    options := [] },
  { verb := .purge
    name := "purge"
    about := "Remove stale staging artifacts left by interrupted writes"
    arguments := []
    options := [
      { name := "max-age-secs"
        value := some ("MAX_AGE_SECS", .number)
        help := "Only artifacts at least this old are removed"
        default := some "300" }] }]

/-- The command that shows the help of others; it is not declared like them. -/
def helpCommand : String := "help"

def helpAbout : String := "Print this message or the help of the given subcommand(s)"

end Depot.CommandLine
