import Depot.CommandLine.Reader
/-!
# Requests

A `Request` is what a command line asks for, with all defaults filled in.
-/

namespace Depot.CommandLine

inductive Task
  /-- Stores an object from a file or from the input stream. -/
  | save (name : String) (input : Option Pathname) (expected : Option Nat)
  /-- Writes an object to a file or to the output stream. -/
  | read (name : String) (output : Option Pathname)
  | stat (name : String)
  | list (beginning ending : String)
  | copy (src dst : String)
  | delete (name : String)
  | kind
  | purge (maxAge : Nat)
deriving DecidableEq, Repr

structure Request where
  config : Option Pathname
  /-- The directory that overrides the settings. -/
  root : Option Pathname
  threshold : Threshold
  /-- The directory of the files of the log. -/
  logDirectory : Option Pathname
  /-- Whether the lines in those files are records. -/
  records : Bool
  task : Task
deriving DecidableEq, Repr

namespace Values

def path? (values : Values) (name : String) : Option Pathname :=
  match values.lookup name with
  | some (.path p) => some p
  | _ => none

def text (values : Values) (name : String) : String :=
  match values.lookup name with
  | some (.text s) => s
  | _ => ""

def number? (values : Values) (name : String) : Option Nat :=
  match values.lookup name with
  | some (.number n) => some n
  | _ => none

def threshold? (values : Values) (name : String) : Option Threshold :=
  match values.lookup name with
  | some (.threshold t) => some t
  | _ => none

def has (values : Values) (name : String) : Bool := (values.lookup name).isSome

end Values

def defaultMaxAge : Nat := 300

def Verb.task (verb : Verb) (values : Values) : Task :=
  let object := Values.text values objectArgument.name
  match verb with
  | .save => .save object (Values.path? values "input") (Values.number? values "size-hint")
  | .read => .read object (Values.path? values "output")
  | .stat => .stat object
  | .list => .list (Values.text values "prefix") (Values.text values "suffix")
  | .copy => .copy (Values.text values "SRC") (Values.text values "DST")
  | .delete => .delete object
  | .kind => .kind
  | .purge => .purge ((Values.number? values "max-age-secs").getD defaultMaxAge)

def Request.read (args : List Bytes) : Except Stop Request := do
  let (command, values) ← readCommandLine args
  return {
    config := Values.path? values "config"
    root := Values.path? values "root"
    threshold := (Values.threshold? values "log-level").getD (.upTo .warn)
    logDirectory := Values.path? values "log-dir"
    records := Values.has values "log-json"
    task := command.verb.task values }

end Depot.CommandLine
