/-!
# Events

What the store reports about its work: a level, the part that reports, a message, and named fields
in the order in which they were recorded.
-/

namespace Depot

/-- How much an event matters, from the most urgent down. -/
inductive Level
  | error
  | warn
  | info
  | debug
  | trace
deriving DecidableEq, Repr, Inhabited

namespace Level

def name : Level → String
  | error => "ERROR"
  | warn => "WARN"
  | info => "INFO"
  | debug => "DEBUG"
  | trace => "TRACE"

def rank : Level → Nat
  | error => 1
  | warn => 2
  | info => 3
  | debug => 4
  | trace => 5

def all : List Level := [error, warn, info, debug, trace]

end Level

/-- The value of a field of an event. -/
inductive FieldValue
  /-- A text that a line of the log shows in quotes. -/
  | quoted (text : String)
  /-- A text that a line of the log shows as it is. -/
  | plain (text : String)
  | number (value : Nat)
deriving DecidableEq, Repr

structure Event where
  level : Level
  /-- The part that reports, as a path of names. -/
  target : String
  message : String
  fields : List (String × FieldValue)
deriving DecidableEq, Repr

end Depot
