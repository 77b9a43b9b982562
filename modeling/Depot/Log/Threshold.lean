import Depot.Decimal.Whole
import Depot.Log.Event
/-!
# Thresholds

A `Threshold` says up to which level events pass.  It is written as the name of a level in any
case, as its rank, or as `off`.
-/

namespace Depot

inductive Threshold
  | off
  /-- Everything up to a level passes. -/
  | upTo (level : Level)
deriving DecidableEq, Repr, Inhabited

namespace Threshold

def rank : Threshold → Nat
  | off => 0
  | upTo level => level.rank

def admits (t : Threshold) (level : Level) : Bool := level.rank ≤ t.rank

def all : List Threshold := off :: Level.all.map upTo

def name : Threshold → List Char
  | off => "off".toList
  | upTo .error => "error".toList
  | upTo .warn => "warn".toList
  | upTo .info => "info".toList
  | upTo .debug => "debug".toList
  | upTo .trace => "trace".toList

def faultText : String :=
  "error parsing level filter: expected one of \"off\", \"error\", \"warn\", \"info\", " ++
    "\"debug\", \"trace\", or a number 0-5"

def read (text : List Char) : Option Threshold :=
  match readNat64 text with
  | .ok n => all[n]?
  | .error _ =>
    if text = [] then some (upTo .error)
    else all.find? fun t => t.name = text.map Char.toLower

end Threshold

end Depot
