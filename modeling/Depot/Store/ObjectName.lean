import Depot.Path.Pathname
import Depot.Store.Error
/-!
# Names of objects

A name is read as a relative path and evaluated as a stack: an ordinary part is pushed, `..` pops,
`.` and empty parts do nothing.  What is left on the stack is the normal form, the names of the
directories and the file below the root of the store.  A name must not start at the root directory
and must never pop an empty stack; the name of an object must leave something, and its last part
must not end in the suffix of staging files.

Main fact: `evaluate_normal`, a normal form is its own value.
-/

namespace Depot

def stagingSuffix : Bytes := Bytes.ofString ".tmp"

inductive NameFault
  | absolute
  | escapesRoot
  | empty
  /-- It would name a staging file. -/
  | reserved
deriving DecidableEq, Repr

namespace NameFault

def rule : NameFault → String
  | absolute => "Absolute names are not allowed"
  | escapesRoot => "Name escapes the storage root via '..'"
  | empty => "Object name cannot be empty"
  | reserved => "Names ending in '.tmp' are reserved for staging"

def toError (name : String) : NameFault → StorageError
  | absolute => .invalidName name (some absolute.rule)
  | escapesRoot => .invalidName name (some escapesRoot.rule)
  | empty => .invalidName s!"'{name}'" (some empty.rule)
  | reserved => .invalidName s!"'{name}'" (some reserved.rule)

end NameFault

namespace ObjectName

open Pathname (Component)

def evaluate : List Bytes → List Component → Except NameFault (List Bytes)
  | stack, [] => .ok stack
  | stack, .current :: rest => evaluate stack rest
  | stack, .normal name :: rest => evaluate (name :: stack) rest
  | [], .parent :: _ => .error .escapesRoot
  | _ :: stack, .parent :: rest => evaluate stack rest
  | _, .root :: _ => .error .absolute

/-- The normal form of a path below the root of the store; it may be empty. -/
def normalize (name : String) : Except NameFault (List Bytes) :=
  List.reverse <$> evaluate [] (Pathname.ofString name).components

/-- A name whose last part is that of a staging file. -/
def isStagingLeaf (leaf : Bytes) : Bool := stagingSuffix.isSuffixOf leaf

def ofObject (name : String) : Except NameFault (List Bytes) := do
  let names ← normalize name
  match names.getLast? with
  | none => throw .empty
  | some leaf => if isStagingLeaf leaf then throw .reserved else return names

/-- The normal form of the beginning of a name, where the empty one stands for the whole store. -/
def ofBeginning (name : String) : Except NameFault (List Bytes) := normalize name

/-! ## Facts -/

theorem evaluate_normal (stack names : List Bytes) :
    evaluate stack (names.map .normal) = .ok (names.reverse ++ stack) := by
  induction names generalizing stack with
  | nil => rfl
  | cons name names ih => simp [evaluate, ih]

example : normalize "./a//b/../c" = .ok [[97], [99]] := rfl
example : normalize "a/../.." = .error .escapesRoot := rfl
example : ofObject "a/b/.." = .ok [[97]] := rfl
example : ofObject "x/./.tmp" = .error .reserved := rfl

end ObjectName

end Depot
