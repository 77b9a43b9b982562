import Depot.FileSystem.Content
import Depot.FileSystem.Directory
import Depot.Log.Event
/-!
# The world of an operation

An operation works on a `World`: the file system, the states it went through and the events that
were reported.  `past` is the answer to the question what could be found after a crash: every
change of the file system is one step of `World.advance`, and the state before it is kept.

`Op ε α` is an operation that yields an `α` or fails with an `ε`; what it changed before it failed
stays changed.
-/

namespace Depot

structure World where
  fs : FileSystem
  /-- The earlier states of the file system, the latest first. -/
  past : List FileSystem
  events : List Event

namespace World

def ofFileSystem (fs : FileSystem) : World := ⟨fs, [], []⟩

def advance (w : World) (fs : FileSystem) : World := { w with fs := fs, past := w.fs :: w.past }

def report (w : World) (e : Event) : World := { w with events := e :: w.events }

/-- All states that the file system went through, the latest first. -/
def states (w : World) : List FileSystem := w.fs :: w.past

end World

abbrev Op (ε α : Type) := ExceptT ε (StateM World) α

namespace Op

variable {ε α : Type}

def query (f : FileSystem → Except ε α) : Op ε α := do
  match f (← get).fs with
  | .ok a => return a
  | .error e => throw e

/-- Changes the file system in one step, or fails and leaves it alone. -/
def change (f : FileSystem → Except ε (FileSystem × α)) : Op ε α := do
  match f (← get).fs with
  | .ok (fs, a) =>
    modify (·.advance fs)
    return a
  | .error e => throw e

/-- Changes the file system in one step, or fails and leaves it alone. -/
def change_ (f : FileSystem → Except ε FileSystem) : Op ε Unit :=
  change fun fs => (·, ()) <$> f fs

def report (e : Event) : Op ε Unit := modify (·.report e)

def mapError {ε' : Type} (f : ε → ε') (op : Op ε α) : Op ε' α := ExceptT.adapt f op

def attempt {ε' : Type} (op : Op ε α) : Op ε' (Except ε α) := ExceptT.lift op.run

end Op

/-- Makes the directories that are still missing, from the root side down. -/
def makePending : List Pathname → Op IoError Unit
  | [] => pure ()
  | p :: rest => do
    match ← Op.attempt (Op.change_ (·.makeDirectory p)) with
    | .ok () => makePending rest
    | .error e =>
      if e.kind = .alreadyExists ∧ (← get).fs.leadsToDirectory p then makePending rest
      else throw e

/-- Goes up until a directory can be made or is there, then comes down again. -/
def makeFrom (pending : List Pathname) : List Pathname → Op IoError Unit
  | [] => makePending pending
  | p :: rest => do
    if p = .empty ∨ p.parent? = none then makePending pending
    else match ← Op.attempt (Op.change_ (·.makeDirectory p)) with
      | .ok () => makePending pending
      | .error e =>
        if e.kind = .notFound then makeFrom (p :: pending) rest
        else if e.kind = .alreadyExists ∧ (← get).fs.leadsToDirectory p then makePending pending
        else throw e

/-- Makes a directory and every directory above it that is missing. -/
def makeDirectories (p : Pathname) : Op IoError Unit :=
  makeFrom [] (p.ancestors (p.bytes.length + 1))

/-- Removes a directory with everything in it: the directory is emptied and then looked for again,
and if nothing is found any more, that is no failure. -/
def removeTree (p : Pathname) : Op IoError Unit := do
  Op.change_ (·.emptyDirectory p)
  match ← Op.attempt (Op.change_ (·.removeDirectory p)) with
  | .ok () => pure ()
  | .error e => if e.kind = .notFound then pure () else throw e

end Depot
