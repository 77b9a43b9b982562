import Depot.World
/-!
# Disturbances

What other programs do to the file system between and during the operations of a store.
-/

namespace Depot

/-- A change of the file system that no store makes. -/
inductive Disturbance
  /-- Writes a file, the directories above it made; with an age, its last change lies back that
  many seconds. -/
  | write (path : Pathname) (bytes : Bytes) (age : Option Int)
  /-- Makes a directory and those above it. -/
  | makeDirectory (path : Pathname)
  | makeLink (path target : Pathname)
  | makeHardLink (path existing : Pathname)
  | setMode (path : Pathname) (mode : Nat)
  | move (path target : Pathname)
  | remove (path : Pathname)
  /-- Lets the clock show another time. -/
  | setClock (time : Int)
deriving DecidableEq, Repr

def writeFile (path : Pathname) (bytes : Bytes) : Op IoError Unit := do
  let handle ← Op.change (·.create path)
  Op.change_ fun fs => .ok (fs.writeAt handle 0 bytes)

def Disturbance.run : Disturbance → Op IoError Unit
  | write path bytes age => do
    if let some parent := path.parent? then makeDirectories parent
    writeFile path bytes
    match age with
    | some seconds => Op.change_ fun fs => fs.setModified path (fs.clock - seconds)
    | none => pure ()
  | makeDirectory path => makeDirectories path
  | makeLink path target => Op.change_ (·.makeLink target path)
  | makeHardLink path existing => Op.change_ (·.makeHardLink existing path)
  | setMode path mode => Op.change_ (·.setMode path mode)
  | move path target => Op.change_ (·.rename path target)
  | remove path => do
    let entry ← Op.query (·.linkStat path)
    if entry.isDirectory then removeTree path else Op.change_ (·.unlink path)
  | setClock time => Op.change_ fun fs => .ok { fs with clock := time }

end Depot
