import Depot.CommandLine.Program
/-!
# The executable

Runs the program with the arguments, the environment and the input of the system.  All that the
program decides is decided in `runProgram`; here its input is collected, and its streams and its
code are handed on.  The file system it works on is a `FileSystem` in memory, which begins empty.
-/

namespace Depot

def knownVariables : List String := ["STOW__TYPE", "STOW__FILESYSTEM__PATH", "RUST_LOG"]

def readEnvironment : List String → IO (List (String × String))
  | [] => return []
  | name :: rest => do
    let more ← readEnvironment rest
    match ← IO.getEnv name with
    | some value => return (name, value) :: more
    | none => return more

end Depot

open Depot in
def main (args : List String) : IO UInt32 := do
  let environment ← readEnvironment knownVariables
  let input ← (← IO.getStdin).readBinToEnd
  let world := World.ofFileSystem .empty
  let (result, _) := (runProgram (args.map Bytes.ofString) environment input.toList).run world
  (← IO.getStdout).write ⟨result.output.toArray⟩
  (← IO.getStderr).putStr result.errors
  return UInt32.ofNat result.code
