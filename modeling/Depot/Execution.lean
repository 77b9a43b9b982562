import Depot.Log.Basic
import Depot.World
/-!
# Executions

An `Execution` is a world with the streams of one running program and the log that was started in
it, if any.  An execution has one log at most, and keeps it to its end.  `Act.perform` runs an
operation on the world and hands the events it reports to the log.

Main facts: `report_log`, `report_none`.
-/

namespace Depot

structure Execution where
  world : World
  log : Option Log
  /-- What was written to the output stream. -/
  output : Bytes
  /-- What was written to the error stream. -/
  errors : String

namespace Execution

def ofWorld (w : World) : Execution := ⟨w, none, [], ""⟩

def complain (p : Execution) (line : String) : Execution :=
  { p with errors := p.errors ++ line ++ "\n" }

def print (p : Execution) (bytes : Bytes) : Execution := { p with output := p.output ++ bytes }

def reportConsole (p : Execution) (log : Log) (stamp : String) (e : Event) : Execution :=
  match log.console with
  | some coloured => p.complain (e.line coloured stamp)
  | none => p

def reportFile (p : Execution) (log : Log) (stamp : String) (e : Event) : Execution :=
  match log.file with
  | some file =>
    { p with world := p.world.advance (p.world.fs.append file.handle (file.lineOf stamp e)) }
  | none => p

def report (p : Execution) (e : Event) : Execution :=
  match p.log with
  | none => p
  | some log =>
    if log.filter.admits e then
      let stamp := (Moment.ofSeconds p.world.fs.clock).stamp
      (p.reportConsole log stamp e).reportFile log stamp e
    else p

theorem report_none {p : Execution} (h : p.log = none) (e : Event) : p.report e = p := by
  simp [report, h]

@[simp] theorem report_log (p : Execution) (e : Event) : (p.report e).log = p.log := by
  cases h : p.log with
  | none => rw [report_none h, h]
  | some log =>
    rw [report, h]
    simp only
    split
    · cases hc : log.console <;> cases hf : log.file <;>
        simp [reportConsole, reportFile, complain, hc, hf, h]
    · exact h

end Execution

abbrev Act (ε α : Type) := ExceptT ε (StateM Execution) α

namespace Act

variable {ε α : Type}

def complain (line : String) : Act ε Unit := modify (·.complain line)

def print (bytes : Bytes) : Act ε Unit := modify (·.print bytes)

def report (e : Event) : Act ε Unit := modify (·.report e)

/-- Runs an operation on the world; its events go to the log and nowhere else. -/
def attempt {ε' : Type} (op : Op ε α) : Act ε' (Except ε α) := do
  let p ← get
  let (result, world) := op.run { p.world with events := [] }
  let p := { p with world := { world with events := p.world.events } }
  set (world.events.foldr (fun e p => p.report e) p)
  return result

def perform {ε' : Type} (f : ε → ε') (op : Op ε α) : Act ε' α := do
  match ← attempt op with
  | .ok a => return a
  | .error e => throw (f e)

end Act

end Depot
