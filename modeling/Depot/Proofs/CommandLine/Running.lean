import Depot.CommandLine.Program
import Depot.Proofs.Log.Starting
/-!
# What a command leaves

A command without a directory for its log starts a log that only writes lines, which never fails,
reports that it loads its configuration, and then carries out its task: until then the world is as
it was, and after the task nothing happens to it any more.

* `LogSettings.start_leaves` — starting a log that only writes lines;
* `CommandLine.Request.run_leaves` — what holds after the task holds after the command;
* `runProgram_leaves`, `runProgram_exit` — the exit code of a program that ran a command.
-/

namespace Depot

open CommandLine

namespace Act.Leaves

variable {ε ε' α β : Type} {p : Execution}

theorem caught {act : Act ε α} {next : Except ε α → Act ε' β} {done : β → Execution → Prop}
    {failed : ε' → Execution → Prop}
    (h : act.Leaves p (fun a p' => (next (.ok a)).Leaves p' done failed)
      fun e p' => (next (.error e)).Leaves p' done failed) :
    Act.Leaves (ExceptT.lift act.run >>= next : Act ε' β) p done failed := by
  apply bind
  have hlift : (ExceptT.lift act.run : Act ε' (Except ε α)).run p =
      (.ok (act.run p).1, (act.run p).2) := rfl
  rw [Leaves, hlift]
  obtain ⟨a, p', hact, hnext⟩ | ⟨e, p', hact, hnext⟩ := h.ends
  · rw [hact]
    exact hnext
  · rw [hact]
    exact hnext

end Act.Leaves

namespace LogSettings

open Act

variable {p : Execution}

theorem start_leaves {s : LogSettings} (hvalid : s.validate = .ok ()) (hfilter : s.filter = none)
    (hconsole : s.console = true) (hfile : s.file = none) (environment : String)
    (reader : FilterReader) (hp : p.log = none) :
    (s.start environment reader).Leaves p
      (fun log p' => log.file = none ∧ p'.world = p.world ∧ p'.HasNoLogFile)
      fun _ _ => False := by
  rw [start, hvalid, openFile, hfile, hconsole]
  refine Leaves.bind (Leaves.pure ?_)
  refine Leaves.bind ((readFilter_leaves hfilter environment reader).weaken ?_ fun _ _ h => h)
  rintro _ p₁ ⟨hworld, hlog⟩
  refine Leaves.bind (Leaves.pure ?_)
  rw [if_neg (by simp)]
  refine Leaves.get ?_
  rw [if_neg (by rw [hlog, hp]; simp)]
  refine Leaves.bind (Leaves.modify (Leaves.pure ⟨rfl, hworld, ?_⟩))
  rintro log ⟨⟩
  rfl

end LogSettings

namespace CommandLine.Request

open Act

variable {r : Request} {environment : List (String × String)} {stream : Bytes}

theorem loadConfig_leaves {p : Execution} (hp : p.HasNoLogFile) (order : SettingOrder) :
    (r.loadConfig environment order).Leaves p
      (fun config p' =>
        StorageConfig.load r.config environment r.root p.world.fs order = .ok config ∧
          p'.world = p.world ∧ p'.HasNoLogFile)
      fun _ p' =>
        (∃ fault, StorageConfig.load r.config environment r.root p.world.fs order = .error fault) ∧
          p'.world = p.world := by
  rw [loadConfig]
  dsimp only
  split
  · refine Leaves.bind (Leaves.report hp fun p₁ hworld hp₁ => Leaves.get ?_)
    split
    · rename_i config hconfig
      exact Leaves.pure ⟨hworld ▸ hconfig, hworld, hp₁⟩
    · rename_i fault hfault
      exact Leaves.throw ⟨⟨fault, hworld ▸ hfault⟩, hworld⟩
  · refine Leaves.get ?_
    split
    · rename_i config hconfig
      exact Leaves.pure ⟨hconfig, rfl, hp⟩
    · rename_i fault hfault
      exact Leaves.throw ⟨⟨fault, hfault⟩, rfl⟩

/-- The log of a command without a directory for it starts and touches nothing, so what the task
leaves is what the command leaves; without a configuration everything is left as it was. -/
theorem run_leaves (hlog : r.logDirectory = none) {libraries : Libraries} {w : World}
    {done : Unit → Execution → Prop} {failed : Execution → Prop}
    (hload : ∀ fault p,
      StorageConfig.load r.config environment r.root w.fs libraries.order = .error fault →
        p.world = w → failed p)
    (htask : ∀ config p,
      StorageConfig.load r.config environment r.root w.fs libraries.order = .ok config →
        p.world = w → p.HasNoLogFile → (r.task.run config stream).Leaves p done fun _ => failed) :
    (r.run environment stream libraries).Leaves (Execution.ofWorld w) done fun _ => failed := by
  have hfile : r.logSettings.file = none := by rw [logSettings, hlog]; rfl
  have hvalid : r.logSettings.validate = .ok () := by
    have hname : isBlankText programName = false := by decide
    have hsame : r.logSettings.name = programName := rfl
    rw [LogSettings.validate, hsame, hname, hfile]
    rfl
  rw [run]
  refine Leaves.bind (Leaves.adapt ((LogSettings.start_leaves hvalid rfl rfl hfile _ _ rfl).weaken
    ?_ fun _ _ h => h.elim))
  rintro log p₁ ⟨hnone, hworld, hp₁⟩
  have hclose : (log.close : Act Failure Unit) = pure () := by
    rw [Log.close, hnone]
    rfl
  apply Leaves.caught
  rw [hclose, runTask]
  refine Leaves.bind ((loadConfig_leaves hp₁ _).weaken ?_ ?_)
  · rintro config p₂ ⟨hconfig, hworld', hp₂⟩
    rw [hworld] at hconfig
    refine (htask config p₂ hconfig (hworld'.trans hworld) hp₂).weaken ?_ ?_
    · exact fun u p' h => Leaves.bind (Leaves.pure (Leaves.pure h))
    · exact fun f p' h => Leaves.bind (Leaves.pure (Leaves.throw h))
  · rintro f p₂ ⟨⟨fault, hfault⟩, hworld'⟩
    rw [hworld] at hfault
    exact Leaves.bind (Leaves.pure (Leaves.throw (hload fault p₂ hfault (hworld'.trans hworld))))

theorem run_yields (hlog : r.logDirectory = none) {libraries : Libraries} {w : World}
    {done : Unit → Execution → Prop}
    (htask : ∀ config p,
      StorageConfig.load r.config environment r.root w.fs libraries.order = .ok config →
        p.world = w → p.HasNoLogFile → (r.task.run config stream).Yields p done) :
    (r.run environment stream libraries).Yields (Execution.ofWorld w) done :=
  run_leaves hlog (fun _ _ _ _ => trivial) htask

end CommandLine.Request

theorem runProgram_leaves {args : List Bytes} {environment : List (String × String)}
    {stream : Bytes} {libraries : Libraries} {r : Request} (hargs : Request.read args = .ok r)
    {w : World} {done : Unit → Execution → Prop} {failed : Failure → Execution → Prop}
    (hrun : (r.run environment stream libraries).Leaves (Execution.ofWorld w) done failed) :
    ∃ p', ((runProgram args environment stream libraries).run w).2 = p'.world ∧
      (((runProgram args environment stream libraries).run w).1.code = 0 ∧ done () p' ∨
        ((runProgram args environment stream libraries).run w).1.code = 1 ∧ ∃ f, failed f p') := by
  have hprogram : (runProgram args environment stream libraries).run w =
      match (r.run environment stream libraries).run (Execution.ofWorld w) with
      | (.ok (), p') => (⟨0, p'.output, p'.errors⟩, p'.world)
      | (.error f, p') => (⟨1, p'.output, p'.errors ++ f.report⟩, p'.world) := by
    rw [runProgram, hargs]
    rcases hresult : (r.run environment stream libraries).run (Execution.ofWorld w) with
      ⟨result, p'⟩
    simp only [StateT.run_bind, StateT.run_get, pure_bind, hresult, StateT.run_set]
    cases result <;> rfl
  rw [hprogram]
  rcases hresult : (r.run environment stream libraries).run (Execution.ofWorld w) with ⟨result, p'⟩
  cases result with
  | ok u => exact ⟨p', rfl, Or.inl ⟨rfl, hrun.of_ok hresult⟩⟩
  | error f => exact ⟨p', rfl, Or.inr ⟨rfl, f, hrun.of_error hresult⟩⟩

theorem runProgram_exit {args : List Bytes} {environment : List (String × String)} {stream : Bytes}
    {libraries : Libraries} {r : Request} (hargs : Request.read args = .ok r) {w : World}
    {done : Unit → Execution → Prop}
    (hrun : (r.run environment stream libraries).Yields (Execution.ofWorld w) done)
    (hexit : ((runProgram args environment stream libraries).run w).1.code = 0) :
    ∃ p', ((runProgram args environment stream libraries).run w).2 = p'.world ∧ done () p' := by
  obtain ⟨p', hworld, ⟨-, hdone⟩ | ⟨hcode, -⟩⟩ := runProgram_leaves hargs hrun
  · exact ⟨p', hworld, hdone⟩
  · rw [hcode] at hexit
    cases hexit

end Depot
