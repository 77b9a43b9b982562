import Depot.Execution
import Depot.Proofs.Program
/-!
# What parts of a program leave

`Act.Leaves` says what holds when a part of a program succeeds and what when it fails; `Act.Yields`
asks only for the first.  The log of an execution touches the world only through its file, so an
execution without one leaves the world to its operations.

* `Execution.report_world` — a log without a file leaves the world alone;
* `Act.Leaves.ends` — the two ways a part can end;
* `Act.Leaves.bind`, `Act.Leaves.adapt` — composed parts;
* `Act.Leaves.perform` — what an operation does to the world of an execution.
-/

namespace Depot

namespace Execution

/-- There is no log, or one that writes no file. -/
def HasNoLogFile (p : Execution) : Prop := ∀ log, p.log = some log → log.file = none

variable {p : Execution}

theorem report_world (h : p.HasNoLogFile) (e : Event) : (p.report e).world = p.world := by
  cases hlog : p.log with
  | none => rw [report_none hlog]
  | some log =>
      rw [report, hlog]
      dsimp only
      split
      · rw [reportFile, h log hlog, reportConsole]
        cases log.console <;> rfl
      · rfl

theorem HasNoLogFile.report (h : p.HasNoLogFile) (e : Event) : (p.report e).HasNoLogFile := by
  intro log hlog
  rw [report_log] at hlog
  exact h log hlog

theorem HasNoLogFile.reportAll (h : p.HasNoLogFile) (events : List Event) :
    (events.foldr (fun e p => p.report e) p).HasNoLogFile ∧
      (events.foldr (fun e p => p.report e) p).world = p.world := by
  induction events with
  | nil => exact ⟨h, rfl⟩
  | cons e events ih => exact ⟨ih.1.report e, (report_world ih.1 e).trans ih.2⟩

end Execution

namespace Act

open Execution

variable {ε ε' α β : Type} {p : Execution}

/-- The part of the program succeeds, and its value and the execution that it leaves are as wanted,
or it fails, and its failure and the execution are. -/
def Leaves (act : Act ε α) (p : Execution) (done : α → Execution → Prop)
    (failed : ε → Execution → Prop) : Prop :=
  match act.run p with
  | (.ok a, p') => done a p'
  | (.error e, p') => failed e p'

/-- If the part of the program succeeds, its value and the execution that it leaves are as
wanted. -/
def Yields (act : Act ε α) (p : Execution) (done : α → Execution → Prop) : Prop :=
  act.Leaves p done fun _ _ => True

theorem run_bind (act : Act ε α) (next : α → Act ε β) (p : Execution) :
    (act >>= next).run p = match act.run p with
      | (.ok a, p') => (next a).run p'
      | (.error e, p') => (.error e, p') := by
  change ExceptT.bindCont next (act.run p).1 (act.run p).2 = _
  rcases act.run p with ⟨result, p'⟩
  cases result <;> rfl

theorem run_attempt (op : Op ε α) (p : Execution) :
    (Act.attempt op : Act ε' (Except ε α)).run p =
      match op.run { p.world with events := [] } with
      | (result, w') => (.ok result, w'.events.foldr (fun e p => p.report e)
          { p with world := { w' with events := p.world.events } }) := rfl

namespace Leaves

variable {done : α → Execution → Prop} {failed : ε → Execution → Prop}

theorem pure {a : α} (h : done a p) : (Pure.pure a : Act ε α).Leaves p done failed := h

theorem throw {e : ε} (h : failed e p) : (throw e : Act ε α).Leaves p done failed := h

theorem ends {act : Act ε α} (h : act.Leaves p done failed) :
    (∃ a p', act.run p = (.ok a, p') ∧ done a p') ∨
      ∃ e p', act.run p = (.error e, p') ∧ failed e p' := by
  rw [Leaves] at h
  rcases hact : act.run p with ⟨result, p'⟩
  rw [hact] at h
  cases result with
  | ok a => exact Or.inl ⟨a, p', rfl, h⟩
  | error e => exact Or.inr ⟨e, p', rfl, h⟩

theorem bind {act : Act ε α} {next : α → Act ε β} {done : β → Execution → Prop}
    (h : act.Leaves p (fun a p' => (next a).Leaves p' done failed) failed) :
    (act >>= next).Leaves p done failed := by
  rw [Leaves, run_bind]
  obtain ⟨a, p', hact, hnext⟩ | ⟨e, p', hact, hfailed⟩ := h.ends
  · rw [hact]
    exact hnext
  · rw [hact]
    exact hfailed

theorem weaken {act : Act ε α} {done' : α → Execution → Prop} {failed' : ε → Execution → Prop}
    (h : act.Leaves p done' failed') (hdone : ∀ a p', done' a p' → done a p')
    (hfailed : ∀ e p', failed' e p' → failed e p') : act.Leaves p done failed := by
  rw [Leaves]
  obtain ⟨a, p', hact, ha⟩ | ⟨e, p', hact, he⟩ := h.ends
  · rw [hact]
    exact hdone a p' ha
  · rw [hact]
    exact hfailed e p' he

theorem of_ok {act : Act ε α} (h : act.Leaves p done failed) {a : α} {p' : Execution}
    (hrun : act.run p = (.ok a, p')) : done a p' := by
  rwa [Leaves, hrun] at h

theorem of_error {act : Act ε α} (h : act.Leaves p done failed) {e : ε} {p' : Execution}
    (hrun : act.run p = (.error e, p')) : failed e p' := by
  rwa [Leaves, hrun] at h

theorem any (act : Act ε α) (p : Execution) :
    act.Leaves p (fun _ _ => True) fun _ _ => True := by
  rw [Leaves]
  rcases act.run p with ⟨_ | _, p'⟩ <;> trivial

theorem get {next : Execution → Act ε β} {done : β → Execution → Prop}
    (h : (next p).Leaves p done failed) : (MonadState.get >>= next).Leaves p done failed := h

theorem modify {f : Execution → Execution} {done : PUnit → Execution → Prop}
    (h : done ⟨⟩ (f p)) : (modify f : Act ε PUnit).Leaves p done failed := h

theorem complainAll {A : Type} {line : A → String} {failed : ε → Execution → Prop}
    (lines : List A) :
    (lines.forM fun a => (Act.complain (line a) : Act ε Unit)).Leaves p
      (fun _ p' => p'.world = p.world ∧ p'.log = p.log) failed := by
  induction lines generalizing p with
  | nil => exact pure ⟨rfl, rfl⟩
  | cons a lines ih => exact bind (modify ih)

theorem adapt {f : ε → ε'} {act : Act ε α} {failed : ε' → Execution → Prop}
    (h : act.Leaves p done fun e => failed (f e)) :
    Act.Leaves (ExceptT.adapt f act : Act ε' α) p done failed := by
  have hadapt : (ExceptT.adapt f act).run p = (Except.mapError f (act.run p).1, (act.run p).2) :=
    rfl
  rw [Leaves, hadapt]
  obtain ⟨a, p', hact, ha⟩ | ⟨e, p', hact, he⟩ := h.ends
  · rw [hact]
    exact ha
  · rw [hact]
    exact he

theorem report {e : Event} (hp : p.HasNoLogFile) {done : Unit → Execution → Prop}
    (h : ∀ p', p'.world = p.world → p'.HasNoLogFile → done () p') :
    (Act.report e : Act ε Unit).Leaves p done failed :=
  modify (h _ (report_world hp e) (hp.report e))

theorem perform {f : ε → ε'} {op : Op ε α} {failed : ε' → Execution → Prop} (hp : p.HasNoLogFile)
    (hok : ∀ a w' p', op.run { p.world with events := [] } = (.ok a, w') → p'.world.fs = w'.fs →
      p'.HasNoLogFile → done a p')
    (herror : ∀ e w' p', op.run { p.world with events := [] } = (.error e, w') →
      p'.world.fs = w'.fs → failed (f e) p') :
    (Act.perform f op : Act ε' α).Leaves p done failed := by
  rw [Leaves, Act.perform, run_bind, run_attempt]
  rcases hop : op.run { p.world with events := [] } with ⟨result, w'⟩
  have hnone : ({ p with world := { w' with events := p.world.events } } :
      Execution).HasNoLogFile := hp
  obtain ⟨hfile, hworld⟩ := hnone.reportAll w'.events
  have hfs := congrArg World.fs hworld
  cases result with
  | ok a => exact hok a w' _ hop hfs hfile
  | error e => exact herror e w' _ hop hfs

theorem perform_runs {f : ε → ε'} {op : Op ε α} {failed : ε' → Execution → Prop} {fs : FileSystem}
    {passes : FileSystem → Prop} {opDone : α → FileSystem → Prop}
    {opFailed : ε → FileSystem → Prop} (hp : p.HasNoLogFile) (hfs : p.world.fs = fs)
    (hop : op.Runs fs passes opDone opFailed)
    (hok : ∀ a p', opDone a p'.world.fs → p'.HasNoLogFile → done a p')
    (herror : ∀ e p', opFailed e p'.world.fs → failed (f e) p') :
    (Act.perform f op : Act ε' α).Leaves p done failed := by
  refine perform hp (fun a w' p' hrun hfs' hp' => ?_) fun e w' p' hrun hfs' => ?_
  · exact hok a p' (hfs' ▸ hop.of_ok (w := { p.world with events := [] }) hfs hrun) hp'
  · exact herror e p' (hfs' ▸ hop.of_error (w := { p.world with events := [] }) hfs hrun)

end Leaves

namespace Yields

variable {done : α → Execution → Prop}

theorem bind {act : Act ε α} {next : α → Act ε β} {done : β → Execution → Prop}
    (h : act.Yields p fun a p' => (next a).Yields p' done) : (act >>= next).Yields p done :=
  Leaves.bind h

theorem get {next : Execution → Act ε β} {done : β → Execution → Prop}
    (h : (next p).Yields p done) : (MonadState.get >>= next).Yields p done := h

theorem report {e : Event} (hp : p.HasNoLogFile) {done : Unit → Execution → Prop}
    (h : ∀ p', p'.world = p.world → p'.HasNoLogFile → done () p') :
    (Act.report e : Act ε Unit).Yields p done := Leaves.report hp h

theorem perform {f : ε → ε'} {op : Op ε α} (hp : p.HasNoLogFile)
    (h : ∀ a w' p', op.run { p.world with events := [] } = (.ok a, w') → p'.world.fs = w'.fs →
      p'.HasNoLogFile → done a p') : (Act.perform f op : Act ε' α).Yields p done :=
  Leaves.perform hp h fun _ _ _ _ _ => trivial

end Yields

end Act

end Depot
