import Depot.Log.Start
import Depot.Proofs.Execution
/-!
# Work that has nothing to do with the log

An operation that reports nothing does the same whether there is a log or not.  What a log needs to
be started is done by such operations: its directory is made, old files are removed, and its file is
opened, whatever log there may be already.

* `Op.Silent` — operations that report nothing;
* `Act.Detached` — parts of a program that neither use the log nor change it;
* `Act.Detached.openFile` — the file of a log is opened so.
-/

namespace Depot

/-! ## Operations that report nothing -/

namespace Op

variable {ε ε' α β : Type}

def Silent (op : Op ε α) : Prop := ∀ w, (op.run w).2.events = w.events

namespace Silent

theorem pure (a : α) : (Pure.pure a : Op ε α).Silent := fun _ => rfl

theorem throw (e : ε) : (throw e : Op ε α).Silent := fun _ => rfl

theorem bind {op : Op ε α} {next : α → Op ε β} (h : op.Silent) (hnext : ∀ a, (next a).Silent) :
    (op >>= next).Silent := by
  intro w
  have hop := h w
  rw [run_bind]
  rcases hrun : op.run w with ⟨result, w'⟩
  rw [hrun] at hop
  cases result with
  | ok a => exact (hnext a w').trans hop
  | error e => exact hop

theorem get {next : World → Op ε α} (h : ∀ w, (next w).Silent) :
    (MonadState.get >>= next).Silent := fun w => h w w

theorem change (f : FileSystem → Except ε (FileSystem × α)) : (Op.change f).Silent := by
  refine get fun w => ?_
  split
  · exact fun _ => rfl
  · exact throw _

theorem attempt {op : Op ε α} (h : op.Silent) : (op.attempt : Op ε' (Except ε α)).Silent := h

theorem makePending (pending : List Pathname) : (Depot.makePending pending).Silent := by
  induction pending with
  | nil => exact pure ()
  | cons p rest ih =>
      refine bind (attempt (change _)) fun result => ?_
      cases result with
      | ok _ => exact ih
      | error e =>
          refine get fun w => ?_
          split
          · exact ih
          · exact throw e

theorem makeFrom (pending ancestors : List Pathname) :
    (Depot.makeFrom pending ancestors).Silent := by
  induction ancestors generalizing pending with
  | nil => exact makePending pending
  | cons p rest ih =>
      rw [Depot.makeFrom]
      split
      · exact makePending pending
      · refine bind (attempt (change _)) fun result => ?_
        cases result with
        | ok _ => exact makePending pending
        | error e =>
            dsimp only
            split
            · exact ih (p :: pending)
            · refine get fun w => ?_
              split
              · exact makePending pending
              · exact throw e

theorem makeDirectories (p : Pathname) : (Depot.makeDirectories p).Silent := makeFrom _ _

end Silent

end Op

/-! ## Parts of a program that have nothing to do with the log -/

namespace Act

variable {ε ε' α β : Type}

/-- What the part of the program yields and what it makes of the world depends on the world alone,
and the log stays as it is. -/
structure Detached (act : Act ε α) : Prop where
  alike : ∀ p q : Execution, p.world = q.world →
    (act.run p).1 = (act.run q).1 ∧ (act.run p).2.world = (act.run q).2.world
  log : ∀ p, (act.run p).2.log = p.log

namespace Detached

theorem pure (a : α) : (Pure.pure a : Act ε α).Detached := ⟨fun _ _ h => ⟨rfl, h⟩, fun _ => rfl⟩

theorem throw (e : ε) : (throw e : Act ε α).Detached := ⟨fun _ _ h => ⟨rfl, h⟩, fun _ => rfl⟩

theorem complain (line : String) : (Act.complain line : Act ε Unit).Detached :=
  ⟨fun _ _ h => ⟨rfl, h⟩, fun _ => rfl⟩

theorem bind {act : Act ε α} {next : α → Act ε β} (h : act.Detached)
    (hnext : ∀ a, (next a).Detached) : (act >>= next).Detached where
  alike p q hworld := by
    obtain ⟨hresult, hleft⟩ := h.alike p q hworld
    rw [run_bind, run_bind]
    rcases hp : act.run p with ⟨result, p'⟩
    rcases hq : act.run q with ⟨result', q'⟩
    rw [hp, hq] at hresult hleft
    obtain rfl : result = result' := hresult
    cases result with
    | ok a => exact (hnext a).alike p' q' hleft
    | error e => exact ⟨rfl, hleft⟩
  log p := by
    have hact := h.log p
    rw [run_bind]
    rcases hp : act.run p with ⟨result, p'⟩
    rw [hp] at hact
    cases result with
    | ok a => exact ((hnext a).log p').trans hact
    | error e => exact hact

theorem map {f : α → β} {act : Act ε α} (h : act.Detached) : (f <$> act).Detached :=
  bind h fun a => pure (f a)

theorem get {next : Execution → Act ε α} (hworld : ∀ p q, p.world = q.world → next p = next q)
    (h : ∀ p, (next p).Detached) : (MonadState.get >>= next).Detached where
  alike p q hsame := by
    have hnext := (h p).alike p q hsame
    show ((next p).run p).1 = ((next q).run q).1 ∧ _ = ((next q).run q).2.world
    rw [← hworld p q hsame]
    exact hnext
  log p := (h p).log p

theorem attempt {op : Op ε α} (h : op.Silent) :
    (Act.attempt op : Act ε' (Except ε α)).Detached := by
  have hrun : ∀ p : Execution, (Act.attempt op : Act ε' (Except ε α)).run p =
      (.ok (op.run { p.world with events := [] }).1,
        { p with world := { (op.run { p.world with events := [] }).2 with
          events := p.world.events } }) := by
    intro p
    have hnone : (op.run { p.world with events := [] }).2.events = [] := h _
    rw [run_attempt]
    rcases hop : op.run { p.world with events := [] } with ⟨result, w'⟩
    rw [hop] at hnone
    show (Except.ok result, List.foldr _ _ w'.events) = _
    rw [hnone, List.foldr_nil]
  refine ⟨fun p q hworld => ?_, fun p => ?_⟩
  · rw [hrun, hrun, hworld]
    exact ⟨rfl, rfl⟩
  · rw [hrun]

theorem perform {f : ε → ε'} {op : Op ε α} (h : op.Silent) :
    (Act.perform f op : Act ε' α).Detached := by
  refine bind (attempt h) fun result => ?_
  cases result with
  | ok a => exact pure a
  | error e => exact throw (f e)

theorem adapt {f : ε → ε'} {act : Act ε α} (h : act.Detached) :
    Act.Detached (ExceptT.adapt f act : Act ε' α) where
  alike p q hworld := by
    obtain ⟨hresult, hleft⟩ := h.alike p q hworld
    exact ⟨congrArg (Except.mapError f) hresult, hleft⟩
  log p := h.log p

/-! ### The file of a log -/

theorem removeLogFiles (dir : Pathname) (names : List Bytes) :
    (Depot.removeLogFiles dir names).Detached := by
  induction names with
  | nil => exact pure ()
  | cons name rest ih =>
      refine bind (attempt (Op.Silent.change _)) fun result => ?_
      cases result with
      | ok _ => exact ih
      | error e => exact bind (complain _) fun _ => ih

theorem pruneLogFiles (dir : Pathname) (logName : String) (maxFiles : Nat) :
    (Depot.pruneLogFiles dir logName maxFiles).Detached := by
  refine get (fun p q h => by rw [h]) fun p => ?_
  split
  · exact removeLogFiles dir _
  · exact complain _

theorem openLogFile (path : Pathname) : (Depot.openLogFile path).Detached := by
  refine bind (attempt (Op.Silent.change _)) fun result => ?_
  cases result with
  | ok handle => exact pure handle
  | error e =>
      dsimp only
      split
      · exact throw _
      · exact bind (perform (Op.Silent.makeDirectories _)) fun _ =>
          perform (Op.Silent.change _)

theorem openRollingFile (logName : String) (s : LogFileSettings) :
    (Depot.openRollingFile logName s).Detached :=
  bind (pruneLogFiles _ _ _) fun _ => get (fun p q h => by rw [h]) fun _ =>
    bind (openLogFile _) fun _ => pure _

theorem openFile (s : LogSettings) : s.openFile.Detached := by
  rw [LogSettings.openFile]
  split
  · exact pure none
  · exact bind (perform (Op.Silent.makeDirectories _)) fun _ =>
      map (adapt (openRollingFile _ _))

end Detached

end Act

end Depot
