import Depot.World
/-!
# Where operations get

`Op.Runs` says where an operation gets from a file system: which states it passes through, and what
holds of its result and of the file system it leaves.  Events and earlier states play no part.  The
rules follow the way operations are put together, so a specification is proved along the text of
its operation.

* `Op.Runs.bind`, `Op.Runs.attempt`, `Op.Runs.mapError` — composed operations;
* `Op.Runs.change`, `Op.Runs.query`, `Op.Runs.report` — the basic ones;
* `Op.Runs.weaken`, `Op.Runs.passing`, `Op.Runs.refused` — consequences;
* `Op.Runs.of_ok`, `Op.Runs.of_error`, `Op.Runs.exists_states` — what follows for a run;
* `Op.FailsWithin` — the states that an operation passes through when it fails;
* `Op.FailsAs` — what an operation fails with, wherever it starts;
* `Op.FailsFrom` — what an operation fails with in one world.
-/

namespace Depot

/-! ## Sequences that may fail -/

section

variable {ε α β : Type}

theorem ok_bind (a : α) (f : α → Except ε β) : (Except.ok a >>= f) = f a := rfl

theorem error_bind (e : ε) (f : α → Except ε β) : (Except.error e >>= f) = Except.error e := rfl

theorem bind_eq_ok {x : Except ε α} {f : α → Except ε β} {b : β} :
    x >>= f = .ok b ↔ ∃ a, x = .ok a ∧ f a = .ok b := by
  cases x with
  | error e =>
      rw [error_bind]
      simp
  | ok a =>
      rw [ok_bind]
      simp

theorem map_eq_ok {x : Except ε α} {f : α → β} {b : β} :
    f <$> x = .ok b ↔ ∃ a, x = .ok a ∧ f a = b := by
  cases x with
  | error e =>
      constructor
      · intro h
        cases h
      · rintro ⟨a, ha, -⟩
        cases ha
  | ok a =>
      constructor
      · intro h
        exact ⟨a, rfl, Except.ok.inj h⟩
      · rintro ⟨a', ha, rfl⟩
        cases ha
        rfl

end

/-! ## Operations -/

namespace Op

variable {ε ε' α β : Type} {fs : FileSystem}

theorem run_bind (op : Op ε α) (next : α → Op ε β) (w : World) :
    (op >>= next).run w = match op.run w with
      | (.ok a, w') => (next a).run w'
      | (.error e, w') => (.error e, w') := by
  change ExceptT.bindCont next (op.run w).1 (op.run w).2 = _
  rcases op.run w with ⟨result, w'⟩
  cases result <;> rfl

theorem run_bind_eq_ok {op : Op ε α} {next : α → Op ε β} {w w' : World} {b : β} :
    (op >>= next).run w = (.ok b, w') ↔
      ∃ a mid, op.run w = (.ok a, mid) ∧ (next a).run mid = (.ok b, w') := by
  rw [run_bind]
  rcases op.run w with ⟨result, mid⟩
  constructor
  · intro h
    cases result with
    | error e => cases h
    | ok a => exact ⟨a, mid, rfl, h⟩
  · rintro ⟨a, mid', heq, h⟩
    cases heq
    exact h

theorem run_bind_eq_error {op : Op ε α} {next : α → Op ε β} {w w' : World} {e : ε} :
    (op >>= next).run w = (.error e, w') ↔ op.run w = (.error e, w') ∨
      ∃ a mid, op.run w = (.ok a, mid) ∧ (next a).run mid = (.error e, w') := by
  rw [run_bind]
  rcases op.run w with ⟨result, mid⟩
  constructor
  · intro h
    cases result with
    | error e' =>
        cases h
        exact Or.inl rfl
    | ok a => exact Or.inr ⟨a, mid, rfl, h⟩
  · rintro (h | ⟨a, mid', heq, h⟩)
    · cases h
      rfl
    · cases heq
      exact h

theorem run_get (next : World → Op ε α) (w : World) :
    (MonadState.get >>= next).run w = (next w).run w := rfl

theorem run_lift_ok (a : α) (next : α → Op ε β) (w : World) :
    ((liftM (Except.ok a : Except ε α) : Op ε α) >>= next).run w = (next a).run w := rfl

theorem run_map (f : α → β) (op : Op ε α) (w : World) :
    (f <$> op).run w = (f <$> (op.run w).1, (op.run w).2) := by
  have hbind : f <$> op = op >>= fun a => Pure.pure (f a) := rfl
  rw [hbind, run_bind]
  rcases op.run w with ⟨result, w'⟩
  cases result <;> rfl

theorem run_query (f : FileSystem → Except ε α) (w : World) :
    (Op.query f).run w = (f w.fs, w) := by
  rw [Op.query, run_get]
  cases f w.fs with
  | ok a => rfl
  | error e => rfl

theorem run_change_ (f : FileSystem → Except ε FileSystem) (w : World) :
    (Op.change_ f).run w = match f w.fs with
      | .ok fs' => (.ok (), w.advance fs')
      | .error e => (.error e, w) := by
  rw [Op.change_, Op.change, run_get]
  cases f w.fs with
  | ok fs' => rfl
  | error e => rfl

theorem run_mapError (f : ε → ε') (op : Op ε α) (w : World) :
    (op.mapError f).run w = ((op.run w).1.mapError f, (op.run w).2) := rfl

theorem run_query_eq_ok {f : FileSystem → Except ε α} {w w' : World} {a : α} :
    (Op.query f).run w = (.ok a, w') ↔ f w.fs = .ok a ∧ w' = w := by
  rw [run_query, Prod.mk.injEq, eq_comm (a := w)]

theorem run_mapError_eq_ok {f : ε → ε'} {op : Op ε α} {w w' : World} {a : α} :
    (op.mapError f).run w = (.ok a, w') ↔ op.run w = (.ok a, w') := by
  rw [run_mapError]
  rcases op.run w with ⟨result, mid⟩
  constructor
  · intro h
    cases result with
    | error e => cases h
    | ok a' =>
        cases h
        rfl
  · intro h
    cases h
    rfl

theorem run_mapError_eq_error {f : ε → ε'} {op : Op ε α} {w w' : World} {e : ε'} :
    (op.mapError f).run w = (.error e, w') ↔ ∃ e', op.run w = (.error e', w') ∧ f e' = e := by
  rw [run_mapError]
  rcases op.run w with ⟨result, mid⟩
  constructor
  · intro h
    cases result with
    | error e' =>
        cases h
        exact ⟨e', rfl, rfl⟩
    | ok a => cases h
  · rintro ⟨e', heq, rfl⟩
    cases heq
    rfl

theorem run_attempt (op : Op ε α) (w : World) :
    (op.attempt : Op ε' (Except ε α)).run w = (.ok (op.run w).1, (op.run w).2) := rfl

/-- What is wanted of a result, whichever it is. -/
def Outcome (done : α → FileSystem → Prop) (failed : ε → FileSystem → Prop) :
    Except ε α → FileSystem → Prop
  | .ok a => done a
  | .error e => failed e

/-- The operation passes from a file system only through certain states, and its result and the
file system it leaves are as wanted. -/
def Runs (op : Op ε α) (fs : FileSystem) (passes : FileSystem → Prop)
    (done : α → FileSystem → Prop) (failed : ε → FileSystem → Prop) : Prop :=
  ∀ w : World, w.fs = fs → ∃ visited,
    (op.run w).2.states = visited ++ w.states ∧ (∀ st ∈ visited, passes st) ∧
      match (op.run w).1 with
      | .ok a => done a (op.run w).2.fs
      | .error e => failed e (op.run w).2.fs

namespace Runs

variable {passes : FileSystem → Prop} {done : α → FileSystem → Prop}
  {failed : ε → FileSystem → Prop}

theorem pure {a : α} (h : done a fs) : (Pure.pure a : Op ε α).Runs fs passes done failed := by
  rintro w rfl
  exact ⟨[], rfl, by simp, h⟩

theorem throw {e : ε} (h : failed e fs) : (throw e : Op ε α).Runs fs passes done failed := by
  rintro w rfl
  exact ⟨[], rfl, by simp, h⟩

theorem bind {op : Op ε α} {next : α → Op ε β} (mid : α → FileSystem → Prop)
    {done : β → FileSystem → Prop} (h : op.Runs fs passes mid failed)
    (hnext : ∀ a fs', mid a fs' → (next a).Runs fs' passes done failed) :
    (op >>= next).Runs fs passes done failed := by
  intro w hw
  obtain ⟨visited, hstates, hpasses, hresult⟩ := h w hw
  have hrun := run_bind op next w
  rcases hop : op.run w with ⟨result, w'⟩
  rw [hop] at hstates hresult hrun
  cases result with
  | error e => exact ⟨visited, by rw [hrun, hstates], hpasses, by rw [hrun]; exact hresult⟩
  | ok a =>
      obtain ⟨visited', hstates', hpasses', hresult'⟩ := hnext a w'.fs hresult w' rfl
      refine ⟨visited' ++ visited, ?_, ?_, ?_⟩
      · rw [hrun, hstates', hstates, List.append_assoc]
      · intro st hst
        exact (List.mem_append.1 hst).elim (hpasses' st) (hpasses st)
      · rw [hrun]
        exact hresult'

theorem weaken {op : Op ε α} {passes' : FileSystem → Prop} {done' : α → FileSystem → Prop}
    {failed' : ε → FileSystem → Prop} (h : op.Runs fs passes' done' failed')
    (hpasses : ∀ st, passes' st → passes st) (hdone : ∀ a st, done' a st → done a st)
    (hfailed : ∀ e st, failed' e st → failed e st) : op.Runs fs passes done failed := by
  intro w hw
  obtain ⟨visited, hstates, hall, hresult⟩ := h w hw
  refine ⟨visited, hstates, fun st hst => hpasses st (hall st hst), ?_⟩
  cases hr : (op.run w).1 with
  | ok a =>
      rw [hr] at hresult
      exact hdone a _ hresult
  | error e =>
      rw [hr] at hresult
      exact hfailed e _ hresult

theorem passing {op : Op ε α} {passes' : FileSystem → Prop} (h : op.Runs fs passes' done failed)
    (hpasses : ∀ st, passes' st → passes st) : op.Runs fs passes done failed :=
  h.weaken hpasses (fun _ _ hst => hst) fun _ _ hst => hst

theorem refused {op : Op ε α} {failed' : ε → FileSystem → Prop}
    (h : op.Runs fs (fun _ => False) (fun _ _ => False) failed')
    (hfailed : ∀ e st, failed' e st → failed e st) : op.Runs fs passes done failed :=
  h.weaken (fun _ hst => hst.elim) (fun _ _ hst => hst.elim) hfailed

theorem map {op : Op ε α} {f : α → β} {done : β → FileSystem → Prop}
    (h : op.Runs fs passes (fun a => done (f a)) failed) :
    (f <$> op).Runs fs passes done failed := by
  have hbind : f <$> op = op >>= fun a => Pure.pure (f a) := rfl
  rw [hbind]
  exact h.bind _ fun a fs' ha => Runs.pure ha

theorem get {next : World → Op ε β} {done : β → FileSystem → Prop}
    (h : ∀ w, w.fs = fs → (next w).Runs fs passes done failed) :
    (MonadState.get >>= next).Runs fs passes done failed :=
  fun w hw => h w hw w hw

theorem lift_ok {a : α} {next : α → Op ε β} {done : β → FileSystem → Prop}
    (h : (next a).Runs fs passes done failed) :
    ((liftM (Except.ok a : Except ε α) : Op ε α) >>= next).Runs fs passes done failed := h

theorem lift_error {e : ε} {next : α → Op ε β} {done : β → FileSystem → Prop} (h : failed e fs) :
    ((liftM (Except.error e : Except ε α) : Op ε α) >>= next).Runs fs passes done failed :=
  Runs.throw h

theorem query {f : FileSystem → Except ε α} (hok : ∀ a, f fs = .ok a → done a fs)
    (herror : ∀ e, f fs = .error e → failed e fs) : (Op.query f).Runs fs passes done failed := by
  apply Runs.get
  rintro w rfl
  split
  · exact Runs.pure (hok _ ‹_›)
  · exact Runs.throw (herror _ ‹_›)

theorem change {f : FileSystem → Except ε (FileSystem × α)}
    (hok : ∀ fs' a, f fs = .ok (fs', a) → passes fs' ∧ done a fs')
    (herror : ∀ e, f fs = .error e → failed e fs) : (Op.change f).Runs fs passes done failed := by
  rintro w rfl
  rw [Op.change, run_get]
  cases hf : f w.fs with
  | ok changed =>
      obtain ⟨fs', a⟩ := changed
      exact ⟨[fs'], rfl, by simpa using (hok _ _ hf).1, (hok _ _ hf).2⟩
  | error e => exact ⟨[], rfl, by simp, herror _ hf⟩

theorem change_ {f : FileSystem → Except ε FileSystem} {done : Unit → FileSystem → Prop}
    (hok : ∀ fs', f fs = .ok fs' → passes fs' ∧ done () fs')
    (herror : ∀ e, f fs = .error e → failed e fs) :
    (Op.change_ f).Runs fs passes done failed := by
  apply Runs.change
  · intro fs' u hf
    obtain ⟨fs'', hf', heq⟩ := map_eq_ok.1 hf
    cases heq
    exact hok _ hf'
  · intro e he
    cases hf : f fs with
    | ok fs' =>
        rw [hf] at he
        cases he
    | error e' =>
        rw [hf] at he
        cases he
        exact herror _ hf

theorem report {event : Event} {done : Unit → FileSystem → Prop} (h : done () fs) :
    (Op.report event : Op ε Unit).Runs fs passes done failed := by
  rintro w rfl
  exact ⟨[], rfl, by simp, h⟩

theorem mapError {op : Op ε' α} {f : ε' → ε}
    (h : op.Runs fs passes done fun e => failed (f e)) :
    (op.mapError f).Runs fs passes done failed := by
  intro w hw
  obtain ⟨visited, hstates, hpasses, hresult⟩ := h w hw
  have hrun : (op.mapError f).run w = ((op.run w).1.mapError f, (op.run w).2) := rfl
  refine ⟨visited, by rw [hrun, hstates], hpasses, ?_⟩
  rw [hrun]
  cases hr : (op.run w).1 with
  | ok a =>
      rw [hr] at hresult
      exact hresult
  | error e =>
      rw [hr] at hresult
      exact hresult

theorem attempt {op : Op ε' α} {done : Except ε' α → FileSystem → Prop}
    (h : op.Runs fs passes (fun a => done (.ok a)) fun e => done (.error e)) :
    (op.attempt : Op ε (Except ε' α)).Runs fs passes done failed := by
  intro w hw
  obtain ⟨visited, hstates, hpasses, hresult⟩ := h w hw
  have hrun : (op.attempt : Op ε (Except ε' α)).run w = (.ok (op.run w).1, (op.run w).2) := rfl
  refine ⟨visited, by rw [hrun, hstates], hpasses, ?_⟩
  rw [hrun]
  cases hr : (op.run w).1 with
  | ok a =>
      rw [hr] at hresult
      exact hresult
  | error e =>
      rw [hr] at hresult
      exact hresult

/-- A change that is tried out has been made, or everything is as it was. -/
theorem attempt_change_ {f : FileSystem → Except ε' FileSystem}
    (hpasses : ∀ fs', f fs = .ok fs' → passes fs') {failed : ε → FileSystem → Prop} :
    (Op.attempt (Op.change_ f) : Op ε (Except ε' Unit)).Runs fs passes
      (fun result fs' => (result = .ok () ∧ f fs = .ok fs') ∨
        ∃ e, result = .error e ∧ f fs = .error e ∧ fs' = fs) failed := by
  apply Runs.attempt
  apply Runs.change_
  · exact fun fs' hok => ⟨hpasses fs' hok, Or.inl ⟨rfl, hok⟩⟩
  · exact fun e he => Or.inr ⟨e, rfl, he, rfl⟩

theorem and {op : Op ε α} {passes' : FileSystem → Prop} {done' : α → FileSystem → Prop}
    {failed' : ε → FileSystem → Prop} (h : op.Runs fs passes done failed)
    (h' : op.Runs fs passes' done' failed') :
    op.Runs fs (fun st => passes st ∧ passes' st) (fun a st => done a st ∧ done' a st)
      (fun e st => failed e st ∧ failed' e st) := by
  intro w hw
  obtain ⟨visited, hstates, hpasses, hresult⟩ := h w hw
  obtain ⟨visited', hstates', hpasses', hresult'⟩ := h' w hw
  obtain rfl : visited = visited' := List.append_cancel_right (hstates.symm.trans hstates')
  refine ⟨visited, hstates, fun st hst => ⟨hpasses st hst, hpasses' st hst⟩, ?_⟩
  cases hr : (op.run w).1 with
  | ok a =>
      rw [hr] at hresult hresult'
      exact ⟨hresult, hresult'⟩
  | error e =>
      rw [hr] at hresult hresult'
      exact ⟨hresult, hresult'⟩

/-! ### What follows for a run -/

theorem of_ok {op : Op ε α} (h : op.Runs fs passes done failed) {w w' : World} (hw : w.fs = fs)
    {a : α} (hrun : op.run w = (.ok a, w')) : done a w'.fs := by
  obtain ⟨visited, -, -, hresult⟩ := h w hw
  rwa [hrun] at hresult

theorem of_error {op : Op ε α} (h : op.Runs fs passes done failed) {w w' : World} (hw : w.fs = fs)
    {e : ε} (hrun : op.run w = (.error e, w')) : failed e w'.fs := by
  obtain ⟨visited, -, -, hresult⟩ := h w hw
  rwa [hrun] at hresult

theorem exists_states {op : Op ε α} (h : op.Runs fs passes done failed) {w : World}
    (hw : w.fs = fs) :
    ∃ since, (op.run w).2.states = since ++ w.past ∧ ∀ st ∈ since, st = fs ∨ passes st := by
  obtain ⟨visited, hstates, hpasses, -⟩ := h w hw
  refine ⟨visited ++ [w.fs], by rw [hstates, World.states, List.append_assoc]; rfl, ?_⟩
  intro st hst
  rcases List.mem_append.1 hst with hst | hst
  · exact Or.inr (hpasses st hst)
  · exact Or.inl ((List.mem_singleton.1 hst).trans hw)

theorem states_eq {op : Op ε α} (h : op.Runs fs (fun _ => False) done failed) {w : World}
    (hw : w.fs = fs) : (op.run w).2.states = w.states := by
  obtain ⟨visited, hstates, hpasses, -⟩ := h w hw
  rwa [List.eq_nil_iff_forall_not_mem.2 hpasses] at hstates

end Runs

/-! ### Operations that fail -/

/-- If the operation fails, it has passed only through certain states. -/
def FailsWithin (op : Op ε α) (fs : FileSystem) (passes : FileSystem → Prop) : Prop :=
  ∀ (w w' : World) (e : ε), w.fs = fs → op.run w = (.error e, w') →
    ∃ visited, w'.states = visited ++ w.states ∧ ∀ st ∈ visited, passes st

namespace FailsWithin

variable {passes : FileSystem → Prop} {done : α → FileSystem → Prop}
  {failed : ε → FileSystem → Prop}

theorem of_runs {op : Op ε α} (h : op.Runs fs passes done failed) : op.FailsWithin fs passes := by
  intro w w' e hw hrun
  obtain ⟨visited, hstates, hpasses, -⟩ := h w hw
  rw [hrun] at hstates
  exact ⟨visited, hstates, hpasses⟩

theorem bind {op : Op ε α} {next : α → Op ε β} (done : α → FileSystem → Prop)
    (failed : ε → FileSystem → Prop) (h : op.Runs fs passes done failed)
    (hnext : ∀ a fs', done a fs' → (next a).FailsWithin fs' passes) :
    (op >>= next).FailsWithin fs passes := by
  intro w w' e hw hrun
  obtain ⟨visited, hstates, hpasses, hresult⟩ := h w hw
  rw [run_bind] at hrun
  rcases hop : op.run w with ⟨result, w''⟩
  rw [hop] at hstates hresult hrun
  cases result with
  | error e' =>
      cases hrun
      exact ⟨visited, hstates, hpasses⟩
  | ok a =>
      obtain ⟨visited', hstates', hpasses'⟩ := hnext a w''.fs hresult w'' w' e rfl hrun
      refine ⟨visited' ++ visited, by rw [hstates', hstates, List.append_assoc], ?_⟩
      intro st hst
      exact (List.mem_append.1 hst).elim (hpasses' st) (hpasses st)

theorem get {next : World → Op ε β} (h : ∀ w, w.fs = fs → (next w).FailsWithin fs passes) :
    (MonadState.get >>= next).FailsWithin fs passes :=
  fun w w' e hw hrun => h w hw w w' e hw hrun

/-- What comes last may not fail. -/
theorem bind_of_safe {op : Op ε α} {next : α → Op ε β} (h : op.FailsWithin fs passes)
    (hnext : ∀ a fs', (next a).Runs fs' (fun _ => True) (fun _ _ => True) fun _ _ => False) :
    (op >>= next).FailsWithin fs passes := by
  intro w w' e hw hrun
  rcases run_bind_eq_error.1 hrun with hop | ⟨a, w'', -, hrun⟩
  · exact h w w' e hw hop
  · exact ((hnext a w''.fs).of_error rfl hrun).elim

theorem change_ {f : FileSystem → Except ε FileSystem} : (Op.change_ f).FailsWithin fs passes := by
  cases hf : f fs with
  | error e =>
      have hruns : (Op.change_ f).Runs fs passes (fun _ _ => True) (fun _ _ => True) := by
        apply Runs.change_
        · intro fs' hok
          rw [hf] at hok
          cases hok
        · exact fun _ _ => trivial
      exact of_runs hruns
  | ok fs' =>
      intro w w' e hw hrun
      have hruns : (Op.change_ f).Runs fs (fun _ => True) (fun _ _ => True) fun _ _ => False := by
        apply Runs.change_
        · exact fun _ _ => ⟨trivial, trivial⟩
        · intro e he
          rw [hf] at he
          cases he
      exact (hruns.of_error hw hrun).elim

theorem mapError {op : Op ε' α} {f : ε' → ε} (h : op.FailsWithin fs passes) :
    (op.mapError f).FailsWithin fs passes := by
  intro w w' e hw hrun
  obtain ⟨e', hop, -⟩ := run_mapError_eq_error.1 hrun
  exact h w w' e' hw hop

end FailsWithin

/-- Whatever the operation fails with is of a certain kind. -/
def FailsAs (op : Op ε α) (kind : ε → Prop) : Prop :=
  ∀ (w w' : World) (e : ε), op.run w = (.error e, w') → kind e

namespace FailsAs

variable {kind : ε → Prop}

theorem pure (a : α) : (Pure.pure a : Op ε α).FailsAs kind := by
  intro w w' e hrun
  cases hrun

theorem throw {e : ε} (h : kind e) : (throw e : Op ε α).FailsAs kind := by
  intro w w' e' hrun
  cases hrun
  exact h

theorem bind {op : Op ε α} {next : α → Op ε β} (h : op.FailsAs kind)
    (hnext : ∀ a, (next a).FailsAs kind) : (op >>= next).FailsAs kind := by
  intro w w' e hrun
  rcases run_bind_eq_error.1 hrun with hop | ⟨a, w'', -, hrun⟩
  · exact h w w' e hop
  · exact hnext a w'' w' e hrun

theorem map {op : Op ε α} (f : α → β) (h : op.FailsAs kind) : (f <$> op).FailsAs kind :=
  h.bind fun a => FailsAs.pure (f a)

theorem get {next : World → Op ε β} (h : ∀ w, (next w).FailsAs kind) :
    (MonadState.get >>= next).FailsAs kind :=
  fun w w' e hrun => h w w w' e hrun

theorem report (event : Event) : (Op.report event : Op ε Unit).FailsAs kind := by
  intro w w' e hrun
  cases hrun

theorem change_ {f : FileSystem → Except ε FileSystem} (h : ∀ fs e, f fs ≠ .error e) :
    (Op.change_ f).FailsAs kind := by
  intro w w' e hrun
  have hruns : (Op.change_ f).Runs w.fs (fun _ => True) (fun _ _ => True) fun _ _ => False :=
    Runs.change_ (fun _ _ => ⟨trivial, trivial⟩) fun e he => h _ e he
  exact (hruns.of_error rfl hrun).elim

theorem attempt (op : Op ε' α) : (op.attempt : Op ε (Except ε' α)).FailsAs kind := by
  intro w w' e hrun
  cases hrun

theorem mapError {op : Op ε' α} {f : ε' → ε} (h : ∀ e, kind (f e)) :
    (op.mapError f).FailsAs kind := by
  intro w w' e hrun
  obtain ⟨e', -, rfl⟩ := run_mapError_eq_error.1 hrun
  exact h e'

end FailsAs

/-- Whatever the operation fails with in a world is of a certain kind. -/
def FailsFrom (op : Op ε α) (w : World) (kind : ε → Prop) : Prop :=
  ∀ (w' : World) (e : ε), op.run w = (.error e, w') → kind e

namespace FailsFrom

variable {kind : ε → Prop} {w : World}

theorem mono {op : Op ε α} {kind' : ε → Prop} (h : op.FailsFrom w kind')
    (hkind : ∀ e, kind' e → kind e) : op.FailsFrom w kind :=
  fun w' e hrun => hkind e (h w' e hrun)

theorem bind {op : Op ε α} {next : α → Op ε β} (h : op.FailsFrom w kind)
    (hnext : ∀ a w', op.run w = (.ok a, w') → (next a).FailsFrom w' kind) :
    (op >>= next).FailsFrom w kind := by
  intro w' e hrun
  rcases run_bind_eq_error.1 hrun with hop | ⟨a, w'', hop, hrun⟩
  · exact h w' e hop
  · exact hnext a w'' hop w' e hrun

theorem get {next : World → Op ε α} (h : (next w).FailsFrom w kind) :
    (MonadState.get >>= next).FailsFrom w kind := h

theorem lift {x : Except ε α} {next : α → Op ε β} (hok : ∀ a, x = .ok a → (next a).FailsFrom w kind)
    (herror : ∀ e, x = .error e → kind e) :
    ((liftM x : Op ε α) >>= next).FailsFrom w kind := by
  cases hx : x with
  | ok a => exact hok a hx
  | error e =>
      intro w' e' hrun
      cases hrun
      exact herror e hx

theorem query {f : FileSystem → Except ε α} (h : ∀ e, f w.fs = .error e → kind e) :
    (Op.query f).FailsFrom w kind := by
  intro w' e hrun
  rw [run_query] at hrun
  exact h e (congrArg Prod.fst hrun)

theorem mapError {op : Op ε' α} {f : ε' → ε} (h : op.FailsFrom w fun e => kind (f e)) :
    (op.mapError f).FailsFrom w kind := by
  intro w' e hrun
  obtain ⟨e', hop, rfl⟩ := run_mapError_eq_error.1 hrun
  exact h w' e' hop

end FailsFrom

end Op

end Depot
