import Depot.Proofs.Program
/-!
# Two runs side by side

`Op.Pairs` compares two operations that are run from two file systems: both end well, with results
and file systems that are as wanted, or both fail with the same failure.  As for one run, the rules
follow the way operations are put together.

* `Both` — two computations that end alike;
* `Op.Pairs.bind`, `Op.Pairs.attempt`, `Op.Pairs.mapError` — composed operations;
* `Op.Pairs.change`, `Op.Pairs.query`, `Op.Pairs.report` — the basic ones;
* `Op.Pairs.of_runs`, `Op.Pairs.and_runs` — what is known of each run alone;
* `Op.Same`, `Op.IsBlind` — runs that end in the same way, and operations that look at nothing but
  the file system.
-/

namespace Depot

variable {ε ε' α α' β β' : Type}

/-- Two computations that end alike: both yield something, or both fail with the same failure. -/
inductive Both (done : α → α' → Prop) (failed : Prop) : Except ε α → Except ε α' → Prop
  | ok {a : α} {a' : α'} (h : done a a') : Both done failed (.ok a) (.ok a')
  | error (e : ε) (h : failed) : Both done failed (.error e) (.error e)

namespace Both

variable {done : α → α' → Prop} {failed : Prop} {x : Except ε α} {x' : Except ε α'}

theorem weaken {done' : α → α' → Prop} {failed' : Prop} (h : Both done failed x x')
    (hdone : ∀ a a', x = .ok a → x' = .ok a' → done a a' → done' a a')
    (hfailed : failed → failed') : Both done' failed' x x' := by
  cases h with
  | ok h => exact .ok (hdone _ _ rfl rfl h)
  | error e h => exact .error e (hfailed h)

theorem bind {final : β → β' → Prop} {f : α → Except ε β} {f' : α' → Except ε β'}
    (h : Both done failed x x')
    (hnext : ∀ a a', x = .ok a → x' = .ok a' → done a a' → Both final failed (f a) (f' a')) :
    Both final failed (x >>= f) (x' >>= f') := by
  cases h with
  | ok h => exact hnext _ _ rfl rfl h
  | error e h => exact .error e h

theorem map {final : β → β' → Prop} {f : α → β} {f' : α' → β'}
    (h : Both (fun a a' => final (f a) (f' a')) failed x x') :
    Both final failed (f <$> x) (f' <$> x') := by
  cases h with
  | ok h => exact .ok h
  | error e h => exact .error e h

theorem mapError {f : ε → ε'} (h : Both done failed x x') :
    Both done failed (x.mapError f) (x'.mapError f) := by
  cases h with
  | ok h => exact .ok h
  | error e h => exact .error (f e) h

theorem ite {c : Prop} [Decidable c] {y : Except ε α} {y' : Except ε α'}
    (hpos : c → Both done failed x x') (hneg : ¬ c → Both done failed y y') :
    Both done failed (if c then x else y) (if c then x' else y') := by
  split
  · exact hpos ‹_›
  · exact hneg ‹_›

theorem eq_and {p : Prop} {x x' : Except ε α} (h : Both (fun a a' => a' = a ∧ p) p x x') :
    x' = x ∧ p := by
  cases h with
  | ok hdone => exact ⟨congrArg Except.ok hdone.1, hdone.2⟩
  | error e hfailed => exact ⟨rfl, hfailed⟩

end Both

namespace Op

variable {fs fs' : FileSystem} {op : Op ε α} {op' : Op ε α'}

/-- The operations end alike, with results and file systems as wanted. -/
def Pairs (op : Op ε α) (op' : Op ε α') (fs fs' : FileSystem)
    (done : α → α' → FileSystem → FileSystem → Prop) (failed : FileSystem → FileSystem → Prop) :
    Prop :=
  ∀ w w' : World, w.fs = fs → w'.fs = fs' →
    Both (fun a a' => done a a' (op.run w).2.fs (op'.run w').2.fs)
      (failed (op.run w).2.fs (op'.run w').2.fs) (op.run w).1 (op'.run w').1

namespace Pairs

variable {done : α → α' → FileSystem → FileSystem → Prop}
  {failed : FileSystem → FileSystem → Prop}

theorem pure {a : α} {a' : α'} (h : done a a' fs fs') :
    (Pure.pure a : Op ε α).Pairs (Pure.pure a' : Op ε α') fs fs' done failed := by
  rintro w w' rfl rfl
  exact .ok h

theorem throw {e : ε} (h : failed fs fs') :
    (throw e : Op ε α).Pairs (throw e : Op ε α') fs fs' done failed := by
  rintro w w' rfl rfl
  exact .error e h

theorem bind {next : α → Op ε β} {next' : α' → Op ε β'}
    (mid : α → α' → FileSystem → FileSystem → Prop)
    {done : β → β' → FileSystem → FileSystem → Prop} (h : op.Pairs op' fs fs' mid failed)
    (hnext : ∀ a a' st st', mid a a' st st' → (next a).Pairs (next' a') st st' done failed) :
    (op >>= next).Pairs (op' >>= next') fs fs' done failed := by
  intro w w' hw hw'
  have hop := h w w' hw hw'
  rw [run_bind, run_bind]
  generalize op.run w = ran at hop ⊢
  generalize op'.run w' = ran' at hop ⊢
  obtain ⟨result, w₁⟩ := ran
  obtain ⟨result', w₁'⟩ := ran'
  cases hop with
  | ok h => exact hnext _ _ _ _ h w₁ w₁' rfl rfl
  | error e h => exact .error e h

theorem weaken {done' : α → α' → FileSystem → FileSystem → Prop}
    {failed' : FileSystem → FileSystem → Prop} (h : op.Pairs op' fs fs' done' failed')
    (hdone : ∀ a a' st st', done' a a' st st' → done a a' st st')
    (hfailed : ∀ st st', failed' st st' → failed st st') :
    op.Pairs op' fs fs' done failed :=
  fun w w' hw hw' =>
    (h w w' hw hw').weaken (fun _ _ _ _ => hdone _ _ _ _) (hfailed _ _)

theorem map {f : α → β} {f' : α' → β'} {done : β → β' → FileSystem → FileSystem → Prop}
    (h : op.Pairs op' fs fs' (fun a a' => done (f a) (f' a')) failed) :
    (f <$> op).Pairs (f' <$> op') fs fs' done failed := by
  have hbind : f <$> op = op >>= fun a => Pure.pure (f a) := rfl
  have hbind' : f' <$> op' = op' >>= fun a => Pure.pure (f' a) := rfl
  rw [hbind, hbind']
  exact h.bind _ fun a a' st st' ha => Pairs.pure ha

theorem get {next : World → Op ε α} {next' : World → Op ε α'}
    (h : ∀ w w', w.fs = fs → w'.fs = fs' → (next w).Pairs (next' w') fs fs' done failed) :
    (MonadState.get >>= next).Pairs (MonadState.get >>= next') fs fs' done failed :=
  fun w w' hw hw' => h w w' hw hw' w w' hw hw'

theorem lift_ok {a : α} {a' : α'} {next : α → Op ε β} {next' : α' → Op ε β'}
    {done : β → β' → FileSystem → FileSystem → Prop}
    (h : (next a).Pairs (next' a') fs fs' done failed) :
    ((liftM (Except.ok a : Except ε α) : Op ε α) >>= next).Pairs
      ((liftM (Except.ok a' : Except ε α') : Op ε α') >>= next') fs fs' done failed := h

theorem lift_error {e : ε} {next : α → Op ε β} {next' : α' → Op ε β'}
    {done : β → β' → FileSystem → FileSystem → Prop} (h : failed fs fs') :
    ((liftM (Except.error e : Except ε α) : Op ε α) >>= next).Pairs
      ((liftM (Except.error e : Except ε α') : Op ε α') >>= next') fs fs' done failed :=
  Pairs.throw h

theorem query {f : FileSystem → Except ε α} {f' : FileSystem → Except ε α'}
    (h : Both (fun a a' => done a a' fs fs') (failed fs fs') (f fs) (f' fs')) :
    (Op.query f).Pairs (Op.query f') fs fs' done failed := by
  apply Pairs.get
  rintro w w' rfl rfl
  generalize f w.fs = x at h ⊢
  generalize f' w'.fs = x' at h ⊢
  cases h with
  | ok h => exact Pairs.pure h
  | error e h => exact Pairs.throw h

theorem change {f : FileSystem → Except ε (FileSystem × α)}
    {f' : FileSystem → Except ε (FileSystem × α')}
    (h : Both (fun r r' => done r.2 r'.2 r.1 r'.1) (failed fs fs') (f fs) (f' fs')) :
    (Op.change f).Pairs (Op.change f') fs fs' done failed := by
  rintro w w' rfl rfl
  rw [Op.change, Op.change, run_get, run_get]
  generalize f w.fs = x at h ⊢
  generalize f' w'.fs = x' at h ⊢
  cases h with
  | ok h => exact .ok h
  | error e h => exact .error e h

theorem change_ {f f' : FileSystem → Except ε FileSystem}
    {done : Unit → Unit → FileSystem → FileSystem → Prop}
    (h : Both (fun st st' => done () () st st') (failed fs fs') (f fs) (f' fs')) :
    (Op.change_ f).Pairs (Op.change_ f') fs fs' done failed := by
  apply Pairs.change
  apply Both.map
  exact h

theorem report {event event' : Event} {done : Unit → Unit → FileSystem → FileSystem → Prop}
    (h : done () () fs fs') :
    (Op.report event : Op ε Unit).Pairs (Op.report event' : Op ε Unit) fs fs' done failed := by
  rintro w w' rfl rfl
  exact .ok h

theorem mapError {f : ε → ε'} (h : op.Pairs op' fs fs' done failed) :
    (op.mapError f).Pairs (op'.mapError f) fs fs' done failed :=
  fun w w' hw hw' => (h w w' hw hw').mapError

theorem attempt {done : Except ε α → Except ε α' → FileSystem → FileSystem → Prop}
    {failed : FileSystem → FileSystem → Prop}
    (h : op.Pairs op' fs fs' (fun a a' => done (.ok a) (.ok a'))
      fun st st' => ∀ e, done (.error e) (.error e) st st') :
    (op.attempt : Op ε' (Except ε α)).Pairs (op'.attempt : Op ε' (Except ε α')) fs fs' done
      failed := by
  intro w w' hw hw'
  have hop := h w w' hw hw'
  have hrun : (op.attempt : Op ε' (Except ε α)).run w = (.ok (op.run w).1, (op.run w).2) := rfl
  have hrun' : (op'.attempt : Op ε' (Except ε α')).run w' =
      (.ok (op'.run w').1, (op'.run w').2) := rfl
  rw [hrun, hrun']
  generalize op.run w = ran at hop ⊢
  generalize op'.run w' = ran' at hop ⊢
  obtain ⟨result, w₁⟩ := ran
  obtain ⟨result', w₁'⟩ := ran'
  cases hop with
  | ok h => exact .ok h
  | error e h => exact .ok (h e)

theorem of_runs {passes passes' : FileSystem → Prop} {done₁ : α → FileSystem → Prop}
    {done₂ : α' → FileSystem → Prop} (h₁ : op.Runs fs passes done₁ fun _ _ => False)
    (h₂ : op'.Runs fs' passes' done₂ fun _ _ => False)
    (hdone : ∀ a a' st st', done₁ a st → done₂ a' st' → done a a' st st') :
    op.Pairs op' fs fs' done failed := by
  intro w w' hw hw'
  rcases hrun : op.run w with ⟨result, w₁⟩
  rcases hrun' : op'.run w' with ⟨result', w₁'⟩
  cases result with
  | error e => exact (h₁.of_error hw hrun).elim
  | ok a =>
      cases result' with
      | error e => exact (h₂.of_error hw' hrun').elim
      | ok a' => exact .ok (hdone _ _ _ _ (h₁.of_ok hw hrun) (h₂.of_ok hw' hrun'))

theorem and_runs {passes passes' : FileSystem → Prop} {done₁ : α → FileSystem → Prop}
    {failed₁ : ε → FileSystem → Prop} {done₂ : α' → FileSystem → Prop}
    {failed₂ : ε → FileSystem → Prop} (h : op.Pairs op' fs fs' done failed)
    (h₁ : op.Runs fs passes done₁ failed₁) (h₂ : op'.Runs fs' passes' done₂ failed₂) :
    op.Pairs op' fs fs' (fun a a' st st' => done a a' st st' ∧ done₁ a st ∧ done₂ a' st')
      failed := by
  intro w w' hw hw'
  have hop := h w w' hw hw'
  rcases hrun : op.run w with ⟨result, w₁⟩
  rcases hrun' : op'.run w' with ⟨result', w₁'⟩
  rw [hrun, hrun'] at hop
  cases hop with
  | ok hdone => exact .ok ⟨hdone, h₁.of_ok hw hrun, h₂.of_ok hw' hrun'⟩
  | error e hfailed => exact .error e hfailed

end Pairs

/-! ## Runs that end in the same way -/

/-- The operations end with the same result and leave the same file system. -/
def Same (op op' : Op ε α) (fs fs' : FileSystem) : Prop :=
  op.Pairs op' fs fs' (fun a a' st st' => a' = a ∧ st' = st) fun st st' => st' = st

namespace Same

variable {op op' op'' : Op ε α} {fs'' : FileSystem}

theorem eq (h : op.Same op' fs fs') {w w' : World} (hw : w.fs = fs) (hw' : w'.fs = fs') :
    (op'.run w').1 = (op.run w).1 ∧ (op'.run w').2.fs = (op.run w).2.fs :=
  (h w w' hw hw').eq_and

theorem of_eq (h : ∀ w w' : World, w.fs = fs → w'.fs = fs' →
    (op'.run w').1 = (op.run w).1 ∧ (op'.run w').2.fs = (op.run w).2.fs) : op.Same op' fs fs' := by
  intro w w' hw hw'
  obtain ⟨hresult, hfs⟩ := h w w' hw hw'
  rw [hresult, hfs]
  cases (op.run w).1 with
  | ok a => exact .ok ⟨rfl, rfl⟩
  | error e => exact .error e rfl

theorem symm (h : op.Same op' fs fs') : op'.Same op fs' fs :=
  of_eq fun _ _ hw hw' => ⟨(h.eq hw' hw).1.symm, (h.eq hw' hw).2.symm⟩

theorem trans (h : op.Same op' fs fs') (h' : op'.Same op'' fs' fs'') : op.Same op'' fs fs'' := by
  refine of_eq fun w w'' hw hw'' => ?_
  obtain ⟨hresult, hfs⟩ := h.eq hw (rfl : (World.ofFileSystem fs').fs = fs')
  obtain ⟨hresult', hfs'⟩ := h'.eq (rfl : (World.ofFileSystem fs').fs = fs') hw''
  exact ⟨hresult'.trans hresult, hfs'.trans hfs⟩

theorem bind {next next' : α → Op ε β} (h : op.Same op' fs fs')
    (hnext : ∀ a st, (next a).Same (next' a) st st) :
    (op >>= next).Same (op' >>= next') fs fs' := by
  refine Pairs.bind _ h ?_
  rintro _ a _ st ⟨rfl, rfl⟩
  exact hnext a st

theorem bind_runs {next next' : α → Op ε β} {passes : FileSystem → Prop}
    {mid : α → FileSystem → Prop} {failed : ε → FileSystem → Prop} (h : op.Same op' fs fs')
    (hruns : op.Runs fs passes mid failed)
    (hnext : ∀ a st, mid a st → (next a).Same (next' a) st st) :
    (op >>= next).Same (op' >>= next') fs fs' := by
  intro w w' hw hw'
  have hop := h w w' hw hw'
  rw [run_bind, run_bind]
  rcases hrun : op.run w with ⟨result, w₁⟩
  rw [hrun] at hop
  generalize op'.run w' = ran' at hop ⊢
  obtain ⟨result', w₁'⟩ := ran'
  cases hop with
  | ok hsame =>
      obtain ⟨rfl, hfs⟩ := hsame
      exact hnext _ _ (hruns.of_ok hw hrun) w₁ w₁' rfl hfs
  | error e hfs => exact .error e hfs

end Same

/-- An operation that looks at nothing of the world but its file system. -/
def IsBlind (op : Op ε α) : Prop := ∀ fs, op.Same op fs fs

namespace IsBlind

theorem pure (a : α) : (Pure.pure a : Op ε α).IsBlind := fun _ => Pairs.pure ⟨rfl, rfl⟩

theorem throw (e : ε) : (throw e : Op ε α).IsBlind := fun _ => Pairs.throw rfl

theorem lift (x : Except ε α) : (liftM x : Op ε α).IsBlind := by
  cases x with
  | ok a => exact pure a
  | error e => exact throw e

theorem bind {op : Op ε α} {next : α → Op ε β} (h : op.IsBlind) (hnext : ∀ a, (next a).IsBlind) :
    (op >>= next).IsBlind :=
  fun fs => (h fs).bind fun a st => hnext a st

theorem map {op : Op ε α} {f : α → β} (h : op.IsBlind) : (f <$> op).IsBlind :=
  bind h fun a => pure (f a)

theorem get {next : World → Op ε α} (h : ∀ w w' : World, w.fs = w'.fs →
    (next w).Same (next w') w.fs w'.fs) : (MonadState.get >>= next).IsBlind := by
  intro fs
  refine Pairs.get fun w w' hw hw' => ?_
  have hnext := h w w' (hw.trans hw'.symm)
  rwa [hw, hw'] at hnext

theorem query (f : FileSystem → Except ε α) : (Op.query f).IsBlind := by
  intro fs
  apply Pairs.query
  cases f fs with
  | ok a => exact .ok ⟨rfl, rfl⟩
  | error e => exact .error e rfl

theorem change (f : FileSystem → Except ε (FileSystem × α)) : (Op.change f).IsBlind := by
  intro fs
  apply Pairs.change
  cases f fs with
  | ok r => exact .ok ⟨rfl, rfl⟩
  | error e => exact .error e rfl

theorem change_ (f : FileSystem → Except ε FileSystem) : (Op.change_ f).IsBlind := change _

theorem report (event : Event) : (Op.report event : Op ε Unit).IsBlind :=
  fun _ => Pairs.report ⟨rfl, rfl⟩

theorem mapError {op : Op ε α} (f : ε → ε') (h : op.IsBlind) : (op.mapError f).IsBlind :=
  fun fs => Pairs.mapError (h fs)

theorem attempt {op : Op ε α} (h : op.IsBlind) :
    (op.attempt : Op ε' (Except ε α)).IsBlind := by
  intro fs
  apply Pairs.attempt
  refine Pairs.weaken (h fs) ?_ ?_
  · rintro _ a _ st ⟨rfl, rfl⟩
    exact ⟨rfl, rfl⟩
  · rintro _ st rfl e
    exact ⟨rfl, rfl⟩

end IsBlind

end Op

end Depot
