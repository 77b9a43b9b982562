import Depot.Proofs.Session.Calls
import Depot.Proofs.Session.Overlap
import Depot.Proofs.Store.Commuting
import Depot.Proofs.Store.Deliveries
import Depot.Proofs.Store.FailureContexts
/-!
# What failed steps report

A step of a script fails as the operation of the store that it runs.  The source of a save may run
steps of its own meanwhile and disturb anything; whatever becomes of the save after that, its
failures name the staging file that it has opened.

* `Step.ActsOn` — the paths that a step acts on;
* `playSource_failure`, `playSource_source_fails` — a save that is under way;
* `runStep_save_failure`, `runStep_copy_failure` — all that a step that writes can fail with;
* `runStep_namesPath`, `runStep_refused`, `runStep_source_fails` — all steps;
* `failures_name_paths` — failures of the system, and those of a source.
-/

namespace Depot

/-- The failure of the store that a step is answered with. -/
def Answer.failure? : Answer → Option StorageError
  | failed e => some e
  | during answer _ => answer.failure?
  | _ => none

def Opening.path? : Opening → Option Pathname
  | atPath path _ => some path
  | configured config => some config.path
  | selected config _ => config.filesystem.map FsConfig.path

namespace Step

/-- A path that a step acts on, and names when it ends with a certain failure of the system. -/
def ActsOn (session : Session) (source : IoError) (p : Pathname) : Step → Prop
  | openStore _ how => ∃ path, how.path? = some path ∧ OpenNames session.world.fs path p
  | save key name _ _ => ∃ opened target, session.stores.get? key = some opened ∧
      opened.store.resolve name = .ok target ∧ WriteNames session.world target source p
  | copy key src dst => ∃ opened, session.stores.get? key = some opened ∧
      CopyNames opened.store src dst session.world source p
  | read key name | openReader key name _ | stat key name | delete key name =>
      ∃ opened, session.stores.get? key = some opened ∧ opened.store.resolve name = .ok p
  | list key beginning _ => ∃ opened, session.stores.get? key = some opened ∧
      opened.store.ListNames beginning session.world.fs p
  | _ => False

/-- A step that reads a source: a save the given one, a copy the object. -/
def readsSource : Step → Bool
  | save .. | copy .. => true
  | _ => false

/-- A step that reads a source fails with this before it has opened the source. -/
def Refused (session : Session) (e : StorageError) : Step → Prop
  | save key name _ _ => ∃ opened, session.stores.get? key = some opened ∧
      opened.store.resolve name = .error e
  | copy key src dst => ∃ opened, session.stores.get? key = some opened ∧
      (opened.store.resolve src = .error e ∨ opened.store.resolve dst = .error e ∨
        ∃ path source, opened.store.resolve src = .ok path ∧
          session.world.fs.openRead path = .error source ∧ source.kind = .notFound ∧
            e = .notFound path.display (some "open src"))
  | _ => False

/-- The source of a step is read while an object is written, and fails. -/
def SourceFails (session : Session) (source : IoError) (target : Pathname) : Step → Prop
  | save key name items _ => ∃ opened w world, session.stores.get? key = some opened ∧
      opened.store.resolve name = .ok target ∧
        (beginWriting target).run session.world = (.ok w, world) ∧
          (delivered (deliveriesIn items)).2 = some source
  | copy key src dst => ∃ opened path handle w world, session.stores.get? key = some opened ∧
      opened.store.resolve src = .ok path ∧ session.world.fs.openRead path = .ok handle ∧
        opened.store.resolve dst = .ok target ∧
          (beginWriting target).run session.world = (.ok w, world) ∧
            world.fs.readFrom handle 0 = .error source
  | _ => False

end Step

namespace Session

variable {session : Session} {opened : OpenStore} {key name src dst : String} {expected : Nat}
  {w : Writing} {target : Pathname} {e : StorageError} {source : IoError}

/-! ## Answers -/

theorem perform_failure {α : Type} {op : Op StorageError α} {kind : StorageError → Prop}
    {next : Except StorageError α → StateM Session Answer} (hop : op.FailsFrom session.world kind)
    (herror : ∀ e session', ((next (.error e)).run session').1 = .failed e)
    (hok : ∀ a session', ((next (.ok a)).run session').1.failure? = none)
    (h : ((perform op >>= next).run session).1.failure? = some e) : kind e := by
  rw [StateT.run_bind, run_perform] at h
  rcases hrun : op.run session.world with ⟨result, world⟩
  rw [hrun] at h
  cases result with
  | error e' =>
      have hanswer := congrArg Answer.failure? (herror e' { session with world := world })
      cases hanswer.symm.trans h
      exact hop world e hrun
  | ok a => cases (hok a { session with world := world }).symm.trans h

theorem answerWith_failure {α : Type} {op : Op StorageError α} {kind : StorageError → Prop}
    {answer : α → Answer} (hop : op.FailsFrom session.world kind)
    (hanswer : ∀ a, (answer a).failure? = none)
    (h : ((answerWith op answer).run session).1.failure? = some e) : kind e := by
  rw [answerWith] at h
  refine perform_failure hop (fun _ _ => rfl) (fun a session' => ?_) h
  exact hanswer a

theorem withStore_failure {f : OpenStore → StateM Session Answer}
    (h : ((withStore key f).run session).1.failure? = some e) :
    ∃ opened, session.stores.get? key = some opened ∧
      ((f opened).run session).1.failure? = some e := by
  cases hopened : session.stores.get? key with
  | none =>
      rw [withStore] at h
      simp only [StateT.run_bind, StateT.run_get, pure_bind, hopened] at h
      cases h
  | some opened => exact ⟨opened, rfl, by rwa [run_withStore hopened] at h⟩

theorem withStore_namesPath {f : OpenStore → StateM Session Answer}
    {paths : OpenStore → IoError → Pathname → Prop}
    (hf : ∀ opened e, ((f opened).run session).1.failure? = some e → e.NamesPath (paths opened))
    (h : ((withStore key f).run session).1.failure? = some e) :
    e.NamesPath fun source p => ∃ opened, session.stores.get? key = some opened ∧
      paths opened source p := by
  obtain ⟨opened, hopened, h⟩ := withStore_failure h
  exact (hf opened e h).mono fun source p hp => ⟨opened, hopened, hp⟩

theorem withFiles_failure {f : Store → StateM Session Answer}
    (h : ((withFiles key f).run session).1.failure? = some e) :
    ∃ opened, session.stores.get? key = some opened ∧
      ((f opened.store).run session).1.failure? = some e := by
  rw [withFiles] at h
  obtain ⟨opened, hopened, h⟩ := withStore_failure h
  split at h
  · cases h
  · exact ⟨opened, hopened, h⟩

theorem failure?_withSteps (steps : List Answer) (answer : Answer) :
    (withSteps steps answer).failure? = answer.failure? := by
  rw [withSteps]
  split <;> rfl

/-! ## Saves -/

/-- However a source goes on, and whatever its steps do, the write fails in its own ways. -/
theorem playSource_failure {world : World} (hmade : CanMakeAbove w.target world)
    {items : List SourceItem}
    (h : ((playSource items name expected w).run session).1.1.failure? = some e) :
    WriteFailure w.target world e := by
  have hfinish {w' : Writing} {session' : Session} (htarget : w'.target = w.target)
      (hended : ((finishSave name expected w').run session').1.failure? = some e) :
      WriteFailure w.target world e := by
    rw [← htarget] at hmade ⊢
    exact answerWith_failure (Store.endSave_failsAs hmade name expected _) (fun _ => rfl) hended
  induction items generalizing w session with
  | nil =>
      rw [run_playSource_nil] at h
      exact hfinish rfl h
  | cons item rest ih =>
      cases item with
      | steps steps =>
          rw [run_playSource_steps] at h
          exact ih hmade h hfinish
      | delivery d =>
          rw [run_playSource_delivery, run_perform] at h
          rcases hrun : (w.receive d).run session.world with ⟨result, world'⟩
          rw [hrun] at h
          cases result with
          | error e' =>
              cases h
              exact Store.receive_failsAs hmade d _ _ _ hrun
          | ok received =>
              rcases Store.receive_target hrun with rfl | ⟨w', rfl, htarget⟩
              · exact hfinish rfl h
              · rw [← htarget] at hmade hfinish ⊢
                exact ih hmade h hfinish

theorem playSource_source_fails {items : List SourceItem}
    (h : (delivered (deliveriesIn items)).2 = some source) :
    ((playSource items name expected w).run session).1.1 =
      .failed (.during s!"copy file <{(stagingPath w.target).display}>" source) := by
  induction items generalizing w session with
  | nil => cases h
  | cons item rest ih =>
      cases item with
      | steps steps =>
          rw [run_playSource_steps]
          exact ih h
      | delivery d =>
          rw [run_playSource_delivery, run_perform]
          cases d with
          | chunk data =>
              cases data with
              | nil => cases h
              | cons b data => exact ih h
          | fault x =>
              rw [deliveriesIn, delivered] at h
              rw [Writing.receive]
              split at h
              · rename_i hkind
                rw [if_pos hkind]
                exact ih h
              · rename_i hkind
                cases h
                rw [if_neg hkind, Op.run_map, Store.abort_fails]
                rfl

theorem runStep_save_failure {items : List SourceItem}
    (h : ((runStep (.save key name items expected)).run session).1.failure? = some e) :
    ∃ opened, session.stores.get? key = some opened ∧ (opened.store.resolve name = .error e ∨
      ∃ target, opened.store.resolve name = .ok target ∧
        WriteFailure target session.world e) := by
  cases hopened : session.stores.get? key with
  | none =>
      rw [runStep] at h
      simp only [StateT.run_bind, StateT.run_get, pure_bind, hopened] at h
      cases h
  | some opened =>
      refine ⟨opened, rfl, ?_⟩
      rw [run_runStep_save hopened, run_perform, Store.beginSave] at h
      cases hname : opened.store.resolve name with
      | error e' =>
          rw [hname] at h
          cases h
          exact Or.inl rfl
      | ok target =>
          refine Or.inr ⟨target, rfl, ?_⟩
          rw [hname, Op.run_lift_ok] at h
          rcases hrun : (beginWriting target).run session.world with ⟨result, world⟩
          rw [hrun] at h
          cases result with
          | error e' =>
              cases h
              exact Store.beginWriting_failsFrom target _ _ _ hrun
          | ok w =>
              obtain ⟨rfl, hmade⟩ := Store.beginWriting_ok hrun
              exact playSource_failure hmade ((failure?_withSteps _ _).symm.trans h)

/-! ## Other steps -/

theorem runStep_copy_failure (h : ((runStep (.copy key src dst)).run session).1.failure? = some e) :
    ∃ opened, session.stores.get? key = some opened ∧
      CopyFailure opened.store src dst session.world e := by
  rw [runStep] at h
  obtain ⟨opened, hopened, h⟩ := withStore_failure h
  exact ⟨opened, hopened, answerWith_failure (Store.copy_failsFrom _ src dst _) (fun _ => rfl) h⟩

theorem openingOp_namesPath (how : Opening) (world : World) :
    (openingOp how).FailsFrom world (StorageError.NamesPath fun _ p =>
      ∃ path, how.path? = some path ∧ OpenNames world.fs path p) := by
  cases how with
  | atPath path create =>
      refine Op.FailsFrom.bind ((Store.openAt_namesPath path create world).mono fun e he => ?_)
        fun _ _ _ => Op.FailsAs.pure _ _
      exact he.mono fun source p hp => ⟨path, rfl, hp⟩
  | configured config =>
      refine Op.FailsFrom.bind ((config.openStore_namesPath world).mono fun e he => ?_)
        fun _ _ _ => Op.FailsAs.pure _ _
      exact he.mono fun source p hp => ⟨config.path, rfl, hp⟩
  | selected config general =>
      exact Op.FailsFrom.bind (config.openStore_namesPath world) fun _ _ _ => Op.FailsAs.pure _ _

theorem readObject_failure {s : Store} {kind : StorageError → Prop}
    (hop : (s.openReader name).FailsFrom session.world kind)
    (h : ((readObject s name).run session).1.failure? = some e) : kind e := by
  rw [readObject] at h
  refine perform_failure hop (fun _ _ => rfl) (fun reader session' => ?_) h
  simp only [StateT.run_bind, StateT.run_get, pure_bind]
  split <;> rfl

/-- A step that fails with a failure of the system names a path that it acts on. -/
theorem runStep_namesPath (step : Step)
    (h : ((runStep step).run session).1.failure? = some e) :
    e.NamesPath fun source p => step.ActsOn session source p := by
  cases step with
  | openStore key how =>
      rw [runStep, openStore] at h
      exact perform_failure (openingOp_namesPath how _) (fun _ _ => rfl) (fun _ _ => rfl) h
  | save key name items expected =>
      obtain ⟨opened, hopened, hname | ⟨target, hname, hfails⟩⟩ := runStep_save_failure h
      · exact namesPath_of_resolve hname
      · exact (hfails.namesPath hname).mono fun source p hp => ⟨opened, target, hopened, hname, hp⟩
  | copy key src dst =>
      obtain ⟨opened, hopened, hfails⟩ := runStep_copy_failure h
      exact hfails.namesPath.mono fun source p hp => ⟨opened, hopened, hp⟩
  | read key name =>
      rw [runStep] at h
      exact withStore_namesPath
        (fun opened _ => readObject_failure (Store.openReader_namesPath opened.store name _)) h
  | openReader key name reader =>
      rw [runStep] at h
      refine withStore_namesPath (fun opened e h => ?_) h
      rw [openReader] at h
      exact perform_failure (Store.openReader_namesPath opened.store name _) (fun _ _ => rfl)
        (fun _ _ => rfl) h
  | stat key name =>
      rw [runStep] at h
      exact withStore_namesPath (fun opened _ =>
        answerWith_failure (Store.stat_namesPath opened.store name _) fun _ => rfl) h
  | delete key name =>
      rw [runStep] at h
      exact withStore_namesPath (fun opened _ =>
        answerWith_failure (Store.delete_namesPath opened.store name _) fun _ => rfl) h
  | list key beginning ending =>
      rw [runStep] at h
      exact withStore_namesPath (fun opened _ =>
        answerWith_failure (Store.list_namesPath opened.store beginning ending _) fun _ => rfl) h
  | purge key maxAge =>
      rw [runStep] at h
      obtain ⟨opened, -, h⟩ := withFiles_failure h
      exact answerWith_failure (Store.purge_failsAs _ maxAge _ _) (fun _ => rfl) h
  | resolve key name =>
      rw [runStep] at h
      obtain ⟨opened, -, h⟩ := withFiles_failure h
      cases hname : opened.store.resolve name with
      | ok path =>
          rw [hname] at h
          cases h
      | error e' =>
          rw [hname] at h
          cases h
          exact namesPath_of_resolve hname
  | root key =>
      rw [runStep] at h
      obtain ⟨opened, -, h⟩ := withFiles_failure h
      cases h
  | kind key =>
      rw [runStep] at h
      obtain ⟨opened, -, h⟩ := withStore_failure h
      cases h
  | cloneStore key other =>
      rw [runStep] at h
      obtain ⟨opened, -, h⟩ := withStore_failure h
      cases h
  | readMore reader limit =>
      rw [runStep, readMore] at h
      simp only [StateT.run_bind, StateT.run_get, pure_bind] at h
      split at h
      · cases h
      · split at h <;> cases h
  | disturb change =>
      rw [runStep] at h
      simp only [StateT.run_bind, run_perform] at h
      cases hrun : (change.run.run session.world).1 with
      | ok u =>
          rw [hrun] at h
          cases h
      | error e' =>
          rw [hrun] at h
          cases h
  | tree path => cases h
  | closeReader reader => cases h
  | command args environment input => cases h

theorem runStep_refused {step : Step} (hstep : step.readsSource = true)
    (h : ((runStep step).run session).1.failure? = some e) (hkind : e.failureKind ≠ .io) :
    step.Refused session e := by
  cases step with
  | save key name items expected =>
      obtain ⟨opened, hopened, hname | ⟨target, -, hfails⟩⟩ := runStep_save_failure h
      · exact ⟨opened, hopened, hname⟩
      · exact absurd hfails.failureKind_eq hkind
  | copy key src dst =>
      obtain ⟨opened, hopened, hfails⟩ := runStep_copy_failure h
      refine ⟨opened, hopened, ?_⟩
      cases hfails with
      | badSource hsrc => exact Or.inl hsrc
      | badTarget hdst => exact Or.inr (Or.inl hdst)
      | missing hsrc hopen hmissing => exact Or.inr (Or.inr ⟨_, _, hsrc, hopen, hmissing, rfl⟩)
      | opening hsrc hopen => exact absurd rfl hkind
      | writing hsrc hopen hdst hfails => exact absurd hfails.failureKind_eq hkind
  | _ => cases hstep

theorem runStep_source_fails {step : Step} (h : step.SourceFails session source target) :
    ((runStep step).run session).1.failure? =
      some (.during s!"copy file <{(stagingPath target).display}>" source) := by
  cases step with
  | save key name items expected =>
      obtain ⟨opened, w, world, hopened, hname, hbegin, hfails⟩ := h
      obtain ⟨rfl, -⟩ := Store.beginWriting_ok hbegin
      rw [run_runStep_save hopened, run_perform, Store.beginSave, hname, Op.run_lift_ok, hbegin]
      dsimp only
      rw [failure?_withSteps, playSource_source_fails hfails]
      rfl
  | copy key src dst =>
      obtain ⟨opened, path, handle, w, world, hopened, hsrc, hopen, hdst, hbegin, hread⟩ := h
      have hcopy := Store.copy_of_unreadable hsrc hopen hdst hbegin hread
      rw [run_runStep_copy hopened, run_answerWith, run_perform, hcopy]
      rfl
  | _ => exact h.elim

/-- A step fails with a failure of the system only together with what was being done, and that shows
a path that the step acts on.  Any other failure of a step with a source comes before the source is
opened; a source that fails is reported as a failure of the system. -/
theorem failures_name_paths (session : Session) (step : Step) :
    let answer := ((runStep step).run session).1
    (∀ source context, answer.failure? = some (.io source context) →
      ∃ doing p, context = some doing ∧ step.ActsOn session source p ∧ p.IsShownIn doing) ∧
    (∀ e, answer.failure? = some e → e.failureKind ≠ .io → step.readsSource →
      step.Refused session e) ∧
    ∀ source target, step.SourceFails session source target →
      answer.failure? =
        some (.io source (some s!"copy file <{(stagingPath target).display}>")) := by
  refine ⟨fun source context h => ?_, fun e h hkind hstep => ?_, fun source target h => ?_⟩
  · exact runStep_namesPath step h source context rfl
  · exact runStep_refused hstep h hkind
  · exact runStep_source_fails h

theorem failures_name_paths_overtaken :
    let faulty := overtaking [.delivery (.fault .busy)]
    let doing := "copy file </r/n.tmp>"
    ((runStep faulty).run overtaken).1.failure? = some (.io .busy (some doing)) ∧
      (∃ p, faulty.ActsOn overtaken .busy p ∧ p.IsShownIn doing) ∧
        (Step.copy "s" "gone" "n").Refused overtaken
          (.notFound "/r/gone" (some "open src")) := by
  intro faulty doing
  have hfails : faulty.SourceFails overtaken .busy (.ofString "/r/n") :=
    ⟨_, _, _, rfl, rfl, rfl, rfl⟩
  have hanswer : ((runStep faulty).run overtaken).1.failure? = some (.io .busy (some doing)) :=
    (failures_name_paths overtaken faulty).2.2 .busy _ hfails
  refine ⟨hanswer, ?_, ?_⟩
  · obtain ⟨_, p, hdoing, hp⟩ := (failures_name_paths overtaken faulty).1 _ _ hanswer
    obtain rfl := Option.some.inj hdoing
    exact ⟨p, hp⟩
  · exact (failures_name_paths overtaken (.copy "s" "gone" "n")).2.1 _ rfl nofun rfl

end Session

end Depot
