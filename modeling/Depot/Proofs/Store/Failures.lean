import Depot.Proofs.Program
import Depot.Store.Object
/-!
# How a write fails

A write fails at one of five points, and each failure says what was being done there.  Discarding
the staging file does not fail, so what made a part of a write fail is what the part fails with.

* `WriteFailure` — the five points;
* `beginWriting_failsFrom`, `receive_failsAs`, `publish_failsAs` — the three parts of a write;
* `abort_fails` — a write whose source has failed;
* `stageAndPublish_failsFrom`, `saveFrom_failsFrom` — whole writes;
* `CopyFailure`, `copy_failsFrom` — what a copy adds to that.
-/

namespace Depot

/-- The directories above the staging file of an object are there or can be made. -/
def CanMakeAbove (target : Pathname) (world : World) : Prop :=
  ∀ parent, (stagingPath target).parent? = some parent →
    ((makeDirectories parent).run world).1 = .ok ()

/-- What a write of an object that starts in a world can fail with. -/
inductive WriteFailure (target : Pathname) (world : World) : StorageError → Prop
  /-- The directories above the object cannot be made. -/
  | above {parent : Pathname} {e : IoError}
    (hparent : (stagingPath target).parent? = some parent)
    (hfails : ((makeDirectories parent).run world).1 = .error e) :
    WriteFailure target world (.during s!"create path {parent.display}" e)
  | opening (hmade : CanMakeAbove target world) (e : IoError) :
    WriteFailure target world
      (.during s!"create destination file <{(stagingPath target).display}>" e)
  | permitting (hmade : CanMakeAbove target world) (e : IoError) :
    WriteFailure target world
      (.during s!"change permissions for file <{(stagingPath target).display}>" e)
  /-- The source fails. -/
  | copying (hmade : CanMakeAbove target world) (e : IoError) :
    WriteFailure target world (.during s!"copy file <{(stagingPath target).display}>" e)
  | syncing (hmade : CanMakeAbove target world) (e : IoError) :
    WriteFailure target world (.during s!"sync file <{(stagingPath target).display}>" e)
  | replacing (hmade : CanMakeAbove target world) (e : IoError) :
    WriteFailure target world
      (.during s!"rename <{(stagingPath target).display}> to <{target.display}>" e)

/-- What a copy that starts in a world can fail with. -/
inductive CopyFailure (s : Store) (src dst : String) (world : World) : StorageError → Prop
  | badSource {e : StorageError} (hsrc : s.resolve src = .error e) : CopyFailure s src dst world e
  | badTarget {e : StorageError} (hdst : s.resolve dst = .error e) : CopyFailure s src dst world e
  /-- There is nothing to be copied. -/
  | missing {path : Pathname} {e : IoError} (hsrc : s.resolve src = .ok path)
    (hopen : world.fs.openRead path = .error e) (hkind : e.kind = .notFound) :
    CopyFailure s src dst world (.notFound path.display (some "open src"))
  | opening {path : Pathname} {e : IoError} (hsrc : s.resolve src = .ok path)
    (hopen : world.fs.openRead path = .error e) :
    CopyFailure s src dst world (.during s!"open file '{path.display}'" e)
  | writing {path target : Pathname} {handle : Handle} {e : StorageError}
    (hsrc : s.resolve src = .ok path) (hopen : world.fs.openRead path = .ok handle)
    (hdst : s.resolve dst = .ok target) (hfails : WriteFailure target world e) :
    CopyFailure s src dst world e

namespace Store

variable {α : Type} {s : Store} {name : String} {target : Pathname} {w : Writing}
  {world world' : World}

/-! ## Discarding -/

theorem discard_failsAs (staging : Pathname) (kind : StorageError → Prop) :
    (discard staging).FailsAs kind := by
  rw [discard]
  refine Op.FailsAs.bind (Op.FailsAs.attempt _) fun result => ?_
  cases result with
  | ok _ => exact Op.FailsAs.report _
  | error e =>
      dsimp only
      split
      · exact Op.FailsAs.pure _
      · exact Op.FailsAs.report _

theorem discarding_failsFrom {op : Op StorageError α} {kind : StorageError → Prop}
    (h : op.FailsFrom world kind) : (discarding target op).FailsFrom world kind := by
  rw [discarding]
  refine Op.FailsFrom.bind (Op.FailsAs.attempt op world) fun result world' hrun => ?_
  rw [Op.run_attempt, Prod.mk.injEq] at hrun
  obtain ⟨hresult, rfl⟩ := hrun
  cases result with
  | ok a => exact Op.FailsAs.pure a _
  | error e =>
      have hop : kind e := h _ e (Prod.ext (Except.ok.inj hresult) rfl)
      exact Op.FailsAs.bind (discard_failsAs _ _) (fun _ => Op.FailsAs.throw hop) _

theorem discarding_ok {op : Op StorageError α} {a : α}
    (h : (discarding target op).run world = (.ok a, world')) : op.run world = (.ok a, world') := by
  rw [discarding, Op.run_bind, Op.run_attempt] at h
  rcases hop : op.run world with ⟨result, mid⟩
  rw [hop] at h
  cases result with
  | ok a' =>
      cases h
      rfl
  | error e =>
      obtain ⟨_, _, -, h⟩ := Op.run_bind_eq_ok.1 h
      cases h

/-! ## Beginning -/

theorem makeAbove_ok {parent : Pathname} {doing : String}
    (hparent : (stagingPath target).parent? = some parent)
    (h : (Op.during doing (makeDirectories parent)).run world = (.ok (), world')) :
    CanMakeAbove target world := by
  intro parent' hparent'
  cases hparent.symm.trans hparent'
  exact congrArg Prod.fst (Op.run_mapError_eq_ok.1 h)

theorem createStaging_failsAs (hmade : CanMakeAbove target world) :
    (createStaging target).FailsAs (WriteFailure target world) := by
  rw [createStaging]
  refine Op.FailsAs.bind (Op.FailsAs.mapError (.opening hmade)) fun handle => ?_
  exact Op.FailsAs.bind (Op.FailsAs.mapError (.permitting hmade)) fun _ => Op.FailsAs.pure _

theorem target_of_created (h : (createStaging target).run world = (.ok w, world')) :
    w.target = target := by
  rw [createStaging] at h
  obtain ⟨handle, _, -, h⟩ := Op.run_bind_eq_ok.1 h
  obtain ⟨_, _, -, h⟩ := Op.run_bind_eq_ok.1 h
  cases h
  rfl

theorem beginWriting_failsFrom (target : Pathname) (world : World) :
    (beginWriting target).FailsFrom world (WriteFailure target world) := by
  apply discarding_failsFrom
  rw [openStaging]
  dsimp only
  split
  · rename_i parent hparent
    refine Op.FailsFrom.bind (Op.FailsFrom.mapError fun world' e hrun =>
      .above hparent (congrArg Prod.fst hrun)) fun _ world' hrun => ?_
    exact createStaging_failsAs (makeAbove_ok hparent hrun) world'
  · rename_i hnone
    exact createStaging_failsAs (fun parent hparent => absurd hparent (hnone parent)) world

theorem beginWriting_ok (h : (beginWriting target).run world = (.ok w, world')) :
    w.target = target ∧ CanMakeAbove target world := by
  have hopened := discarding_ok h
  rw [openStaging] at hopened
  dsimp only at hopened
  split at hopened
  · rename_i parent hparent
    obtain ⟨_, _, hmake, hcreate⟩ := Op.run_bind_eq_ok.1 hopened
    exact ⟨target_of_created hcreate, makeAbove_ok hparent hmake⟩
  · rename_i hnone
    exact ⟨target_of_created hopened, fun parent hparent => absurd hparent (hnone parent)⟩

/-! ## Receiving -/

theorem abort_fails (w : Writing) (e : IoError) (world : World) :
    ((w.abort e).run world).1 =
      .error (.during s!"copy file <{(stagingPath w.target).display}>" e) := by
  let told (failure : StorageError) : Prop :=
    failure = .during s!"copy file <{(stagingPath w.target).display}>" e
  have hfails : (w.abort e).FailsFrom world told :=
    discarding_failsFrom (Op.FailsAs.throw (show told _ from rfl) world)
  rcases hrun : (w.abort e).run world with ⟨result, world'⟩
  cases result with
  | ok w' => cases discarding_ok hrun
  | error e' => exact congrArg Except.error (hfails world' e' hrun)

theorem receive_failsAs (hmade : CanMakeAbove w.target world) (d : Delivery) :
    (w.receive d).FailsAs (WriteFailure w.target world) := by
  cases d with
  | chunk data =>
      cases data with
      | nil => exact Op.FailsAs.pure _
      | cons b data =>
          refine Op.FailsAs.map _ (Op.FailsAs.bind (Op.FailsAs.change_ ?_) fun _ =>
            Op.FailsAs.pure _)
          intro fs e he
          cases he
  | fault e =>
      rw [Writing.receive]
      split
      · exact Op.FailsAs.pure _
      · exact Op.FailsAs.map _ fun world' =>
          discarding_failsFrom (Op.FailsAs.throw (.copying hmade e) world')

theorem receive_target {d : Delivery} {received : Received}
    (h : (w.receive d).run world = (.ok received, world')) :
    received = .ended w ∨ ∃ w', received = .more w' ∧ w'.target = w.target := by
  cases d with
  | chunk data =>
      cases data with
      | nil =>
          cases h
          exact Or.inl rfl
      | cons b data =>
          cases h
          exact Or.inr ⟨_, rfl, rfl⟩
  | fault e =>
      rw [Writing.receive] at h
      split at h
      · cases h
        exact Or.inr ⟨w, rfl, rfl⟩
      · rw [Op.run_map, abort_fails] at h
        cases h

theorem receiveAll_failsAs {world₀ : World} (hmade : CanMakeAbove w.target world₀)
    (source : List Delivery) : (w.receiveAll source).FailsAs (WriteFailure w.target world₀) := by
  induction source generalizing w with
  | nil => exact Op.FailsAs.pure _
  | cons d rest ih =>
      intro world
      rw [Writing.receiveAll]
      refine Op.FailsFrom.bind (receive_failsAs hmade d world) fun received world' hrun => ?_
      rcases receive_target hrun with rfl | ⟨w', rfl, htarget⟩
      · exact Op.FailsAs.pure _ world'
      · rw [← htarget] at hmade ⊢
        exact ih hmade world'

theorem receiveAll_target {source : List Delivery} {w' : Writing}
    (h : (w.receiveAll source).run world = (.ok w', world')) : w'.target = w.target := by
  induction source generalizing w world with
  | nil =>
      cases h
      rfl
  | cons d rest ih =>
      rw [Writing.receiveAll] at h
      obtain ⟨received, mid, hreceive, h⟩ := Op.run_bind_eq_ok.1 h
      rcases receive_target hreceive with rfl | ⟨next, rfl, htarget⟩
      · cases h
        rfl
      · exact (ih h).trans htarget

/-! ## Publishing -/

theorem publish_failsAs (hmade : CanMakeAbove w.target world) :
    w.publish.FailsAs (WriteFailure w.target world) := by
  rw [Writing.publish]
  refine Op.FailsAs.bind (fun world' => discarding_failsFrom ?_) fun _ =>
    Op.FailsAs.bind (Op.FailsAs.report _) fun _ => Op.FailsAs.pure _
  exact Op.FailsAs.bind (Op.FailsAs.mapError (.syncing hmade))
    (fun _ => Op.FailsAs.mapError (.replacing hmade)) world'

theorem endSave_failsAs (hmade : CanMakeAbove w.target world) (name : String) (expected : Nat) :
    (endSave name expected w).FailsAs (WriteFailure w.target world) := by
  rw [endSave]
  refine Op.FailsAs.bind (publish_failsAs hmade) fun written => ?_
  rw [reportSize]
  split
  · exact Op.FailsAs.report _
  · exact Op.FailsAs.pure _

/-! ## Whole writes -/

theorem stageAndPublish_failsFrom (target : Pathname) (source : FileSystem → List Delivery)
    (world : World) :
    (stageAndPublish target source).FailsFrom world (WriteFailure target world) := by
  rw [stageAndPublish]
  refine Op.FailsFrom.bind (beginWriting_failsFrom target world) fun w mid hbegin => ?_
  obtain ⟨rfl, hmade⟩ := beginWriting_ok hbegin
  apply Op.FailsFrom.get
  refine Op.FailsFrom.bind (receiveAll_failsAs hmade _ mid) fun w' mid' hreceive => ?_
  rw [← receiveAll_target hreceive] at hmade ⊢
  exact publish_failsAs hmade mid'

theorem saveFrom_failsFrom (hname : s.resolve name = .ok target)
    (source : FileSystem → List Delivery) (expected : Nat) (world : World) :
    (s.saveFrom name source expected).FailsFrom world (WriteFailure target world) := by
  rw [saveFrom, beginSave, hname]
  refine Op.FailsFrom.bind (beginWriting_failsFrom target world) fun w mid hbegin => ?_
  obtain ⟨rfl, hmade⟩ := beginWriting_ok hbegin
  apply Op.FailsFrom.get
  refine Op.FailsFrom.bind (receiveAll_failsAs hmade _ mid) fun w' mid' hreceive => ?_
  rw [← receiveAll_target hreceive] at hmade ⊢
  exact endSave_failsAs hmade name expected mid'

/-! ## Copies -/

theorem openObject_ran {path : Pathname} {doing : String} {handle : Handle}
    (h : (openObject path doing).run world = (.ok handle, world')) :
    world.fs.openRead path = .ok handle ∧ world' = world := by
  exact Op.run_query_eq_ok.1 (Op.run_mapError_eq_ok.1 h)

theorem copy_failsFrom (s : Store) (src dst : String) (world : World) :
    (s.copy src dst).FailsFrom world (CopyFailure s src dst world) := by
  rw [copy]
  refine Op.FailsFrom.lift (fun path hsrc => ?_) fun e he => .badSource he
  refine Op.FailsFrom.lift (fun target hdst => ?_) fun e he => .badTarget he
  refine Op.FailsFrom.bind (Op.FailsFrom.mapError (Op.FailsFrom.query fun e hopen => ?_))
    fun handle mid hran => ?_
  · split
    · exact .missing hsrc hopen ‹_›
    · exact .opening hsrc hopen
  · obtain ⟨hopen, rfl⟩ := openObject_ran hran
    refine Op.FailsFrom.bind ((stageAndPublish_failsFrom target _ _).mono fun e hfails => ?_)
      fun _ _ _ => Op.FailsAs.report _ _
    exact .writing hsrc hopen hdst hfails

theorem receiveAll_fault (w : Writing) {e : IoError} (hkind : e.kind ≠ .interrupted)
    (rest : List Delivery) (world : World) :
    ((w.receiveAll (.fault e :: rest)).run world).1 =
      .error (.during s!"copy file <{(stagingPath w.target).display}>" e) := by
  rw [Writing.receiveAll, Writing.receive, if_neg hkind, Op.run_bind, Op.run_map, abort_fails]
  rfl

theorem copy_of_unreadable {src dst : String} {path : Pathname} {handle : Handle} {e : IoError}
    (hsrc : s.resolve src = .ok path) (hopen : world.fs.openRead path = .ok handle)
    (hdst : s.resolve dst = .ok target)
    (hbegin : (beginWriting target).run world = (.ok w, world'))
    (hread : world'.fs.readFrom handle 0 = .error e) :
    ((s.copy src dst).run world).1 =
      .error (.during s!"copy file <{(stagingPath target).display}>" e) := by
  obtain ⟨rfl, -⟩ := beginWriting_ok hbegin
  have hopened : (openObject path "open src").run world = (.ok handle, world) := by
    rw [openObject, Op.run_mapError, Op.run_query, hopen]
    rfl
  have hdeliveries : deliveriesOf handle world'.fs = [.fault e] := by rw [deliveriesOf, hread]
  have hkind : e.kind ≠ .interrupted := by
    cases handle with
    | file id => cases hread
    | directory =>
        cases hread
        decide
    | device => cases hread
  have hreceive := receiveAll_fault w hkind [] world'
  rcases hrun : (w.receiveAll [.fault e]).run world' with ⟨result, last⟩
  rw [hrun] at hreceive
  obtain rfl : result = _ := hreceive
  rw [copy, hsrc, Op.run_lift_ok, hdst, Op.run_lift_ok, Op.run_bind, hopened]
  dsimp only
  rw [Op.run_bind, stageAndPublish, Op.run_bind, hbegin]
  dsimp only
  rw [Op.run_get, hdeliveries, Op.run_bind, hrun]

end Store

end Depot
