import Depot.Proofs.Session.WriteLog
/-!
# Overlapping writes of one object

Writes of one object that overlap share a staging path.  Whoever comes second opens the staging file
of the first and takes it away at its end; from then on the first is lost and fails in the end, but
it goes on writing into the file that it has opened.  While no write is late, this is never seen.

The proof follows a script down: `Followed` is what a step or some steps lead to, `Plays` what the
source of a save does while the save is under way, live or lost.

* `followed_copy`, `played_finish`, `played_finish_lost` — the parts that run no further steps;
* `plays_delivery_live`, `plays_delivery_lost`, `plays_steps` — one item of a source;
* `followed_step`, `followed_steps`, `plays_source` — whole scripts;
* `overlap_exact` — what is seen of overlapping writes.
-/

namespace Depot.Session

open FileSystem

variable {s : Store} {root : Position} {k : Key} {fs₁ : FileSystem}
  {session session' session'' : Session} {log log' : List WriteRecord} {r : WriteRecord}

/-- What writes of an object lead to: only what they have published is ever shown unless one of them
was late, none that was late has ended well, and nothing is left staged. -/
structure Followed (s : Store) (root : Position) (k : Key) (log : List WriteRecord)
    (session session' : Session) : Prop where
  stores : session'.stores = session.stores
  tidy : s.Tidy session'.world.fs root
  between : Between root k.names (NoneLate log) (shownBy log) session session'
  late : ∀ r ∈ log, r.late = true → r.ended = false
  staging : s.Stageable root k session.world.fs → session'.world.fs = session.world.fs ∨
    session'.world.fs.at? (root ++ k.staging) = none

namespace Followed

theorem refl (h : s.Tidy session.world.fs root) (k : Key) :
    Followed s root k [] session session where
  stores := rfl
  tidy := h
  between := Between.refl ..
  late := fun _ hr => absurd hr List.not_mem_nil
  staging := fun _ => Or.inl rfl

theorem trans (h : Followed s root k log session session')
    (h' : Followed s root k log' session' session'') :
    Followed s root k (log ++ log') session session'' where
  stores := h'.stores.trans h.stores
  tidy := h'.tidy
  between := by
    refine (h.between.trans h'.between).mono (fun hlate => noneLate_append.1 hlate) ?_
    rw [shownBy, shownBy, shownBy, List.filterMap_append]
    exact List.Subset.refl _
  late := by
    intro r hr
    rcases List.mem_append.1 hr with hr | hr
    · exact h.late r hr
    · exact h'.late r hr
  staging := by
    intro hstageable
    rcases h.staging hstageable with hsame | hvacant
    · rcases h'.staging (hsame ▸ hstageable) with hsame' | hvacant'
      · exact Or.inl (hsame'.trans hsame)
      · exact Or.inr hvacant'
    · -- A vacant path can be staged at, so what comes next leaves it vacant again.
      have hstageable' : s.Stageable root k session'.world.fs := by
        refine ⟨hstageable.checkPath, fun mode hmode => ?_⟩
        rw [hvacant] at hmode
        cases hmode
      rcases h'.staging hstageable' with hsame' | hvacant'
      · exact Or.inr (by rw [hsame', hvacant])
      · exact Or.inr hvacant'

end Followed

/-! ## Parts without further steps -/

theorem between_of_staged (h₁ : s.Tidy fs₁ root) {visited : List FileSystem} {condition : Prop}
    {shown : List Bytes} (hsession : s.Staged root k fs₁ session.world.fs)
    (hstates : session'.world.states = visited ++ session.world.states)
    (hvisited : ∀ st ∈ visited, s.Staged root k fs₁ st ∨
      ∃ bytes ∈ shown, s.Published root k fs₁ bytes st) :
    Between root k.names condition shown session session' := by
  refine ⟨visited, hstates, fun _ st hst => ?_⟩
  rcases hvisited st hst with hstaged | ⟨bytes, hmem, hpublished⟩
  · exact Or.inl (by rw [hstaged.objectAt?_eq h₁, hsession.objectAt?_eq h₁])
  · refine Or.inr ⟨bytes, hmem, ?_⟩
    rw [hpublished.objectAt?_eq h₁, Function.update_self]

/-- An operation that publishes a staged write or fails. -/
theorem followed_of_write {ε α : Type} {op : Op ε α} {failed : FileSystem → Prop}
    {result : Except ε α} (h₁ : s.Tidy fs₁ root) (hsession : s.Staged root k fs₁ session.world.fs)
    (hruns : op.Runs session.world.fs
      (fun st => s.Staged root k fs₁ st ∨ s.Delivered root k fs₁ r.payload st)
      (fun _ => s.Delivered root k fs₁ r.payload) (fun _ => failed))
    (hfails : op.FailsWithin session.world.fs (s.Staged root k fs₁))
    (hfailed : ∀ st, failed st → s.Tidy st root ∧ (s.Stageable root k session.world.fs →
      st = session.world.fs ∨ st.at? (root ++ k.staging) = none))
    (hrun : (perform op).run session = (result, session')) (hended : r.ended = result.isOk)
    (hlate : r.late = false) : Followed s root k [r] session session' := by
  obtain ⟨hstores, visited, hstates, hvisited, hdone, herror⟩ := exists_visited hruns hrun
  have hnever : ∀ r' ∈ [r], r'.late = true → r'.ended = false := by
    intro r' hr' htrue
    rw [List.mem_singleton.1 hr', hlate] at htrue
    cases htrue
  cases result with
  | ok a =>
      obtain ⟨bytes, -, hpublished⟩ := hdone a rfl
      refine ⟨hstores, hpublished.tidy, ?_, hnever, fun _ => Or.inr hpublished.vacant⟩
      refine between_of_staged h₁ hsession hstates fun st hst => (hvisited st hst).imp_right ?_
      rintro ⟨bytes', hbytes', hst'⟩
      exact ⟨bytes', mem_shownBy.2 ⟨r, List.mem_singleton_self r, hended, hbytes'⟩, hst'⟩
  | error e =>
      -- `hruns` allows for a publication before the failure; `hfails` does not.
      have hop : op.run session.world = (.error e, session'.world) := by
        rw [run_perform] at hrun
        obtain ⟨hresult, rfl⟩ := Prod.mk.inj hrun
        exact Prod.ext hresult rfl
      obtain ⟨visited', hstates', hvisited'⟩ := hfails _ _ e rfl hop
      obtain ⟨htidy, hstaging⟩ := hfailed _ (herror e rfl)
      refine ⟨hstores, htidy, ?_, hnever, hstaging⟩
      exact between_of_staged h₁ hsession hstates' fun st hst => Or.inl (hvisited' st hst)

theorem followed_copy {key src dst : String} {opened : OpenStore} (h : s.Tidy session.world.fs root)
    (hopened : session.stores.get? key = some opened) (hstore : opened.store = s)
    (hname : ObjectName.ofObject dst = .ok k.names) :
    Followed s root k (logStep root k.names (.copy key src dst) session) session
      ((runStep (.copy key src dst)).run session).2 := by
  subst hstore
  have hruns := (WriteCall.copy src dst).runs h hname
  have hfails := Store.copy_failsWithin (k := k) h src (WriteCall.resolve_of_ofObject hname)
  rcases hrun : (perform (opened.store.copy src dst)).run session with ⟨result, session'⟩
  obtain ⟨answer, hanswer, hdone⟩ := run_answerWith_done hrun
  rw [logStep, run_runStep_copy hopened, hanswer]
  refine followed_of_write h (Store.Staged.refl h) hruns hfails ?_ hrun hdone rfl
  rintro st (⟨rfl, -⟩ | ⟨-, hstaged, hcleared⟩)
  · exact ⟨h, fun _ => Or.inl rfl⟩
  · exact ⟨hstaged.tidy, fun hstageable => Or.inr (hstageable.vacant hstaged hcleared)⟩

theorem followed_save_error {payload : Option Bytes} {name : String} {e : StorageError}
    (h : s.Tidy session.world.fs root) (hname : ObjectName.ofObject name = .ok k.names)
    (hrun : (perform (s.beginSave name)).run session = (.error e, session')) :
    Followed s root k [⟨payload, false, false⟩] session session' := by
  have hruns := Store.beginSave_runs (k := k) h (WriteCall.resolve_of_ofObject hname)
  obtain ⟨hstores, visited, hstates, hvisited, -, herror⟩ := exists_visited hruns hrun
  obtain ⟨hstaged, hcleared⟩ := herror e rfl
  refine ⟨hstores, hstaged.tidy, ?_, by simp,
    fun hstageable => Or.inr (hstageable.vacant hstaged hcleared)⟩
  exact between_of_staged h (Store.Staged.refl h) hstates fun st hst => Or.inl (hvisited st hst)

/-! ## The source of a save -/

/-- What a save with some writes before it leads to: as these do, and nothing is staged. -/
structure Played (s : Store) (root : Position) (k : Key) (log : List WriteRecord) (r : WriteRecord)
    (session session' : Session) : Prop extends
    Followed s root k (log ++ [r]) session session' where
  vacant : session'.world.fs.at? (root ++ k.staging) = none

theorem Played.prepend {r' : WriteRecord} (h : Played s root k log r' session' session'')
    (hstores : session'.stores = session.stores)
    (hbetween : Between root k.names (r.late = false) [] session session')
    (hpayload : r.payload = r'.payload) (hended : r.ended = r'.ended)
    (hlate : r.late = false → r'.late = false) (hnever : r.late = true → r.ended = false) :
    Played s root k log r session session'' where
  stores := h.stores.trans hstores
  tidy := h.tidy
  between := by
    refine (hbetween.trans h.between).mono (fun hnone => ?_) ?_
    · obtain ⟨hlog, hr⟩ := noneLate_append.1 hnone
      have hfalse := hr r (List.mem_singleton_self r)
      refine ⟨hfalse, noneLate_append.2 ⟨hlog, fun r'' hr'' => ?_⟩⟩
      rw [List.mem_singleton.1 hr'']
      exact hlate hfalse
    · rw [List.nil_append, shownBy, shownBy, List.filterMap_append, List.filterMap_append]
      simp only [List.filterMap_cons, hpayload, hended]
      exact List.Subset.refl _
  late := by
    intro r'' hr'' htrue
    rcases List.mem_append.1 hr'' with hlog | hr
    · exact h.late r'' (List.mem_append_left _ hlog) htrue
    · rw [List.mem_singleton.1 hr] at htrue ⊢
      exact hnever htrue
  staging := fun _ => Or.inr h.vacant
  vacant := h.vacant

theorem played_finish {w : Writing} {bytes : Bytes} {name : String} {expected : Nat}
    (h₁ : s.Tidy fs₁ root) (h : s.Live root k fs₁ w bytes session.world.fs)
    (hpayload : r.payload = some bytes) (hlate : r.late = false)
    (hended : r.ended = ((finishSave name expected w).run session).1.isDone) :
    Played s root k [] r session ((finishSave name expected w).run session).2 := by
  have hruns : (Store.endSave name expected w).Runs session.world.fs
      (fun st => s.Staged root k fs₁ st ∨ s.Delivered root k fs₁ r.payload st)
      (fun _ => s.Delivered root k fs₁ r.payload)
      (fun _ st => s.Staged root k fs₁ st ∧ s.Cleared k st) :=
    (h.endSave_runs h₁ name expected).weaken
      (fun _ hst => hst.imp_right fun hpublished => ⟨bytes, hpayload, hpublished⟩)
      (fun _ _ hst => ⟨bytes, hpayload, hst⟩) fun _ _ hst => hst
  have hcleared : ∀ st, s.Staged root k fs₁ st ∧ s.Cleared k st →
      st.at? (root ++ k.staging) = none :=
    fun _ hst => h.stageable_before.vacant hst.1 hst.2
  rcases hrun : (perform (Store.endSave name expected w)).run session with ⟨result, session'⟩
  obtain ⟨answer, hanswer, hdone⟩ := run_answerWith_done hrun
  rw [finishSave, hanswer] at hended ⊢
  refine ⟨followed_of_write h₁ h.toStaged hruns (h.endSave_failsWithin h₁ name expected)
    (fun st hst => ⟨hst.1.tidy, fun _ => Or.inr (hcleared st hst)⟩) hrun (hended.trans hdone) hlate,
    ?_⟩
  obtain ⟨-, visited, -, -, hok, herror⟩ := exists_visited hruns hrun
  cases result with
  | ok a =>
      obtain ⟨bytes', -, hpublished⟩ := hok a rfl
      exact hpublished.vacant
  | error e => exact hcleared _ (herror e rfl)

theorem played_finish_lost {w : Writing} {name : String} {expected : Nat}
    (h : s.Lost root k w session.world.fs)
    (hended : r.ended = ((finishSave name expected w).run session).1.isDone) :
    Played s root k [] r session ((finishSave name expected w).run session).2 ∧
      r.ended = false := by
  rcases hrun : (perform (Store.endSave name expected w)).run session with ⟨result, session'⟩
  obtain ⟨answer, hanswer, hdone⟩ := run_answerWith_done hrun
  obtain ⟨hstores, visited, hstates, hvisited, hok, herror⟩ :=
    exists_visited (h.endSave_runs name expected) hrun
  rw [finishSave, hanswer] at hended ⊢
  cases result with
  | ok a => exact (hok a rfl).elim
  | error e =>
      have hsame := herror e rfl
      have hfalse : r.ended = false := hended.trans hdone
      refine ⟨⟨⟨hstores, ?_, ?_, ?_, fun _ => Or.inl hsame⟩, ?_⟩, hfalse⟩
      · exact hsame ▸ h.tidy
      · exact ⟨visited, hstates, fun _ st hst => (hvisited st hst).elim⟩
      · intro r' hr' _
        rw [List.mem_singleton.1 hr']
        exact hfalse
      · rw [hsame]
        exact h.vacant

/-- A save in progress: its staging file is its own and holds what was received so far, or it is
lost. -/
def UnderWay (s : Store) (root : Position) (k : Key) (source : List SourceItem) (w : Writing)
    (yielded : Option Bytes) (fs : FileSystem) : Prop :=
  (∃ fs₁ bytes, s.Tidy fs₁ root ∧ s.Live root k fs₁ w bytes fs ∧
    yielded = (fun more => bytes ++ more) <$> payload (deliveriesIn source)) ∨
  s.Lost root k w fs

/-- What playing the rest of a source leads to, with the record of the save at the end of the
log. -/
def Plays (s : Store) (root : Position) (k : Key) (source : List SourceItem) (name : String)
    (expected : Nat) (w : Writing) (yielded : Option Bytes) (session : Session) : Prop :=
  let r := recordOf (root ++ k.names) yielded source name expected w session
  Played s root k (logSource root k.names source w session) r session
      ((playSource source name expected w).run session).2 ∧
    (s.Lost root k w session.world.fs → r.ended = false)

variable {source rest : List SourceItem} {name : String} {expected : Nat} {w : Writing}
  {yielded : Option Bytes}

theorem plays_nil (h : UnderWay s root k [] w yielded session.world.fs) :
    Plays s root k [] name expected w yielded session := by
  have hrun := run_playSource_nil name expected w session
  have hended : (recordOf (root ++ k.names) yielded [] name expected w session).ended =
      ((finishSave name expected w).run session).1.isDone := by
    rw [recordOf, hrun]
  rw [Plays, hrun, logSource]
  rcases h with ⟨fs₁, bytes, h₁, hlive, hyielded⟩ | hlost
  · refine ⟨played_finish h₁ hlive ?_ rfl hended, fun hlost => ?_⟩
    · rw [recordOf, hyielded]
      simp [deliveriesIn, payload]
    · exact (played_finish_lost hlost hended).2
  · obtain ⟨hplayed, hfalse⟩ := played_finish_lost hlost hended
    exact ⟨hplayed, fun _ => hfalse⟩

theorem plays_delivery_live {bytes : Bytes} {d : Delivery} (h₁ : s.Tidy fs₁ root)
    (h : s.Live root k fs₁ w bytes session.world.fs)
    (hyielded : yielded = (fun more => bytes ++ more) <$>
      payload (deliveriesIn (.delivery d :: rest)))
    (hrest : ∀ w' session', session'.stores = session.stores →
      UnderWay s root k rest w' yielded session'.world.fs →
        Plays s root k rest name expected w' yielded session') :
    Plays s root k (.delivery d :: rest) name expected w yielded session := by
  have hhits := h.hits_eq_false d
  have hnotLost : ¬ s.Lost root k w session.world.fs := by
    intro hlost
    obtain ⟨id, time, -, hid, -⟩ := h.file
    rw [hlost.vacant] at hid
    cases hid
  refine ⟨?_, fun hlost => absurd hlost hnotLost⟩
  rcases hrun : (perform (w.receive d)).run session with ⟨result, session'⟩
  obtain ⟨hstores, visited, hstates, hvisited, hok, herror⟩ :=
    exists_visited (h.receive_runs h₁ d) hrun
  have hbetween : ∀ condition, Between root k.names condition [] session session' :=
    fun _ => between_of_staged h₁ h.toStaged hstates fun st hst => Or.inl (hvisited st hst)
  rw [run_playSource_delivery, logSource, recordOf, run_playSource_delivery, isLate, hhits, hrun]
  cases result with
  | error e =>
      obtain ⟨-, hstaged, hcleared⟩ := herror e rfl
      have hvacant := h.stageable_before.vacant hstaged hcleared
      refine ⟨⟨hstores, hstaged.tidy, (hbetween _).mono id (List.nil_subset _), ?_,
        fun _ => Or.inr hvacant⟩, hvacant⟩
      intro r hr htrue
      rw [List.nil_append, List.mem_singleton] at hr
      rw [hr] at htrue
      cases htrue
  | ok received =>
      cases received with
      | ended w' =>
          obtain ⟨rfl, hlive⟩ := hok _ rfl
          have hpayload : yielded = some bytes := by
            rw [hyielded]
            simp [deliveriesIn, payload]
          exact (played_finish h₁ hlive hpayload rfl rfl).prepend hstores (hbetween _) rfl rfl
            (fun _ => rfl) fun htrue => by cases htrue
      | more w' =>
          obtain ⟨hd, data, hdata, hlive⟩ := hok _ rfl
          have hyielded' : yielded = (fun more => bytes ++ data ++ more) <$>
              payload (deliveriesIn rest) := by
            rw [hyielded, deliveriesIn, payload_cons hd hdata]
            cases payload (deliveriesIn rest) <;> simp
          obtain ⟨hplayed, -⟩ := hrest w' session' hstores
            (Or.inl ⟨fs₁, bytes ++ data, h₁, hlive, hyielded'⟩)
          exact hplayed.prepend hstores (hbetween _) rfl rfl id
            (hplayed.late _ (List.mem_append_right _ (List.mem_singleton_self _)))

theorem plays_delivery_lost {d : Delivery} (h : s.Lost root k w session.world.fs)
    (hrest : ∀ w' session', session'.stores = session.stores →
      UnderWay s root k rest w' yielded session'.world.fs →
        Plays s root k rest name expected w' yielded session') :
    Plays s root k (.delivery d :: rest) name expected w yielded session := by
  rcases hrun : (perform (w.receive d)).run session with ⟨result, session'⟩
  obtain ⟨hstores, visited, hstates, hvisited, hok, herror⟩ :=
    exists_visited (h.receive_runs d) hrun
  have hbetween : Between root k.names (w.hits session.world.fs (root ++ k.names) d = false) []
      session session' :=
    ⟨visited, hstates, fun hhits st hst => Or.inl (hvisited st hst hhits)⟩
  rw [Plays, run_playSource_delivery, logSource, recordOf, run_playSource_delivery, isLate, hrun]
  cases result with
  | error e =>
      have hsame := herror e rfl
      have hvacant : session'.world.fs.at? (root ++ k.staging) = none := by
        rw [hsame]
        exact h.vacant
      refine ⟨⟨⟨hstores, hsame ▸ h.tidy, ?_, ?_, fun _ => Or.inr hvacant⟩, hvacant⟩, fun _ => rfl⟩
      · refine hbetween.mono (fun hnone => ?_) (List.nil_subset _)
        simpa using hnone _ (List.mem_singleton_self _)
      · intro r hr _
        rw [List.nil_append, List.mem_singleton] at hr
        rw [hr]
        rfl
  | ok received =>
      cases received with
      | ended w' =>
          obtain ⟨hsame, hlost⟩ := hok _ rfl
          obtain ⟨hplayed, hfalse⟩ := played_finish_lost
            (r := ⟨yielded, ((finishSave name expected w').run session').1.isDone,
              w.hits session.world.fs (root ++ k.names) d || false⟩) hlost rfl
          refine ⟨hplayed.prepend hstores (hbetween.mono ?_ (List.Subset.refl _)) rfl rfl id
            fun _ => hfalse, fun _ => hfalse⟩
          simp
      | more w' =>
          obtain ⟨hlost, -⟩ := hok _ rfl
          obtain ⟨hplayed, hfalse⟩ := hrest w' session' hstores (Or.inr hlost)
          refine ⟨hplayed.prepend hstores (hbetween.mono ?_ (List.Subset.refl _)) rfl rfl ?_
            fun _ => hfalse hlost, fun _ => hfalse hlost⟩
          · exact fun hlate => (Bool.or_eq_false_iff.1 hlate).1
          · exact fun hlate => (Bool.or_eq_false_iff.1 hlate).2

theorem plays_steps {steps : List Step}
    (h : UnderWay s root k (.steps steps :: rest) w yielded session.world.fs)
    (hsteps : Followed s root k (logSteps root k.names steps session) session
      ((runSteps steps).run session).2)
    (hrest : ∀ session', session'.stores = session.stores →
      UnderWay s root k rest w yielded session'.world.fs →
        Plays s root k rest name expected w yielded session') :
    Plays s root k (.steps steps :: rest) name expected w yielded session := by
  have hstageable : s.Stageable root k session.world.fs := by
    rcases h with ⟨fs₁, bytes, -, hlive, -⟩ | hlost
    · exact hlive.stageable
    · exact hlost.stageable
  -- What is lost stays lost, and what is live is lost unless the steps changed nothing.
  have hlost : s.Lost root k w session.world.fs →
      s.Lost root k w ((runSteps steps).run session).2.world.fs := by
    intro hlost
    refine ⟨hsteps.tidy, hlost.target, hlost.checkPath, hlost.handle, ?_⟩
    rcases hsteps.staging hstageable with hsame | hvacant
    · rw [hsame]
      exact hlost.vacant
    · exact hvacant
  have hunderWay : UnderWay s root k rest w yielded ((runSteps steps).run session).2.world.fs := by
    rcases h with ⟨fs₁, bytes, h₁, hlive, hyielded⟩ | h
    · rcases hsteps.staging hstageable with hsame | hvacant
      · rw [hsame]
        exact Or.inl ⟨fs₁, bytes, h₁, hlive, hyielded⟩
      · exact Or.inr (hlive.lost hsteps.tidy hvacant)
    · exact Or.inr (hlost h)
  obtain ⟨hplayed, hfalse⟩ := hrest _ hsteps.stores hunderWay
  rw [Plays, run_playSource_steps, logSource, recordOf, run_playSource_steps, isLate]
  refine ⟨⟨?_, hplayed.vacant⟩, fun h' => hfalse (hlost h')⟩
  rw [List.append_assoc]
  exact hsteps.trans hplayed.toFollowed

/-! ## Steps that write one object -/

theorem followed_save {key : String} {opened : OpenStore} (h : s.Tidy session.world.fs root)
    (hopened : session.stores.get? key = some opened) (hstore : opened.store = s)
    (hname : ObjectName.ofObject name = .ok k.names)
    (hsource : ∀ w session', session'.stores = session.stores →
      UnderWay s root k source w (payload (deliveriesIn source)) session'.world.fs →
        Plays s root k source name expected w (payload (deliveriesIn source)) session') :
    Followed s root k (logStep root k.names (.save key name source expected) session) session
      ((runStep (.save key name source expected)).run session).2 := by
  subst hstore
  rcases hrun : (perform (opened.store.beginSave name)).run session with ⟨result, session'⟩
  obtain ⟨hstores, visited, hstates, hvisited, hok, -⟩ := exists_visited
    (Store.beginSave_runs (k := k) h (WriteCall.resolve_of_ofObject hname)) hrun
  rw [run_runStep_save hopened, logStep, hopened]
  dsimp only
  rw [hrun]
  cases result with
  | error e => exact followed_save_error h hname hrun
  | ok w =>
      have hlive := hok w rfl
      have hbegun : Between root k.names True [] session session' :=
        between_of_staged h (Store.Staged.refl h) hstates fun st hst => Or.inl (hvisited st hst)
      obtain ⟨hplayed, -⟩ := hsource w session' hstores
        (Or.inl ⟨_, [], h, hlive, by cases payload (deliveriesIn source) <;> rfl⟩)
      refine ⟨hplayed.stores.trans hstores, hplayed.tidy, ?_, hplayed.late,
        fun _ => Or.inr hplayed.vacant⟩
      exact (hbegun.trans hplayed.between).mono (fun hnone => ⟨trivial, hnone⟩)
        (List.Subset.refl _)

mutual

theorem followed_step : ∀ (step : Step) (session : Session), s.Tidy session.world.fs root →
    step.WritesOnly session.stores s k.names →
      Followed s root k (logStep root k.names step session) session ((runStep step).run session).2
  | .save key name source expected, session, h, hstep => by
      rw [Step.WritesOnly] at hstep
      obtain ⟨⟨opened, hopened, hstore⟩, hname, hsource⟩ := hstep
      refine followed_save h hopened hstore hname fun w session' hstores hunderWay => ?_
      exact plays_source source name expected w _ session' (hstores ▸ hsource) hunderWay
  | .copy key src dst, session, h, hstep => by
      rw [Step.WritesOnly] at hstep
      obtain ⟨⟨opened, hopened, hstore⟩, hname⟩ := hstep
      exact followed_copy h hopened hstore hname
  | .disturb _, _, _, hstep => False.elim hstep
  | .tree _, _, _, hstep => False.elim hstep
  | .openStore _ _, _, _, hstep => False.elim hstep
  | .cloneStore _ _, _, _, hstep => False.elim hstep
  | .kind _, _, _, hstep => False.elim hstep
  | .root _, _, _, hstep => False.elim hstep
  | .resolve _ _, _, _, hstep => False.elim hstep
  | .read _ _, _, _, hstep => False.elim hstep
  | .stat _ _, _, _, hstep => False.elim hstep
  | .list _ _ _, _, _, hstep => False.elim hstep
  | .delete _ _, _, _, hstep => False.elim hstep
  | .purge _ _, _, _, hstep => False.elim hstep
  | .openReader _ _ _, _, _, hstep => False.elim hstep
  | .readMore _ _, _, _, hstep => False.elim hstep
  | .closeReader _, _, _, hstep => False.elim hstep
  | .command _ _ _, _, _, hstep => False.elim hstep

theorem followed_steps : ∀ (steps : List Step) (session : Session), s.Tidy session.world.fs root →
    stepsWriteOnly session.stores s k.names steps →
      Followed s root k (logSteps root k.names steps session) session
        ((runSteps steps).run session).2
  | [], session, h, _ => by
      rw [logSteps, runSteps]
      exact Followed.refl h k
  | step :: rest, session, h, hsteps => by
      rw [stepsWriteOnly] at hsteps
      have hfirst := followed_step step session h hsteps.1
      have hrest := followed_steps rest _ hfirst.tidy (hfirst.stores ▸ hsteps.2)
      rw [logSteps, run_runSteps_cons]
      exact hfirst.trans hrest

theorem plays_source : ∀ (source : List SourceItem) (name : String) (expected : Nat) (w : Writing)
    (yielded : Option Bytes) (session : Session),
    sourceWritesOnly session.stores s k.names source →
      UnderWay s root k source w yielded session.world.fs →
        Plays s root k source name expected w yielded session
  | [], _, _, _, _, _, _, h => plays_nil h
  | .delivery d :: rest, name, expected, w, yielded, session, hsource, h => by
      rw [sourceWritesOnly] at hsource
      have hrest : ∀ w' session', session'.stores = session.stores →
          UnderWay s root k rest w' yielded session'.world.fs →
            Plays s root k rest name expected w' yielded session' :=
        fun w' session' hstores h' =>
          plays_source rest name expected w' yielded session' (hstores ▸ hsource) h'
      rcases h with ⟨fs₁, bytes, h₁, hlive, hyielded⟩ | hlost
      · exact plays_delivery_live h₁ hlive hyielded hrest
      · exact plays_delivery_lost hlost hrest
  | .steps steps :: rest, name, expected, w, yielded, session, hsource, h => by
      rw [sourceWritesOnly] at hsource
      have htidy : s.Tidy session.world.fs root := by
        rcases h with ⟨fs₁, bytes, -, hlive, -⟩ | hlost
        · exact hlive.tidy
        · exact hlost.tidy
      refine plays_steps h (followed_steps steps session htidy hsource.1) ?_
      intro session' hstores h'
      exact plays_source rest name expected w yielded session' (hstores ▸ hsource.2) h'

end

/-- Saves and copies of one object that overlap, as deep as they may be nested: every state
meanwhile shows the old content or the whole payload of a write that has ended well, and no write
that has failed has put a byte into the object, if and only if none was late. -/
theorem overlap_exact (step : Step) (session : Session) (h : s.Tidy session.world.fs root)
    (hstep : step.WritesOnly session.stores s k.names) :
    let log := logStep root k.names step session
    ∃ since, ((runStep step).run session).2.world.states = since ++ session.world.states ∧
      (((∀ st ∈ since,
          st.objectAt? root k.names = session.world.fs.objectAt? root k.names ∨
            ∃ r ∈ log, ∃ bytes, r.ended = true ∧ r.payload = some bytes ∧
              st.objectAt? root k.names = some bytes) ∧
        ∀ r ∈ log, r.ended = false → r.late = false) ↔
      ∀ r ∈ log, r.late = false) := by
  intro log
  have hfollowed := followed_step step session h hstep
  obtain ⟨since, hstates, hall⟩ := hfollowed.between
  refine ⟨since, hstates, ?_, ?_⟩
  · rintro ⟨-, hfailed⟩ r hr
    by_contra hlate
    have htrue : r.late = true := by simpa using hlate
    exact hlate (hfailed r hr (hfollowed.late r hr htrue))
  · intro hnone
    refine ⟨fun st hst => (hall hnone st hst).imp_right ?_, fun r hr _ => hnone r hr⟩
    rintro ⟨bytes, hmem, hbytes⟩
    obtain ⟨r, hr, hended, hpayload⟩ := mem_shownBy.1 hmem
    exact ⟨r, hr, bytes, hended, hpayload, hbytes⟩

/-! ### A save that another one overtakes -/

def overtaken : Session :=
  { Session.ofFileSystem (Store.newDirectory [114]) with
    stores := Table.empty.set "s" ⟨Store.atTop [114], false⟩ }

/-- A save whose source runs another save of its object after a first chunk. -/
def overtaking (rest : List SourceItem) : Step :=
  .save "s" "n" (.delivery (.chunk [1, 1, 1]) ::
    .steps [.save "s" "n" [.delivery (.chunk [2, 2, 2, 2, 2, 2])] 6] :: rest) 3

theorem overtaking_writesOnly {d : List Delivery} :
    (overtaking (d.map .delivery)).WritesOnly overtaken.stores (Store.atTop [114])
      Store.keyN.names := by
  have hopened : ∃ opened, overtaken.stores.get? "s" = some opened ∧
      opened.store = Store.atTop [114] := ⟨_, rfl, rfl⟩
  have hrest : sourceWritesOnly overtaken.stores (Store.atTop [114]) Store.keyN.names
      (d.map .delivery) := by
    induction d with
    | nil => trivial
    | cons d rest ih => exact ih
  exact ⟨hopened, rfl, ⟨⟨hopened, rfl, trivial⟩, trivial⟩, hrest⟩

theorem overlap_exact_overtaken :
    ∃ since, ((runStep (overtaking [])).run overtaken).2.world.states =
        since ++ overtaken.world.states ∧
      ∀ st ∈ since, st.objectAt? [[114]] [[110]] = none ∨
        st.objectAt? [[114]] [[110]] = some [2, 2, 2, 2, 2, 2] := by
  obtain ⟨since, hstates, hexact⟩ := overlap_exact (k := Store.keyN) (overtaking []) overtaken
    (Store.tidy_atTop Store.isEntryName_r) (overtaking_writesOnly (d := []))
  have hlog : logStep [[114]] [[110]] (overtaking []) overtaken =
      [⟨some [2, 2, 2, 2, 2, 2], true, false⟩, ⟨some [1, 1, 1], false, false⟩] := rfl
  refine ⟨since, hstates, fun st hst => ?_⟩
  have hnone : ∀ r ∈ logStep [[114]] [[110]] (overtaking []) overtaken, r.late = false := by
    rw [hlog]
    simp
  rcases (hexact.2 hnone).1 st hst with hsame | ⟨r, hr, bytes, hended, hpayload, hbytes⟩
  · exact Or.inl hsame
  · refine Or.inr ?_
    change r ∈ logStep [[114]] [[110]] (overtaking []) overtaken at hr
    rw [hlog, List.mem_pair] at hr
    rcases hr with rfl | rfl
    · cases hpayload
      exact hbytes
    · cases hended

/-- A save that was overtaken goes on writing into the object, and fails after that. -/
theorem overlap_mixes :
    ¬ ∀ (s : Store) (root : Position) (k : Key) (step : Step) (session : Session),
      s.Tidy session.world.fs root → step.WritesOnly session.stores s k.names →
        let now := ((runStep step).run session).2.world.fs.objectAt? root k.names
        now = session.world.fs.objectAt? root k.names ∨
          ∃ r ∈ logStep root k.names step session, r.ended = true ∧ r.payload = now := by
  intro hall
  have hshown := hall (Store.atTop [114]) [[114]] Store.keyN
    (overtaking [.delivery (.chunk [3, 3])]) overtaken (Store.tidy_atTop Store.isEntryName_r)
    (overtaking_writesOnly (d := [.chunk [3, 3]]))
  have hlog : logStep [[114]] Store.keyN.names (overtaking [.delivery (.chunk [3, 3])]) overtaken =
      [⟨some [2, 2, 2, 2, 2, 2], true, false⟩, ⟨some [1, 1, 1, 3, 3], false, true⟩] := rfl
  have hnow : ((runStep (overtaking [.delivery (.chunk [3, 3])])).run
      overtaken).2.world.fs.objectAt? [[114]] Store.keyN.names = some [2, 2, 2, 3, 3, 2] := rfl
  have hbefore : overtaken.world.fs.objectAt? [[114]] Store.keyN.names = none := rfl
  rw [hlog, hnow, hbefore] at hshown
  simp at hshown

end Depot.Session
