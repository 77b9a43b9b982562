import Depot.Proofs.Session.Steps
import Depot.Proofs.Store.Keeping
/-!
# Calls of a store

A call is a step that runs one operation of a store from its beginning to its end.  Whatever it
answers, the session keeps its stores and the readers that are not named by the call, and the store
keeps what the operation leaves alone.

* `Step.IsCall` — the steps that are calls;
* `run_runStep_save_deliveries` — a save whose source runs no steps is one operation;
* `called_step`, `called_steps` — one call, and calls after each other.
-/

namespace Depot

open FileSystem

section

variable (stores : Table String OpenStore) (s : Store) (writes : Position → Prop)
  (takes : String → Prop)

/-- A step that runs one operation of a store, or lets time pass.  It writes only certain objects
and works only with certain readers. -/
def Step.IsCall : Step → Prop
  | .save key name source _ => (∃ opened, stores.get? key = some opened ∧ opened.store = s) ∧
      (∃ deliveries : List Delivery, source = deliveries.map .delivery) ∧
        ∀ names, ObjectName.ofObject name = .ok names → writes names
  | .copy key _ dst => (∃ opened, stores.get? key = some opened ∧ opened.store = s) ∧
      ∀ names, ObjectName.ofObject dst = .ok names → writes names
  | .kind key | .root key | .resolve key _ | .read key _ | .stat key _ | .list key _ _
  | .delete key _ | .purge key _ => ∃ opened, stores.get? key = some opened ∧ opened.store = s
  | .openReader key _ reader =>
      (∃ opened, stores.get? key = some opened ∧ opened.store = s) ∧ takes reader
  | .readMore reader _ | .closeReader reader => takes reader
  | .disturb (.setClock _) => True
  | _ => False

end

namespace Session

variable {s : Store} {root : Position} {writes : Position → Prop} {takes : String → Prop}
  {session session' session'' : Session} {opened : OpenStore} {key name : String}

/-- What calls leave of a session. -/
structure Called (s : Store) (root : Position) (writes : Position → Prop) (takes : String → Prop)
    (session session' : Session) : Prop where
  stores : session'.stores = session.stores
  kept : s.Kept root writes session.world.fs session'.world.fs
  readers : ∀ key, ¬ takes key → session'.readers.get? key = session.readers.get? key

namespace Called

theorem refl (h : s.Grounded root session.world.fs) :
    Called s root writes takes session session :=
  ⟨rfl, Store.Kept.refl h, fun _ _ => rfl⟩

theorem trans (h : Called s root writes takes session session')
    (h' : Called s root writes takes session' session'') :
    Called s root writes takes session session'' :=
  ⟨h'.stores.trans h.stores, h.kept.trans h'.kept,
    fun key hkey => (h'.readers key hkey).trans (h.readers key hkey)⟩

end Called

/-! ## What a call runs -/

theorem run_withStore {f : OpenStore → StateM Session Answer}
    (h : session.stores.get? key = some opened) :
    (withStore key f).run session = (f opened).run session := by
  rw [withStore]
  simp only [StateT.run_bind, StateT.run_get, pure_bind, h]

theorem run_playSource_deliveries (deliveries : List Delivery) (name : String) (expected : Nat)
    (w : Writing) (session : Session) :
    (playSource (deliveries.map .delivery) name expected w).run session =
      let ended := (answerWith (do
        let w ← w.receiveAll deliveries
        Store.endSave name expected w) fun _ => .done).run session
      ((ended.1, []), ended.2) := by
  induction deliveries generalizing w session with
  | nil => exact run_playSource_nil name expected w session
  | cons d rest ih =>
      rw [List.map_cons, run_playSource_delivery, run_perform]
      have hop : (do
          let w ← w.receiveAll (d :: rest)
          Store.endSave name expected w : Op StorageError Unit).run session.world =
          match (w.receive d).run session.world with
          | (.error e, world) => (.error e, world)
          | (.ok (.ended w'), world) => (Store.endSave name expected w').run world
          | (.ok (.more w'), world) => (do
              let w ← w'.receiveAll rest
              Store.endSave name expected w : Op StorageError Unit).run world := by
        rw [Writing.receiveAll, bind_assoc, Op.run_bind]
        rcases (w.receive d).run session.world with ⟨result, world⟩
        cases result with
        | error e => rfl
        | ok received => cases received <;> rfl
      rw [answerWith]
      simp only [StateT.run_bind, run_perform, hop]
      rcases (w.receive d).run session.world with ⟨result, world⟩
      cases result with
      | error e => rfl
      | ok received =>
          cases received with
          | ended w' => rfl
          | more w' => exact ih w' { session with world := world }

theorem run_runStep_save_deliveries {deliveries : List Delivery} {expected : Nat}
    (h : session.stores.get? key = some opened) :
    (runStep (.save key name (deliveries.map .delivery) expected)).run session =
      (answerWith (opened.store.save name deliveries expected) fun _ => .done).run session := by
  rw [run_runStep_save h, run_perform, answerWith]
  simp only [StateT.run_bind, run_perform]
  rw [Store.save, Store.saveFrom, Op.run_bind]
  rcases (opened.store.beginSave name).run session.world with ⟨result, world⟩
  cases result with
  | error e => rfl
  | ok w =>
      dsimp only
      rw [run_playSource_deliveries]
      rfl

/-! ## What calls leave -/

theorem called_perform {ε α : Type} {op : Op ε α} (hop : s.Keeps root writes op)
    (h : s.Grounded root session.world.fs) :
    Called s root writes takes session ((perform op).run session).2 := by
  rcases hrun : (perform op).run session with ⟨result, session'⟩
  obtain ⟨hstores, visited, -, -, hok, herror⟩ := exists_visited (hop _ h) hrun
  have hreaders : session'.readers = session.readers := by
    rw [run_perform] at hrun
    cases hrun
    rfl
  refine ⟨hstores, ?_, fun _ _ => by rw [hreaders]⟩
  cases result with
  | ok a => exact hok a rfl
  | error e => exact herror e rfl

theorem called_answerWith {α : Type} {op : Op StorageError α} (hop : s.Keeps root writes op)
    (h : s.Grounded root session.world.fs) (answer : α → Answer) :
    Called s root writes takes session ((answerWith op answer).run session).2 := by
  have hcalled : Called s root writes takes session ((perform op).run session).2 :=
    called_perform hop h
  rw [run_answerWith]
  rcases hrun : (perform op).run session with ⟨result, session'⟩
  rw [hrun] at hcalled
  cases result <;> exact hcalled

theorem called_withFiles {f : Store → StateM Session Answer}
    (hopened : session.stores.get? key = some opened) (h : s.Grounded root session.world.fs)
    (hf : Called s root writes takes session ((f opened.store).run session).2) :
    Called s root writes takes session ((withFiles key f).run session).2 := by
  rw [withFiles, run_withStore hopened]
  split
  · exact Called.refl h
  · exact hf

theorem run_readObject (s : Store) (name : String) (session : Session) :
    (readObject s name).run session =
      match (perform (s.openReader name)).run session with
      | (.error e, session') => (.failed e, session')
      | (.ok reader, session') =>
        match reader.read none session'.world.fs with
        | .ok (bytes, _) => (.data bytes, session')
        | .error e => (.readFailed e, session') := by
  rw [readObject]
  simp only [StateT.run_bind]
  rw [run_perform]
  rcases (s.openReader name).run session.world with ⟨result, world⟩
  cases result with
  | error e => rfl
  | ok reader =>
      change StateT.run (match reader.read none world.fs with
        | .ok (bytes, _) => (return .data bytes : StateM Session Answer)
        | .error e => return .readFailed e) { session with world := world } = _
      dsimp only
      cases reader.read none world.fs <;> rfl

theorem run_openReader (s : Store) (name reader : String) (session : Session) :
    (openReader s name reader).run session =
      match (perform (s.openReader name)).run session with
      | (.error e, session') => (.failed e, session')
      | (.ok found, session') =>
        (.done, { session' with readers := session'.readers.set reader found }) := by
  rw [openReader]
  simp only [StateT.run_bind]
  rw [run_perform]
  cases ((s.openReader name).run session.world).1 <;> rfl

theorem called_readObject (h : s.Grounded root session.world.fs) (name : String) :
    Called s root writes takes session ((readObject s name).run session).2 := by
  have hcalled : Called s root writes takes session
      ((perform (s.openReader name)).run session).2 :=
    called_perform (Store.openReader_still s name).keeps h
  rw [run_readObject]
  rcases hrun : (perform (s.openReader name)).run session with ⟨result, session'⟩
  rw [hrun] at hcalled
  cases result with
  | error e => exact hcalled
  | ok reader =>
      dsimp only
      split
      · exact hcalled
      · exact hcalled

theorem called_openReader (h : s.Grounded root session.world.fs) (name : String)
    {reader : String} (htakes : takes reader) :
    Called s root writes takes session ((openReader s name reader).run session).2 := by
  have hcalled : Called s root writes takes session
      ((perform (s.openReader name)).run session).2 :=
    called_perform (Store.openReader_still s name).keeps h
  rw [run_openReader]
  rcases hrun : (perform (s.openReader name)).run session with ⟨result, session'⟩
  rw [hrun] at hcalled
  cases result with
  | error e => exact hcalled
  | ok found =>
      refine ⟨hcalled.stores, hcalled.kept, fun key hkey => ?_⟩
      have hne : key ≠ reader := fun heq => hkey (heq ▸ htakes)
      exact (Table.get?_set_of_ne _ hne).trans (hcalled.readers key hkey)

theorem run_readMore {reader : Reader} (h : session.readers.get? key = some reader)
    (limit : Option Nat) :
    (readMore key limit).run session =
      match reader.read limit session.world.fs with
      | .ok (bytes, reader') =>
        (.data bytes, { session with readers := session.readers.set key reader' })
      | .error e => (.readFailed e, session) := by
  rw [readMore]
  simp only [StateT.run_bind, StateT.run_get, pure_bind, h]
  cases reader.read limit session.world.fs <;> rfl

theorem called_readMore (h : s.Grounded root session.world.fs) {reader : String}
    (htakes : takes reader) (limit : Option Nat) :
    Called s root writes takes session ((readMore reader limit).run session).2 := by
  rw [readMore]
  simp only [StateT.run_bind, StateT.run_get, pure_bind]
  split
  · exact Called.refl h
  · split
    · refine ⟨rfl, Store.Kept.refl h, fun key hkey => ?_⟩
      have hne : key ≠ reader := fun heq => hkey (heq ▸ htakes)
      exact Table.get?_set_of_ne _ hne
    · exact Called.refl h

theorem called_closeReader (h : s.Grounded root session.world.fs) {reader : String}
    (htakes : takes reader) :
    Called s root writes takes session ((closeReader reader).run session).2 := by
  refine ⟨rfl, Store.Kept.refl h, fun key hkey => ?_⟩
  have hne : key ≠ reader := fun heq => hkey (heq ▸ htakes)
  exact Table.get?_remove_of_ne hne

theorem called_setClock (h : s.Grounded root session.world.fs) (time : Int) :
    Called s root writes takes session
      ((runStep (.disturb (.setClock time))).run session).2 :=
  ⟨rfl, Store.Kept.atTime h time, fun _ _ => rfl⟩

theorem called_step {step : Step} (hstep : step.IsCall session.stores s writes takes)
    (h : s.Grounded root session.world.fs) :
    Called s root writes takes session ((runStep step).run session).2 := by
  cases step with
  | save key name source expected =>
      obtain ⟨⟨opened, hopened, rfl⟩, ⟨deliveries, rfl⟩, hwrites⟩ := hstep
      rw [run_runStep_save_deliveries hopened]
      exact called_answerWith (Store.save_keeps _ root hwrites deliveries expected) h _
  | copy key src dst =>
      obtain ⟨⟨opened, hopened, rfl⟩, hwrites⟩ := hstep
      rw [run_runStep_copy hopened]
      exact called_answerWith (Store.copy_keeps _ root src hwrites) h _
  | delete key name =>
      obtain ⟨opened, hopened, rfl⟩ := hstep
      rw [runStep, run_withStore hopened]
      exact called_answerWith (Store.delete_keeps _ root writes name) h _
  | stat key name =>
      obtain ⟨opened, hopened, rfl⟩ := hstep
      rw [runStep, run_withStore hopened]
      exact called_answerWith (Store.stat_still _ name).keeps h _
  | list key beginning ending =>
      obtain ⟨opened, hopened, rfl⟩ := hstep
      rw [runStep, run_withStore hopened]
      exact called_answerWith (Store.list_still _ beginning ending).keeps h _
  | purge key maxAge =>
      obtain ⟨opened, hopened, rfl⟩ := hstep
      rw [runStep]
      exact called_withFiles hopened h
        (called_answerWith (Store.purge_keeps _ root writes maxAge) h _)
  | read key name =>
      obtain ⟨opened, hopened, rfl⟩ := hstep
      rw [runStep, run_withStore hopened]
      exact called_readObject h name
  | openReader key name reader =>
      obtain ⟨⟨opened, hopened, rfl⟩, htakes⟩ := hstep
      rw [runStep, run_withStore hopened]
      exact called_openReader h name htakes
  | readMore reader limit =>
      rw [runStep]
      exact called_readMore h hstep limit
  | closeReader reader =>
      rw [runStep]
      exact called_closeReader h hstep
  | kind key =>
      obtain ⟨opened, hopened, rfl⟩ := hstep
      rw [runStep, run_withStore hopened]
      exact Called.refl h
  | root key =>
      obtain ⟨opened, hopened, rfl⟩ := hstep
      rw [runStep]
      exact called_withFiles hopened h (Called.refl h)
  | resolve key name =>
      obtain ⟨opened, hopened, rfl⟩ := hstep
      rw [runStep]
      refine called_withFiles hopened h ?_
      split
      · exact Called.refl h
      · exact Called.refl h
  | disturb change =>
      cases change with
      | setClock time => exact called_setClock h time
      | _ => exact hstep.elim
  | tree path => exact hstep.elim
  | openStore key how => exact hstep.elim
  | cloneStore key other => exact hstep.elim
  | command args environment input => exact hstep.elim

theorem called_steps {steps : List Step}
    (hsteps : ∀ step ∈ steps, step.IsCall session.stores s writes takes)
    (h : s.Grounded root session.world.fs) :
    Called s root writes takes session ((runSteps steps).run session).2 := by
  induction steps generalizing session with
  | nil =>
      rw [runSteps]
      exact Called.refl h
  | cons step rest ih =>
      have hfirst := called_step (hsteps step List.mem_cons_self) h
      rw [run_runSteps_cons]
      refine hfirst.trans (ih (fun other hother => ?_) hfirst.kept.grounded)
      rw [hfirst.stores]
      exact hsteps other (List.mem_cons_of_mem _ hother)

end Session

end Depot
