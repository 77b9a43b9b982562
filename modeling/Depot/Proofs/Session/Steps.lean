import Depot.Session.Run
import Depot.Proofs.Program
/-!
# Steps of a session

What a step of a script does, written as a function of the session: an operation of a store runs on
the world of the session, and the source of a save is played item by item.

* `exists_visited` — what a specification of an operation says about a session that performs it;
* `run_answerWith` — an operation that is answered for;
* `run_runStep_save`, `run_runStep_copy` — the steps that write;
* `run_playSource_delivery`, `run_playSource_steps` — the items of a source.
-/

namespace Depot

def Answer.isDone : Answer → Bool
  | done => true
  | _ => false

namespace Session

variable {ε α : Type} {session : Session} {opened : OpenStore} {key name : String}

theorem run_perform (op : Op ε α) (session : Session) :
    (perform op).run session =
      ((op.run session.world).1, { session with world := (op.run session.world).2 }) := rfl

theorem exists_visited {op : Op ε α} {passes : FileSystem → Prop} {done : α → FileSystem → Prop}
    {failed : ε → FileSystem → Prop} (h : op.Runs session.world.fs passes done failed)
    {result : Except ε α} {session' : Session}
    (hrun : (perform op).run session = (result, session')) :
    session'.stores = session.stores ∧ ∃ visited,
      session'.world.states = visited ++ session.world.states ∧ (∀ st ∈ visited, passes st) ∧
        (∀ a, result = .ok a → done a session'.world.fs) ∧
        ∀ e, result = .error e → failed e session'.world.fs := by
  rw [run_perform] at hrun
  obtain ⟨visited, hstates, hpasses, -⟩ := h session.world rfl
  cases hrun
  refine ⟨rfl, visited, hstates, hpasses, fun a ha => ?_, fun e he => ?_⟩
  · exact h.of_ok rfl (Prod.ext ha rfl)
  · exact h.of_error rfl (Prod.ext he rfl)

theorem run_answerWith (op : Op StorageError α) (answer : α → Answer) (session : Session) :
    (answerWith op answer).run session =
      match (perform op).run session with
      | (.error e, session') => (.failed e, session')
      | (.ok a, session') => (answer a, session') := by
  rw [answerWith]
  simp only [StateT.run_bind]
  rcases (perform op).run session with ⟨result, session'⟩
  cases result <;> rfl

theorem run_answerWith_done {op : Op StorageError α} {result : Except StorageError α}
    {session' : Session} (hrun : (perform op).run session = (result, session')) :
    ∃ answer, (answerWith op fun _ => .done).run session = (answer, session') ∧
      answer.isDone = result.isOk := by
  rw [run_answerWith, hrun]
  cases result with
  | ok a => exact ⟨_, rfl, rfl⟩
  | error e => exact ⟨_, rfl, rfl⟩

theorem run_runStep_copy {src dst : String} (h : session.stores.get? key = some opened) :
    (runStep (.copy key src dst)).run session =
      (answerWith (opened.store.copy src dst) fun _ => .done).run session := by
  rw [runStep, withStore]
  simp only [StateT.run_bind, StateT.run_get, pure_bind, h]

theorem run_runStep_save {source : List SourceItem} {expected : Nat}
    (h : session.stores.get? key = some opened) :
    (runStep (.save key name source expected)).run session =
      match (perform (opened.store.beginSave name)).run session with
      | (.error e, session') => (.failed e, session')
      | (.ok w, session') =>
        let played := (playSource source name expected w).run session'
        (withSteps played.1.2 played.1.1, played.2) := by
  rw [runStep]
  simp only [StateT.run_bind, StateT.run_get, pure_bind, h]
  rw [run_perform]
  cases ((opened.store.beginSave name).run session.world).1 <;> rfl

theorem run_runSteps_cons (step : Step) (rest : List Step) (session : Session) :
    (runSteps (step :: rest)).run session =
      let stepped := (runStep step).run session
      let ran := (runSteps rest).run stepped.2
      (stepped.1 :: ran.1, ran.2) := by
  rw [runSteps]
  rfl

theorem run_playSource_nil (name : String) (expected : Nat) (w : Writing) (session : Session) :
    (playSource [] name expected w).run session =
      let ended := (finishSave name expected w).run session
      ((ended.1, []), ended.2) := by
  rw [playSource]
  rfl

theorem run_playSource_delivery (d : Delivery) (rest : List SourceItem) (name : String)
    (expected : Nat) (w : Writing) (session : Session) :
    (playSource (.delivery d :: rest) name expected w).run session =
      match (perform (w.receive d)).run session with
      | (.error e, session') => ((.failed e, []), session')
      | (.ok (.ended w'), session') =>
        let ended := (finishSave name expected w').run session'
        ((ended.1, []), ended.2)
      | (.ok (.more w'), session') => (playSource rest name expected w').run session' := by
  rw [playSource]
  simp only [StateT.run_bind]
  rw [run_perform]
  cases ((w.receive d).run session.world).1 with
  | error e => rfl
  | ok received => cases received <;> rfl

theorem run_playSource_steps (steps : List Step) (rest : List SourceItem) (name : String)
    (expected : Nat) (w : Writing) (session : Session) :
    (playSource (.steps steps :: rest) name expected w).run session =
      let ran := (runSteps steps).run session
      let played := (playSource rest name expected w).run ran.2
      ((played.1.1, ran.1 ++ played.1.2), played.2) := by
  rw [playSource]
  rfl

end Session

end Depot
