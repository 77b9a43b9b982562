import Depot.Proofs.Session.Calls
import Depot.Proofs.Session.Overlap
import Depot.Proofs.Store.Amid
import Depot.Proofs.Store.Commuting
import Depot.Proofs.Store.Reading
/-!
# Saves whose source runs calls

Between two reads of its source a save can be overtaken by any calls.  If these write other objects,
a save that fails leaves its object as they have left it, and one that ends well has published what
its source delivered, unless a directory had come to stand at its staging path: then this directory
has become what the name of the object names.

* `afterCalls` — the session as the calls of a source have left it;
* `plays_amid` — what a source that runs calls leads to;
* `save_amid_calls` — whole saves;
* `directory_is_published` — a directory in the place of an object.
-/

namespace Depot

open FileSystem

/-- The answer of a write that has ended well, whatever its source ran. -/
def Answer.hasEnded : Answer → Bool
  | during answer _ => answer.isDone
  | answer => answer.isDone

/-- An item of a source that runs nothing but calls, which write only certain objects. -/
def SourceItem.RunsCalls (stores : Table String OpenStore) (s : Store) (writes : Position → Prop) :
    SourceItem → Prop
  | .delivery _ => True
  | .steps run => ∀ step ∈ run, step.IsCall stores s writes fun _ => True

namespace Session

variable {s : Store} {root : Position} {k : Key} {w : Writing} {bytes : Bytes}
  {session session' left : Session} {key name : String} {source : List SourceItem} {expected : Nat}

/-- The session after the last calls that a source runs, and a given one if it runs none. -/
def afterCalls : List SourceItem → Writing → Session → Session → Session
  | [], _, left, _ => left
  | .delivery d :: rest, w, left, session =>
    match (perform (w.receive d)).run session with
    | (.ok (.more w'), session') => afterCalls rest w' left session'
    | _ => left
  | .steps steps :: rest, w, _, session =>
    let session' := ((runSteps steps).run session).2
    afterCalls rest w session' session'

/-- The session after the last calls that the source of a save runs, and the one before the save if
it runs none. -/
def afterCallsOfSave (key name : String) (source : List SourceItem) (session : Session) : Session :=
  match session.stores.get? key with
  | none => session
  | some opened =>
    match (perform (opened.store.beginSave name)).run session with
    | (.error _, _) => session
    | (.ok w, session') => afterCalls source w session session'

/-- What becomes of a save whose source yields certain bytes: it has shown them, or left its object
as it was in a certain session. -/
def Outcome (s : Store) (root : Position) (k : Key) (yielded : Option Bytes) (left : Session)
    (answer : Answer) (session : Session) : Prop :=
  (answer = .done ∧ ∃ bytes, yielded = some bytes ∧
      s.Shown root k bytes left.world.fs session.world.fs) ∨
    (∃ e, answer = .failed e) ∧ SameAt (root ++ k.names) left.world.fs session.world.fs

theorem finish_amid (h : s.Amid root k w bytes left.world.fs session.world.fs) (name : String)
    (expected : Nat) :
    let ended := (finishSave name expected w).run session
    ended.2.stores = session.stores ∧ Outcome s root k (some bytes) left ended.1 ended.2 := by
  rw [finishSave, run_answerWith]
  rcases hrun : (perform (Store.endSave name expected w)).run session with ⟨result, session'⟩
  obtain ⟨hstores, -, -, -, hok, herror⟩ := exists_visited (h.endSave_runs name expected) hrun
  cases result with
  | ok u => exact ⟨hstores, Or.inl ⟨rfl, bytes, rfl, hok u rfl⟩⟩
  | error e => exact ⟨hstores, Or.inr ⟨⟨e, rfl⟩, herror e rfl⟩⟩

/-- A source that runs calls, from a point on at which certain bytes were received. -/
theorem plays_amid (h : s.Amid root k w bytes left.world.fs session.world.fs)
    (hsource : ∀ item ∈ source, item.RunsCalls session.stores s (· ≠ k.names)) (name : String)
    (expected : Nat) :
    let played := (playSource source name expected w).run session
    played.2.stores = session.stores ∧
      Outcome s root k ((fun more => bytes ++ more) <$> payload (deliveriesIn source))
        (afterCalls source w left session) played.1.1 played.2 := by
  -- A delivery moves the write on; steps set the session anew with which it is compared.
  induction source generalizing w bytes left session with
  | nil =>
      rw [run_playSource_nil, deliveriesIn, payload, afterCalls, Option.map_eq_map, Option.map_some,
        List.append_nil]
      exact finish_amid h name expected
  | cons item rest ih =>
      have hrest : ∀ other ∈ rest, other.RunsCalls session.stores s (· ≠ k.names) :=
        fun other hother => hsource other (List.mem_cons_of_mem _ hother)
      cases item with
      | delivery d =>
          rw [run_playSource_delivery, deliveriesIn, afterCalls]
          rcases hrun : (perform (w.receive d)).run session with ⟨result, session'⟩
          obtain ⟨hstores, -, -, -, hok, herror⟩ := exists_visited (h.receive_runs d) hrun
          cases result with
          | error e => exact ⟨hstores, Or.inr ⟨⟨e, rfl⟩, (herror e rfl).2⟩⟩
          | ok received =>
              cases received with
              | ended w' =>
                  obtain ⟨rfl, hamid⟩ := hok _ rfl
                  rw [payload, if_pos rfl, Option.map_eq_map, Option.map_some, List.append_nil]
                  obtain ⟨hstores', houtcome⟩ := finish_amid hamid name expected
                  exact ⟨hstores'.trans hstores, houtcome⟩
              | more w' =>
                  obtain ⟨hd, data, hdata, hamid⟩ := hok _ rfl
                  obtain ⟨hstores', houtcome⟩ := ih hamid (hstores ▸ hrest)
                  have hyielded : (fun more => bytes ++ more) <$> payload (d :: deliveriesIn rest) =
                      (fun more => bytes ++ data ++ more) <$> payload (deliveriesIn rest) := by
                    rw [payload_cons hd hdata]
                    cases payload (deliveriesIn rest) <;> simp
                  rw [hyielded]
                  exact ⟨hstores'.trans hstores, houtcome⟩
      | steps steps =>
          have hcalled : Called s root (· ≠ k.names) (fun _ => True) session
              ((runSteps steps).run session).2 :=
            called_steps (hsource _ List.mem_cons_self) h.grounded
          rw [run_playSource_steps, deliveriesIn, afterCalls]
          obtain ⟨hstores, houtcome⟩ := ih (h.of_kept hcalled.kept) (hcalled.stores ▸ hrest)
          exact ⟨hstores.trans hcalled.stores, houtcome⟩

theorem read_of_view {opened : OpenStore} {mode : Nat} (h : s.Tidy session.world.fs root)
    (hopened : session.stores.get? key = some opened) (hstore : opened.store = s)
    (hname : ObjectName.ofObject name = .ok k.names)
    (hcheck : checkPath (s.pathOf k.names) = .ok ())
    (hview : session.world.fs.view (root ++ k.names) = some (.file bytes mode)) :
    ((runStep (.read key name)).run session).1 = .data bytes := by
  subst hstore
  obtain ⟨id, f, hid, hf, rfl, -⟩ := view_eq_file.1 hview
  have hstat : session.world.fs.stat (opened.store.pathOf k.names) = .ok (.file id) :=
    (h.stat_pathOf k.isName).2 ⟨hcheck, hid⟩
  rw [runStep, run_withStore hopened, run_readObject]
  rcases hrun : (perform (opened.store.openReader name)).run session with ⟨result, session'⟩
  obtain ⟨-, -, -, -, hok, herror⟩ := exists_visited
    (Store.openReader_runs (WriteCall.resolve_of_ofObject hname)) hrun
  cases result with
  | error e => exact absurd hstat ((herror e rfl).2 _)
  | ok reader =>
      obtain ⟨hsame, entry, hentry, rfl⟩ := hok reader rfl
      obtain rfl : entry = .file id := Except.ok.inj (hentry.symm.trans hstat)
      have hrest : session'.world.fs.readFrom (.file id) 0 = .ok f.bytes := by
        rw [readFrom, hsame, hf]
        rfl
      obtain ⟨bytes, hread, -, hall, -⟩ := Reader.read_of_readFrom hrest none
      dsimp only [handleOf]
      rw [hread, hall rfl]

theorem outcome_of_save {opened : OpenStore} (h : s.Tidy session.world.fs root)
    (hopened : session.stores.get? key = some opened) (hstore : opened.store = s)
    (hname : ObjectName.ofObject name = .ok k.names)
    (hsource : ∀ item ∈ source, item.RunsCalls session.stores s (· ≠ k.names)) (expected : Nat) :
    let saved := (runStep (.save key name source expected)).run session
    saved.2.stores = session.stores ∧ ∃ answer steps, saved.1 = withSteps steps answer ∧
      Outcome s root k (payload (deliveriesIn source)) (afterCallsOfSave key name source session)
        answer saved.2 := by
  subst hstore
  rcases hrun : (perform (opened.store.beginSave name)).run session with ⟨result, session'⟩
  obtain ⟨hstores, -, -, -, hok, herror⟩ := exists_visited
    (Store.beginSave_runs (k := k) h (WriteCall.resolve_of_ofObject hname)) hrun
  rw [run_runStep_save hopened, afterCallsOfSave, hopened]
  dsimp only
  rw [hrun]
  cases result with
  | error e =>
      exact ⟨hstores, .failed e, [], rfl, Or.inr ⟨⟨e, rfl⟩, (herror e rfl).1.sameAt h⟩⟩
  | ok w =>
      obtain ⟨hstores', houtcome⟩ :=
        plays_amid ((hok w rfl).amid h) (hstores ▸ hsource) name expected
      have hyielded : (fun more => ([] : Bytes) ++ more) <$> payload (deliveriesIn source) =
          payload (deliveriesIn source) := by
        cases payload (deliveriesIn source) <;> rfl
      rw [hyielded] at houtcome
      exact ⟨hstores'.trans hstores, _, _, rfl, houtcome⟩

/-- A save whose source runs calls that write other objects.  If it ends well, its object holds what
the source has delivered, if and only if no directory was at the staging path after the last of
these calls; if it fails, the object is as these calls have left it. -/
theorem save_amid_calls {opened : OpenStore} (h : s.Tidy session.world.fs root)
    (hopened : session.stores.get? key = some opened) (hstore : opened.store = s)
    (hname : ObjectName.ofObject name = .ok k.names)
    (hsource : ∀ item ∈ source, item.RunsCalls session.stores s (· ≠ k.names)) (expected : Nat) :
    let saved := (runStep (.save key name source expected)).run session
    let left := (afterCallsOfSave key name source session).world.fs
    (saved.1.hasEnded = true → ∃ bytes, payload (deliveriesIn source) = some bytes ∧
        ((saved.2.world.fs.view (root ++ k.names) = some (.file bytes 0o644) ∧
            ((runStep (.read key name)).run saved.2).1 = .data bytes) ↔
          ∀ mode, left.at? (root ++ k.staging) ≠ some (.directory mode))) ∧
      (saved.1.hasEnded = false →
        saved.2.world.fs.view (root ++ k.names) = left.view (root ++ k.names)) := by
  intro saved left
  obtain ⟨hstores, answer, steps, hanswer, houtcome⟩ :=
    outcome_of_save h hopened hstore hname hsource expected
  rw [show saved.1 = withSteps steps answer from hanswer]
  rcases houtcome with ⟨rfl, bytes, hbytes, hshown⟩ | ⟨⟨e, rfl⟩, hsame⟩
  · have hended : (withSteps steps .done).hasEnded = true := by cases steps <;> rfl
    rw [hended]
    refine ⟨fun _ => ⟨bytes, hbytes, ?_⟩, fun hfalse => by cases hfalse⟩
    rcases hshown with ⟨hfree, htidy, hcheck, hview⟩ | ⟨mode, hmode, hdirectory⟩
    · exact ⟨fun _ => hfree, fun _ =>
        ⟨hview, read_of_view htidy (hstores ▸ hopened) hstore hname hcheck hview⟩⟩
    · refine ⟨fun hfile => ?_, fun hfree => absurd hmode (hfree mode)⟩
      obtain ⟨id, f, hid, -⟩ := view_eq_file.1 hfile.1
      rw [hdirectory] at hid
      cases hid
  · have hended : (withSteps steps (.failed e)).hasEnded = false := by cases steps <;> rfl
    rw [hended]
    exact ⟨fun htrue => (by cases htrue), fun _ => hsame.view_eq⟩

/-! ### Saves whose source saves something else -/

/-- A source that yields five bytes and runs calls behind the third. -/
def pausing (calls : List Step) : List SourceItem :=
  [.delivery (.chunk [1, 1, 1]), .steps calls, .delivery (.chunk [3, 3])]

theorem pausing_runsCalls {stores : Table String OpenStore} {writes : Position → Prop}
    {calls : List Step} (h : ∀ step ∈ calls, step.IsCall stores s writes fun _ => True) :
    ∀ item ∈ pausing calls, item.RunsCalls stores s writes := by
  intro item hitem
  simp only [pausing, List.mem_cons, List.not_mem_nil, or_false] at hitem
  rcases hitem with rfl | rfl | rfl
  · trivial
  · exact h
  · trivial

theorem overtaken_store : ∃ opened, overtaken.stores.get? "s" = some opened ∧
    opened.store = Store.atTop [114] := ⟨_, rfl, rfl⟩

theorem isCall_save_beside {other : String} {names : Position} (d : Delivery)
    (hother : ObjectName.ofObject other = .ok names) (hne : names ≠ Store.keyN.names) :
    (Step.save "s" other [.delivery d] 1).IsCall overtaken.stores (Store.atTop [114])
      (· ≠ Store.keyN.names) fun _ => True := by
  refine ⟨overtaken_store, ⟨[d], rfl⟩, fun names' hnames' => ?_⟩
  rw [hother] at hnames'
  cases hnames'
  exact hne

def beside : List SourceItem :=
  pausing [.save "s" "a" [.delivery (.chunk [2])] 1, .delete "s" "a"]

theorem save_amid_calls_beside :
    let saved := (runStep (.save "s" "n" beside 5)).run overtaken
    saved.2.world.fs.view [[114], [110]] = some (.file [1, 1, 1, 3, 3] 0o644) ∧
      ((runStep (.read "s" "n")).run saved.2).1 = .data [1, 1, 1, 3, 3] := by
  have hsource : ∀ item ∈ beside,
      item.RunsCalls overtaken.stores (Store.atTop [114]) (· ≠ Store.keyN.names) := by
    apply pausing_runsCalls
    simp only [List.forall_mem_cons]
    exact ⟨isCall_save_beside _ rfl (by decide), overtaken_store,
      fun _ hmem => absurd hmem List.not_mem_nil⟩
  have hended : ((runStep (.save "s" "n" beside 5)).run overtaken).1.hasEnded = true := by
    decide +kernel
  have hstaging : (afterCallsOfSave "s" "n" beside overtaken).world.fs.at?
      ([[114]] ++ Store.keyN.staging) = some (.file 0) := by
    decide +kernel
  obtain ⟨hexact, -⟩ := save_amid_calls (k := Store.keyN) (Store.tidy_atTop Store.isEntryName_r)
    (show overtaken.stores.get? "s" = some ⟨Store.atTop [114], false⟩ from rfl) rfl
    (show ObjectName.ofObject "n" = .ok Store.keyN.names from rfl) hsource 5
  obtain ⟨bytes, hbytes, hexact⟩ := hexact hended
  obtain rfl : [1, 1, 1, 3, 3] = bytes := Option.some.inj hbytes
  refine hexact.2 fun mode hmode => ?_
  rw [hstaging] at hmode
  cases hmode

/-- A source during which the staging files are purged and a name below one of them is saved. -/
def replacing : List SourceItem :=
  pausing [.purge "s" 0, .save "s" "n.tmp/x" [.delivery (.chunk [2])] 1]

/-- A save that loses its staging file to a purge ends well all the same, when a name below that of
the staging file is saved meanwhile. -/
theorem directory_is_published :
    ¬ ∀ (s : Store) (root : Position) (k : Key) (session : Session) (opened : OpenStore)
      (key name : String) (source : List SourceItem) (expected : Nat),
      s.Tidy session.world.fs root → session.stores.get? key = some opened → opened.store = s →
        ObjectName.ofObject name = .ok k.names →
          (∀ item ∈ source, item.RunsCalls session.stores s (· ≠ k.names)) →
            let saved := (runStep (.save key name source expected)).run session
            saved.1.hasEnded = true → ∃ bytes, payload (deliveriesIn source) = some bytes ∧
              saved.2.world.fs.view (root ++ k.names) = some (.file bytes 0o644) := by
  intro hall
  have hsource : ∀ item ∈ replacing,
      item.RunsCalls overtaken.stores (Store.atTop [114]) (· ≠ Store.keyN.names) := by
    apply pausing_runsCalls
    simp only [List.forall_mem_cons]
    exact ⟨overtaken_store, isCall_save_beside _
      (show ObjectName.ofObject "n.tmp/x" = .ok Store.keyBelowStaging.names from rfl) (by decide),
      fun _ hmem => absurd hmem List.not_mem_nil⟩
  have hended : ((runStep (.save "s" "n" replacing 5)).run overtaken).1.hasEnded = true := by
    decide +kernel
  have hdirectory : ((runStep (.save "s" "n" replacing 5)).run overtaken).2.world.fs.view
      ([[114]] ++ Store.keyN.names) = some (.directory directoryMode) := by
    decide +kernel
  obtain ⟨bytes, -, hview⟩ := hall (Store.atTop [114]) [[114]] Store.keyN overtaken
    ⟨Store.atTop [114], false⟩ "s" "n" replacing 5 (Store.tidy_atTop Store.isEntryName_r) rfl rfl
    rfl hsource hended
  rw [hdirectory] at hview
  cases hview

end Session

end Depot
