import Depot.Proofs.Store.Listings
import Depot.Proofs.Store.Reading
import Mathlib.Data.Set.Finite.List
/-!
# A store is a map

Seen through its operations, a store that began empty is a finite map from normal forms to bytes.
Writes and deletions that end well change the map as they should, nothing else changes it, and what
the store answers is what the map says.

* `Request.Effect`, `Request.Answers` — the map's view of a request;
* `Request.runs` — one request;
* `refines_map` — any request after any others.
-/

namespace Depot

open FileSystem

def World.atTime (w : World) (time : Int) : World := { w with fs := { w.fs with clock := time } }

namespace Store

/-- What can be asked of a store. -/
inductive Request
  | write (call : WriteCall)
  | delete (name : String)
  | read (name : String)
  | stat (name : String)
  | list (beginning ending : String)
  | purge (maxAge : Nat)
deriving DecidableEq

inductive Reply
  | done
  | content (bytes : Bytes)
  | info (info : ObjectInfo)
  | listing (infos : List ObjectInfo)
  | purged (report : PurgeReport)
deriving DecidableEq

namespace Request

def perform (s : Store) : Request → Op StorageError Reply
  | write call => (fun _ => .done) <$> call.perform s
  | delete name => (fun _ => .done) <$> s.delete name
  | read name => .content <$> s.readWhole name
  | stat name => .info <$> s.stat name
  | list beginning ending => .listing <$> s.list beginning ending
  | purge maxAge => .purged <$> s.purge maxAge

/-- What becomes of the objects: a write binds its name to its payload, a deletion takes away its
name and all below it, and nothing else does anything. -/
def Effect (objects : Position → Option Bytes) (result : Except StorageError Reply)
    (objects' : Position → Option Bytes) : Request → Prop
  | write call => match result with
    | .ok _ => ∃ names bytes, ObjectName.ofObject call.name = .ok names ∧
        call.payload? objects = some bytes ∧ objects' = Function.update objects names (some bytes)
    | .error _ => objects' = objects
  | delete name => match result with
    | .ok _ => ∃ names, ObjectName.ofObject name = .ok names ∧
        objects' = fun names' => if names <+: names' then none else objects names'
    | .error _ => objects' = objects
  | _ => objects' = objects

def Answers (objects : Position → Option Bytes) (result : Except StorageError Reply) :
    Request → Prop
  | read name => ∀ bytes, result = .ok (.content bytes) ↔ objectNamed objects name = some bytes
  | stat name =>
    (∀ info, result = .ok (.info info) ↔ ∃ bytes, objectNamed objects name = some bytes ∧
      bytes ≠ [] ∧ info = ⟨name, bytes.length⟩) ∧
    ((∃ e, result = .error e ∧ e.isEmptyObject) ↔ objectNamed objects name = some [])
  | list beginning ending => ∀ infos, result = .ok (.listing infos) →
    ∃ base, ObjectName.ofBeginning beginning = .ok base ∧ Store.Lists objects base ending infos
  | _ => True

/-- Where a request gets from a settled store. -/
structure Meets (s : Store) (root : Position) (fs₀ fs : FileSystem) (request : Request)
    (result : Except StorageError Reply) (st : FileSystem) : Prop where
  settled : s.Settled root fs₀ st
  effect : request.Effect (fs.objectAt? root) result (st.objectAt? root)
  answers : request.Answers (fs.objectAt? root) result

def Served (s : Store) (root : Position) (fs₀ fs : FileSystem) (request : Request) : Prop :=
  (request.perform s).Runs fs (fun _ => True)
    (fun reply => Meets s root fs₀ fs request (.ok reply))
    (fun e => Meets s root fs₀ fs request (.error e))

variable {s : Store} {root : Position} {fs₀ fs : FileSystem}

theorem objectNamed_of_ofObject {objects : Position → Option Bytes} {name : String}
    {names : List Bytes} (h : ObjectName.ofObject name = .ok names) :
    objectNamed objects name = objects names := by
  rw [objectNamed, h]
  rfl

theorem objectNamed_of_refused {objects : Position → Option Bytes} {name : String}
    {fault : NameFault} (h : ObjectName.ofObject name = .error fault) :
    objectNamed objects name = none := by
  rw [objectNamed, h]
  rfl

theorem write_runs (h : s.Settled root fs₀ fs) (call : WriteCall) :
    Served s root fs₀ fs (.write call) := by
  apply Op.Runs.map
  cases hname : ObjectName.ofObject call.name with
  | error fault =>
      refine (call.refused_runs _ _ hname).refused ?_
      rintro e st rfl
      exact ⟨h, rfl, trivial⟩
  | ok names =>
      obtain ⟨k, rfl, htext⟩ := ObjectName.ofObject_eq_ok hname
      refine (call.runs h.tidy hname).weaken (fun _ _ => trivial) ?_ ?_
      · rintro _ st ⟨bytes, hbytes, hpublished⟩
        exact ⟨h.of_published hpublished htext,
          ⟨k.names, bytes, hname, hbytes, hpublished.objectAt?_eq h.tidy⟩, trivial⟩
      · rintro e st (⟨rfl, -⟩ | ⟨-, hstaged, hcleared⟩)
        · exact ⟨h, rfl, trivial⟩
        · exact ⟨h.of_staged hstaged hcleared, hstaged.objectAt?_eq h.tidy, trivial⟩

theorem delete_runs (h : s.Settled root fs₀ fs) (name : String) :
    Served s root fs₀ fs (.delete name) := by
  apply Op.Runs.map
  cases hname : ObjectName.ofObject name with
  | error fault =>
      refine (Store.delete_refused_runs (WriteCall.resolve_of_refused hname)).refused ?_
      rintro e st rfl
      exact ⟨h, rfl, trivial⟩
  | ok names =>
      obtain ⟨k, rfl, -⟩ := ObjectName.ofObject_eq_ok hname
      refine (Store.delete_runs h.tidy (WriteCall.resolve_of_ofObject hname)).weaken
        (fun _ _ => trivial) ?_ ?_
      · intro _ st hpruned
        exact ⟨h.of_pruned k.names_ne_nil hpruned, ⟨k.names, hname, hpruned.objectAt?_eq⟩, trivial⟩
      · rintro e st rfl
        exact ⟨h, rfl, trivial⟩

theorem read_runs (h : s.Settled root fs₀ fs) (name : String) :
    Served s root fs₀ fs (.read name) := by
  apply Op.Runs.map
  cases hname : ObjectName.ofObject name with
  | error fault =>
      refine (Store.readWhole_refused_runs (WriteCall.resolve_of_refused hname)).refused ?_
      rintro e st rfl
      refine ⟨h, rfl, fun bytes => ?_⟩
      rw [objectNamed_of_refused hname]
      simp
  | ok names =>
      obtain ⟨k, rfl, -⟩ := ObjectName.ofObject_eq_ok hname
      refine (Store.readWhole_runs h.tidy (WriteCall.resolve_of_ofObject hname)).weaken
        (fun _ _ => trivial) ?_ ?_
      · rintro bytes st ⟨rfl, hobject⟩
        refine ⟨h, rfl, fun bytes' => ?_⟩
        rw [objectNamed_of_ofObject hname, hobject]
        simp
      · rintro e st ⟨rfl, hnone⟩
        refine ⟨h, rfl, fun bytes => ?_⟩
        rw [objectNamed_of_ofObject hname]
        refine ⟨(by simp), fun hobject => ?_⟩
        rw [hnone (h.checkPath_of_objectAt? hobject)] at hobject
        cases hobject

theorem stat_runs (h : s.Settled root fs₀ fs) (name : String) :
    Served s root fs₀ fs (.stat name) := by
  apply Op.Runs.map
  cases hname : ObjectName.ofObject name with
  | error fault =>
      refine (Store.stat_refused_runs (WriteCall.resolve_of_refused hname)).refused ?_
      rintro e st ⟨rfl, rfl⟩
      refine ⟨h, rfl, ?_⟩
      rw [Request.Answers, objectNamed_of_refused hname]
      cases fault <;> simp [NameFault.toError, StorageError.isEmptyObject]
  | ok names =>
      obtain ⟨k, rfl, -⟩ := ObjectName.ofObject_eq_ok hname
      refine (Store.stat_runs h.tidy (WriteCall.resolve_of_ofObject hname)).weaken
        (fun _ _ => trivial) ?_ ?_
      · rintro info st ⟨rfl, bytes, hobject, hne, rfl⟩
        refine ⟨h, rfl, ?_⟩
        rw [Request.Answers, objectNamed_of_ofObject hname, hobject]
        refine ⟨fun info => ⟨?_, ?_⟩, by simp [hne]⟩
        · intro hok
          cases hok
          exact ⟨bytes, rfl, hne, rfl⟩
        · rintro ⟨bytes', hbytes', -, rfl⟩
          cases hbytes'
          rfl
      · rintro e st ⟨rfl, ⟨hempty, hobject⟩ | ⟨hother, hnone⟩⟩
        · refine ⟨h, rfl, ?_⟩
          rw [Request.Answers, objectNamed_of_ofObject hname, hobject]
          simp [hempty]
        · have hnone' : st.objectAt? root k.names = none := by
            by_contra hsome
            obtain ⟨bytes, hbytes⟩ := Option.ne_none_iff_exists'.1 hsome
            exact hsome (hnone (h.checkPath_of_objectAt? hbytes))
          refine ⟨h, rfl, ?_⟩
          rw [Request.Answers, objectNamed_of_ofObject hname, hnone']
          simp [hother]

theorem list_runs (h : s.Settled root fs₀ fs) (beginning ending : String) :
    Served s root fs₀ fs (.list beginning ending) := by
  apply Op.Runs.map
  cases hname : ObjectName.ofBeginning beginning with
  | error fault =>
      refine (Store.list_refused_runs hname ending).refused ?_
      rintro e st rfl
      exact ⟨h, rfl, fun infos hok => by cases hok⟩
  | ok base =>
      refine (h.list_runs hname ending).weaken (fun _ _ => trivial) ?_ ?_
      · rintro infos st ⟨rfl, hlists⟩
        refine ⟨h, rfl, fun infos' hok => ?_⟩
        cases hok
        exact ⟨base, hname, hlists⟩
      · rintro e st rfl
        exact ⟨h, rfl, fun infos hok => by cases hok⟩

theorem purge_runs (h : s.Settled root fs₀ fs) (maxAge : Nat) :
    Served s root fs₀ fs (.purge maxAge) := by
  have hstale : s.stalePaths fs root maxAge = [] := by
    rw [List.eq_nil_iff_forall_not_mem]
    rintro ⟨path, pos⟩ hmem
    obtain ⟨names, id, -, -, htargets⟩ := Store.mem_stalePaths.1 hmem
    have hobject := h.isObject htargets.bound
    rw [htargets.isObjectPosition_eq] at hobject
    cases hobject
  have hsame : Meets s root fs₀ fs (.purge maxAge) (.ok (.purged ⟨0, 0⟩)) fs :=
    ⟨h, rfl, trivial⟩
  obtain ⟨mode, htraverse⟩ := h.tidy.traverse_root
  have hruns := Store.purge_of_traverse htraverse maxAge
  rw [Store.stale_eq_stalePaths rfl, hstale] at hruns
  apply Op.Runs.map
  refine hruns.weaken (fun _ _ => trivial) ?_ fun _ _ h => h.elim
  rintro report fs' ⟨rfl, rfl⟩
  exact hsame

theorem runs (h : s.Settled root fs₀ fs) (request : Request) : Served s root fs₀ fs request := by
  cases request with
  | write call => exact write_runs h call
  | delete name => exact delete_runs h name
  | read name => exact read_runs h name
  | stat name => exact stat_runs h name
  | list beginning ending => exact list_runs h beginning ending
  | purge maxAge => exact purge_runs h maxAge

theorem meets (h : s.Settled root fs₀ fs) (request : Request) {w : World} (hw : w.fs = fs) :
    Meets s root fs₀ fs request ((request.perform s).run w).1 ((request.perform s).run w).2.fs := by
  have hruns := runs h request
  rcases hrun : (request.perform s).run w with ⟨result, w'⟩
  cases result with
  | ok reply => exact hruns.of_ok hw hrun
  | error e => exact hruns.of_error hw hrun

end Request

/-! ## Any requests after each other -/

variable {s : Store} {root : Position} {fs₀ fs : FileSystem}

/-- The world after a store has served requests, each at its time. -/
def serve (s : Store) (w : World) : List (Int × Request) → World
  | [] => w
  | (time, request) :: rest => s.serve ((request.perform s).run (w.atTime time)).2 rest

theorem settled_serve {w : World} (h : s.Settled root fs₀ w.fs) (requests : List (Int × Request)) :
    s.Settled root fs₀ (s.serve w requests).fs := by
  induction requests generalizing w with
  | nil => exact h
  | cons first rest ih =>
      obtain ⟨time, request⟩ := first
      exact ih (Request.meets (h.atTime time) request rfl).settled

theorem IsNew.objectAt?_eq_none (h : s.IsNew root fs) (names : Position) :
    fs.objectAt? root names = none := by
  by_contra hsome
  obtain ⟨bytes, hbytes⟩ := Option.ne_none_iff_exists'.1 hsome
  obtain ⟨hobject, id, f, hid, -⟩ := objectAt?_eq_some_iff.1 hbytes
  have hne : names ≠ [] := by
    rintro rfl
    cases hobject
  rw [h.empty names hne] at hid
  cases hid

theorem finite_objects (fs : FileSystem) (root : Position) :
    {names | fs.objectAt? root names ≠ none}.Finite := by
  refine (List.finite_toSet (fs.entries.keys.map fun pos => pos.drop root.length)).subset ?_
  intro names hnames
  obtain ⟨bytes, hbytes⟩ := Option.ne_none_iff_exists'.1 hnames
  obtain ⟨hobject, id, f, hid, -⟩ := objectAt?_eq_some_iff.1 hbytes
  have hne : names ≠ [] := by
    rintro rfl
    cases hobject
  rw [at?, if_neg (by simp [hne])] at hid
  refine List.mem_map.2 ⟨root ++ names, ?_, List.drop_left⟩
  exact List.mem_map.2 ⟨_, Table.mem_pairs.2 hid, rfl⟩

/-- A store that began empty is a finite map: whatever requests it has served, the next one does to
its objects what it does to a map, and its reply is what the map says. -/
theorem refines_map {w : World} (h : s.IsNew root w.fs) (requests : List (Int × Request))
    (time : Int) (request : Request) :
    let before := (s.serve w requests).atTime time
    let after := (request.perform s).run before
    (∀ names, w.fs.objectAt? root names = none) ∧
      {names | before.fs.objectAt? root names ≠ none}.Finite ∧
      request.Effect (before.fs.objectAt? root) after.1 (after.2.fs.objectAt? root) ∧
      request.Answers (before.fs.objectAt? root) after.1 := by
  intro before after
  have hsettled : s.Settled root w.fs before.fs := (settled_serve h.settled requests).atTime time
  have hmeets := Request.meets hsettled request rfl
  exact ⟨h.objectAt?_eq_none, finite_objects before.fs root, hmeets.effect, hmeets.answers⟩

theorem refines_map_saved :
    objectNamed (((atTop [114]).serve (.ofFileSystem (newDirectory [114]))
      [(0, .write (.save "a/./n" [.chunk [1], .chunk [2]] 2))]).fs.objectAt? [[114]]) "a/n" =
        some [1, 2] := by
  have hnew : (atTop [114]).IsNew [[114]] (newDirectory [114]) := by
    have htidy := tidy_atTop isEntryName_r
    refine ⟨htidy.wellFormed, htidy.leadsTo, fun names hne => ?_⟩
    rw [at?_newDirectory, if_neg (by simp [hne]), if_neg (by simp)]
  have hanswers := (refines_map (w := .ofFileSystem (newDirectory [114])) hnew
    [(0, .write (.save "a/./n" [.chunk [1], .chunk [2]] 2))] 0 (.read "a/n")).2.2.2
  exact (hanswers [1, 2]).1 rfl

end Store

end Depot
