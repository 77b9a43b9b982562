import Depot.Proofs.FileSystem.Located
import Depot.Proofs.Store.Commuting
import Depot.Proofs.Store.NameGrammar
/-!
# Operations on what the system does not find

Every operation on an object asks the system for its path first, each in its own way: opening and
measuring follow a last link, deleting and listing do not.  If the path leads nowhere, they all get
the same answer and change nothing.  If it leads to a directory, measuring says that there is no
object, while opening takes the directory for one.

* `unfound_of_linkStat` — what every operation makes of a failed lookup;
* `copy_directory_fails` — a directory cannot be copied;
* `opened_iff_measured` — where opening, copying and measuring agree.
-/

namespace Depot

open FileSystem

/-! ## Operations that never end well -/

def Op.AlwaysFails {ε α : Type} (op : Op ε α) : Prop := ∀ w, ∃ e w', op.run w = (.error e, w')

namespace Op.AlwaysFails

variable {ε α β : Type}

theorem bind {op : Op ε α} (h : op.AlwaysFails) (next : α → Op ε β) :
    (op >>= next).AlwaysFails := by
  intro w
  obtain ⟨e, w', hrun⟩ := h w
  exact ⟨e, w', by rw [run_bind, hrun]⟩

theorem bind_next {op : Op ε α} {next : α → Op ε β} (h : ∀ a, (next a).AlwaysFails) :
    (op >>= next).AlwaysFails := by
  intro w
  rw [run_bind]
  rcases op.run w with ⟨result, w'⟩
  cases result with
  | error e => exact ⟨e, w', rfl⟩
  | ok a => exact h a w'

theorem throw (e : ε) : (throw e : Op ε α).AlwaysFails := fun w => ⟨e, w, rfl⟩

theorem discarding {target : Pathname} {op : Op StorageError α} (h : op.AlwaysFails) :
    (discarding target op).AlwaysFails := by
  intro w
  obtain ⟨e, w', hrun⟩ := h w
  have hattempt : (Op.attempt op : Op StorageError _).run w = (.ok (.error e), w') := by
    change (Except.ok (op.run w).1, (op.run w).2) = _
    rw [hrun]
  have hrest : (discard (stagingPath target) >>= fun _ =>
      (MonadExcept.throw e : Op StorageError α)).AlwaysFails :=
    bind_next fun _ => throw e
  obtain ⟨e', w'', hrun'⟩ := hrest w'
  refine ⟨e', w'', ?_⟩
  rw [Depot.discarding, run_bind, hattempt]
  exact hrun'

end Op.AlwaysFails

/-! ## Failed lookups -/

namespace FileSystem

theorem locateEntry_of_unfollowed {fs : FileSystem} {p : Pathname} {e : IoError}
    (h : fs.locateEntry false p = .error e) : fs.locateEntry true p = .error e := by
  rcases fs.locateEntry_unfollowed p with hsame | ⟨pos, target, hlink⟩
  · rwa [hsame] at h
  · rw [hlink] at h
    cases h

theorem linkStat_eq_error {fs : FileSystem} {p : Pathname} {e : IoError} :
    fs.linkStat p = .error e ↔ fs.locateEntry false p = .error e := by
  rw [linkStat]
  cases fs.locateEntry false p with
  | error e' =>
      have hmap : (Prod.snd <$> (.error e' : Except IoError (Position × Entry))) = .error e' := rfl
      rw [hmap, Except.error.injEq, Except.error.injEq]
  | ok found =>
      constructor
      · intro h
        cases h
      · intro h
        cases h

theorem stat_of_linkStat_error {fs : FileSystem} {p : Pathname} {e : IoError}
    (h : fs.linkStat p = .error e) : fs.stat p = .error e := by
  rw [stat, locateEntry_of_unfollowed (linkStat_eq_error.1 h)]
  rfl

end FileSystem

/-- What a part of the store fails with when the system does not find the path of an object. -/
def StorageError.ofLookup (path : Pathname) (part doing : String) (e : IoError) : StorageError :=
  if e.kind = .notFound then .notFound path.display (some part) else .during doing e

theorem StorageError.isNotFound_ofLookup {path : Pathname} {part doing : String} {e : IoError} :
    (StorageError.ofLookup path part doing e).isNotFound = true ↔ e.kind = .notFound := by
  rw [ofLookup]
  split
  · rename_i hkind
    exact ⟨fun _ => hkind, fun _ => rfl⟩
  · rename_i hkind
    exact ⟨fun h => (by cases h), fun h => absurd h hkind⟩

namespace Store

variable {s : Store} {name dst : String} {path target : Pathname} {e : IoError} {entry : Entry}
  {w : World}

theorem openObject_error (h : w.fs.stat path = .error e) (doing : String) :
    (openObject path doing).run w =
      (.error (.ofLookup path doing s!"open file '{path.display}'" e), w) := by
  rw [openObject, Op.run_mapError, Op.run_query, openRead, h]
  rfl

theorem openObject_ok (h : w.fs.stat path = .ok entry) (doing : String) :
    (openObject path doing).run w = (.ok (handleOf entry), w) := by
  rw [openObject, Op.run_mapError, Op.run_query, openRead, h]
  rfl

theorem stat_error (hname : s.resolve name = .ok path) (h : w.fs.stat path = .error e) :
    (s.stat name).run w =
      (.error (.ofLookup path "stat" s!"stat {path.display}" e), w) := by
  rw [Store.stat, hname, Op.run_lift_ok, Op.run_get, h, StorageError.ofLookup]
  dsimp only
  split
  · rfl
  · rfl

theorem openReader_error (hname : s.resolve name = .ok path) (h : w.fs.stat path = .error e) :
    (s.openReader name).run w =
      (.error (.ofLookup path "open reader" s!"open file '{path.display}'" e), w) := by
  rw [openReader, hname, Op.run_lift_ok, Op.run_bind, openObject_error h]

theorem copy_error (hname : s.resolve name = .ok path) (hdst : s.resolve dst = .ok target)
    (h : w.fs.stat path = .error e) :
    (s.copy name dst).run w =
      (.error (.ofLookup path "open src" s!"open file '{path.display}'" e), w) := by
  rw [copy, hname, Op.run_lift_ok, hdst, Op.run_lift_ok, Op.run_bind, openObject_error h]

theorem delete_error (hname : s.resolve name = .ok path) (h : w.fs.linkStat path = .error e) :
    (s.delete name).run w =
      (.error (.ofLookup path "delete" s!"stat {path.display}" e), w) := by
  rw [Store.delete, hname, Op.run_lift_ok, Op.run_bind, Op.run_mapError, Op.run_query, h]
  rfl

theorem list_error (hname : s.resolveBeginning name = .ok path)
    (h : w.fs.linkStat path = .error e) (ending : String) :
    (s.list name ending).run w =
      (if e.kind = .notFound then .ok []
        else .error (.during s!"walking the path {path.display}" (.atPath path.display e)), w) := by
  have htraverse : w.fs.traverse path = .error e := by
    rw [FileSystem.traverse, linkStat_eq_error.1 h]
    rfl
  rw [list, hname, Op.run_lift_ok, Op.run_get, htraverse]
  dsimp only
  split
  · rfl
  · rfl

/-- The system does not find the path of a name: every operation on the name says so in its own
words, and changes nothing. -/
structure Unfound (s : Store) (name : String) (path : Pathname) (e : IoError) (w : World) :
    Prop where
  stat : (s.stat name).run w = (.error (.ofLookup path "stat" s!"stat {path.display}" e), w)
  openReader : (s.openReader name).run w =
    (.error (.ofLookup path "open reader" s!"open file '{path.display}'" e), w)
  delete : (s.delete name).run w =
    (.error (.ofLookup path "delete" s!"stat {path.display}" e), w)
  copy : ∀ dst target, s.resolve dst = .ok target → (s.copy name dst).run w =
    (.error (.ofLookup path "open src" s!"open file '{path.display}'" e), w)
  list : ∀ ending, (s.list name ending).run w =
    (if e.kind = .notFound then .ok []
      else .error (.during s!"walking the path {path.display}" (.atPath path.display e)), w)

theorem unfound_of_linkStat (hname : s.resolve name = .ok path)
    (h : w.fs.linkStat path = .error e) : s.Unfound name path e w where
  stat := stat_error hname (stat_of_linkStat_error h)
  openReader := openReader_error hname (stat_of_linkStat_error h)
  delete := delete_error hname h
  copy := fun _ _ hdst => copy_error hname hdst (stat_of_linkStat_error h)
  list := list_error (resolveBeginning_of_resolve hname) h

/-! ## What is found to be a directory -/

theorem openReader_ok (hname : s.resolve name = .ok path) (h : w.fs.stat path = .ok entry) :
    (s.openReader name).run w = (.ok ⟨handleOf entry, 0⟩, w) := by
  rw [openReader, hname, Op.run_lift_ok, Op.run_bind, openObject_ok h]
  rfl

theorem stat_ok (hname : s.resolve name = .ok path) (h : w.fs.stat path = .ok entry) :
    (s.stat name).run w =
      (if entry.isDirectory then .error (.notFound path.display (some "stat"))
        else if w.fs.sizeOf entry = 0 then .error (.empty path.display (some "stat"))
        else .ok ⟨name, w.fs.sizeOf entry⟩, w) := by
  rw [Store.stat, hname, Op.run_lift_ok, Op.run_get, h]
  dsimp only
  split
  · rfl
  · rw [Op.run_get]
    split
    · rename_i hzero
      rw [if_pos hzero]
      rfl
    · rename_i hpositive
      rw [if_neg hpositive]
      rfl

theorem receiveAll_directory_alwaysFails (writing : Writing) (fs : FileSystem) :
    (writing.receiveAll (deliveriesOf .directory fs)).AlwaysFails := by
  have hdeliveries : deliveriesOf .directory fs = [.fault .isDirectory] := rfl
  have habort : (writing.receive (.fault .isDirectory)).AlwaysFails := by
    have hkind : IoError.isDirectory.kind ≠ .interrupted := by decide
    rw [Writing.receive, if_neg hkind]
    exact Op.AlwaysFails.bind (Op.AlwaysFails.discarding (Op.AlwaysFails.throw _)) _
  rw [hdeliveries, Writing.receiveAll]
  exact habort.bind _

theorem copy_directory_fails (hname : s.resolve name = .ok path) (hdst : s.resolve dst = .ok target)
    (h : w.fs.stat path = .ok entry) (hentry : entry.isDirectory = true) :
    ∃ e w', (s.copy name dst).run w = (.error e, w') ∧ e.failureKind = .io := by
  have hhandle : handleOf entry = .directory := by
    obtain ⟨mode, rfl⟩ := Entry.isDirectory_iff.1 hentry
    rfl
  have hpublish : (stageAndPublish target (deliveriesOf .directory)).AlwaysFails := by
    rw [stageAndPublish]
    refine Op.AlwaysFails.bind_next fun writing => ?_
    intro world
    rw [Op.run_get]
    exact (receiveAll_directory_alwaysFails writing world.fs).bind _ world
  obtain ⟨e, w', hrun⟩ := hpublish w
  refine ⟨e, w', ?_, (stageAndPublish_failsFrom target _ w w' e hrun).failureKind_eq⟩
  rw [copy, hname, Op.run_lift_ok, hdst, Op.run_lift_ok, Op.run_bind, openObject_ok h, hhandle]
  dsimp only
  rw [Op.run_bind, hrun]

/-! ## Opening, copying and measuring -/

/-- An operation that says that there is no object. -/
def SaysNotFound {α : Type} (result : Except StorageError α) : Prop :=
  ∃ e, result = .error e ∧ e.isNotFound = true

/-- Measuring has found an object, with bytes or without. -/
def FindsObject (result : Except StorageError ObjectInfo) : Prop :=
  (∃ info, result = .ok info) ∨ ∃ e, result = .error e ∧ e.isEmptyObject = true

theorem not_findsObject_ofLookup {part doing : String} :
    ¬ FindsObject (.error (.ofLookup path part doing e)) := by
  rintro (⟨info, hinfo⟩ | ⟨e', he', hempty⟩)
  · cases hinfo
  · obtain rfl := Except.error.inj he'
    rw [StorageError.ofLookup] at hempty
    split at hempty
    · cases hempty
    · cases hempty

theorem saysNotFound_ofLookup {α : Type} {part doing : String} :
    SaysNotFound (.error (.ofLookup path part doing e) : Except StorageError α) ↔
      e.kind = .notFound := by
  constructor
  · rintro ⟨e', he', hfound⟩
    obtain rfl := Except.error.inj he'
    exact StorageError.isNotFound_ofLookup.1 hfound
  · exact fun h => ⟨_, rfl, StorageError.isNotFound_ofLookup.2 h⟩

/-- The path leads to nothing, and the system says so. -/
def IsMissing (fs : FileSystem) (path : Pathname) : Prop :=
  ∃ e, fs.stat path = .error e ∧ e.kind = .notFound

theorem opened_iff (hname : s.resolve name = .ok path) :
    (∃ reader, ((s.openReader name).run w).1 = .ok reader) ↔
      ∃ entry, w.fs.stat path = .ok entry := by
  cases hstat : w.fs.stat path with
  | error e =>
      rw [openReader_error hname hstat]
      simp
  | ok entry =>
      rw [openReader_ok hname hstat]
      simp

theorem openReader_saysNotFound_iff (hname : s.resolve name = .ok path) :
    SaysNotFound ((s.openReader name).run w).1 ↔ IsMissing w.fs path := by
  rw [IsMissing]
  cases hstat : w.fs.stat path with
  | error e =>
      rw [openReader_error hname hstat, saysNotFound_ofLookup]
      simp
  | ok entry =>
      rw [openReader_ok hname hstat]
      simp [SaysNotFound]

theorem stat_findsObject_iff (hname : s.resolve name = .ok path) :
    FindsObject ((s.stat name).run w).1 ↔
      ∃ entry, w.fs.stat path = .ok entry ∧ entry.isDirectory = false := by
  cases hstat : w.fs.stat path with
  | error e =>
      rw [stat_error hname hstat]
      simp [not_findsObject_ofLookup]
  | ok entry =>
      rw [stat_ok hname hstat]
      dsimp only
      cases hentry : entry.isDirectory with
      | true => simp [FindsObject, hentry, StorageError.isEmptyObject]
      | false =>
          by_cases hsize : w.fs.sizeOf entry = 0
          · simp [FindsObject, hentry, hsize, StorageError.isEmptyObject]
          · simp [FindsObject, hentry, hsize]

theorem stat_saysNotFound_iff (hname : s.resolve name = .ok path) :
    SaysNotFound ((s.stat name).run w).1 ↔
      IsMissing w.fs path ∨ w.fs.leadsToDirectory path = true := by
  rw [IsMissing, leadsToDirectory]
  cases hstat : w.fs.stat path with
  | error e =>
      rw [stat_error hname hstat, saysNotFound_ofLookup]
      simp
  | ok entry =>
      rw [stat_ok hname hstat]
      dsimp only
      cases hentry : entry.isDirectory with
      | true => simp [SaysNotFound, StorageError.isNotFound]
      | false =>
          by_cases hsize : w.fs.sizeOf entry = 0
          · simp [SaysNotFound, hsize, StorageError.isNotFound]
          · simp [SaysNotFound, hsize]

/-- Whatever the path of a name leads to, opening and copying agree with measuring about it, unless
it is a directory: this is opened, while measuring says that there is no object, and a copy of it
fails as a read does. -/
theorem opened_iff_measured (hname : s.resolve name = .ok path) (w : World) :
    let opened := ((s.openReader name).run w).1
    let measured := ((s.stat name).run w).1
    let directory := w.fs.leadsToDirectory path = true
    ((∃ reader, opened = .ok reader) ↔ FindsObject measured ∨ directory) ∧
      (SaysNotFound opened ↔ SaysNotFound measured ∧ ¬ directory) ∧
      (directory → SaysNotFound measured) ∧
      ∀ dst target, s.resolve dst = .ok target → SaysNotFound measured →
        ∃ e w', (s.copy name dst).run w = (.error e, w') ∧
          (¬ directory → e.isNotFound = true ∧ w' = w) ∧
          (directory → e.failureKind = .io) := by
  intro opened measured directory
  have hdirectory : directory ↔ ∃ entry, w.fs.stat path = .ok entry ∧ entry.isDirectory = true := by
    change leadsToDirectory w.fs path = true ↔ _
    rw [leadsToDirectory]
    cases w.fs.stat path <;> simp
  have hmissing : IsMissing w.fs path → ¬ directory := by
    rintro ⟨e, he, -⟩ h
    obtain ⟨entry, hentry, -⟩ := hdirectory.1 h
    rw [he] at hentry
    cases hentry
  have hmeasured : SaysNotFound measured ↔ IsMissing w.fs path ∨ directory :=
    stat_saysNotFound_iff hname
  refine ⟨?_, ?_, fun h => hmeasured.2 (Or.inr h), ?_⟩
  · rw [opened_iff hname, stat_findsObject_iff hname, hdirectory]
    constructor
    · rintro ⟨entry, hentry⟩
      cases hkind : entry.isDirectory with
      | true => exact Or.inr ⟨entry, hentry, hkind⟩
      | false => exact Or.inl ⟨entry, hentry, hkind⟩
    · rintro (⟨entry, hentry, -⟩ | ⟨entry, hentry, -⟩)
      · exact ⟨entry, hentry⟩
      · exact ⟨entry, hentry⟩
  · rw [openReader_saysNotFound_iff hname, hmeasured]
    constructor
    · exact fun h => ⟨Or.inl h, hmissing h⟩
    · exact fun h => h.1.resolve_right h.2
  · intro dst target hdst hsays
    rcases hmeasured.1 hsays with hmiss | h
    · obtain ⟨e, he, hkind⟩ := hmiss
      refine ⟨_, w, copy_error hname hdst he, fun _ => ⟨?_, rfl⟩, fun h => ?_⟩
      · exact StorageError.isNotFound_ofLookup.2 hkind
      · exact absurd h (hmissing ⟨e, he, hkind⟩)
    · obtain ⟨entry, hentry, hkind⟩ := hdirectory.1 h
      obtain ⟨e, w', hrun, hio⟩ := copy_directory_fails hname hdst hentry hkind
      exact ⟨e, w', hrun, fun hnot => absurd h hnot, fun _ => hio⟩

def crowded : FileSystem := (newDirectory [114]).bind [[114], [110]] (.directory directoryMode)

/-- Where there is nothing, all three say so. -/
theorem opened_iff_measured_absent :
    SaysNotFound (((atTop [114]).openReader "m").run (.ofFileSystem crowded)).1 ∧
      SaysNotFound (((atTop [114]).stat "m").run (.ofFileSystem crowded)).1 ∧
      ∃ e w', ((atTop [114]).copy "m" "o").run (.ofFileSystem crowded) = (.error e, w') ∧
        e.isNotFound = true ∧ w' = .ofFileSystem crowded := by
  have hmeasured : SaysNotFound (((atTop [114]).stat "m").run (.ofFileSystem crowded)).1 :=
    ⟨_, rfl, rfl⟩
  have hdirectory : ¬ crowded.leadsToDirectory (.ofString "/r/m") = true := by decide
  have hname : (atTop [114]).resolve "m" = .ok (.ofString "/r/m") := rfl
  obtain ⟨-, hopened, -, hcopy⟩ := opened_iff_measured hname (.ofFileSystem crowded)
  obtain ⟨e, w', hrun, hkind, -⟩ := hcopy "o" (.ofString "/r/o") rfl hmeasured
  exact ⟨hopened.2 ⟨hmeasured, hdirectory⟩, hmeasured, e, w', hrun, hkind hdirectory⟩

/-- A directory is opened, although measuring says that there is no object. -/
theorem directory_is_opened :
    ¬ ∀ (s : Store) (name : String) (path : Pathname) (w : World), s.resolve name = .ok path →
      ((∃ reader, ((s.openReader name).run w).1 = .ok reader) ↔
          FindsObject ((s.stat name).run w).1) ∧
        (SaysNotFound ((s.openReader name).run w).1 ↔ SaysNotFound ((s.stat name).run w).1) ∧
        ∀ dst target, s.resolve dst = .ok target → SaysNotFound ((s.stat name).run w).1 →
          ∃ e w', (s.copy name dst).run w = (.error e, w') ∧ e.isNotFound = true ∧
            w'.fs = w.fs := by
  intro hall
  obtain ⟨-, hopened, -⟩ := hall (atTop [114]) "n" (.ofString "/r/n") (.ofFileSystem crowded) rfl
  have hmeasured : SaysNotFound (((atTop [114]).stat "n").run (.ofFileSystem crowded)).1 :=
    ⟨_, rfl, rfl⟩
  obtain ⟨e, he, -⟩ := hopened.2 hmeasured
  have hopen : (((atTop [114]).openReader "n").run (.ofFileSystem crowded)).1 =
      .ok ⟨.directory, 0⟩ := rfl
  rw [hopen] at he
  cases he

end Store

end Depot
