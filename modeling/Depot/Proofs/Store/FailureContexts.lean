import Depot.Proofs.Path.Parents
import Depot.Proofs.Store.Listings
import Depot.Proofs.Store.Lookups
import Depot.Store.Config
import Depot.Store.Purge
/-!
# What failures of the system name

A failure of the system is reported with what the store was doing, and that shows a path: which one,
depends on the operation.

* `StorageError.NamesPath` — a failure that shows one of certain paths;
* `parent?_stagingPath` — the staging file is in the directory of its object;
* `WriteNames`, `WriteFailure.namesPath` — writes;
* `CopyNames`, `CopyFailure.namesPath` — copies;
* `openReader_namesPath`, `stat_namesPath`, `delete_namesPath` — operations on what is there;
* `ListNames`, `list_namesPath` — listings;
* `openAt_namesPath` — opening a store.
-/

namespace Depot

def Pathname.IsShownIn (p : Pathname) (text : String) : Prop :=
  ∃ before after, text = before ++ p.display ++ after

theorem Pathname.isShownIn_between (p : Pathname) (before after : String) :
    p.IsShownIn (before ++ p.display ++ after) := ⟨before, after, rfl⟩

theorem Pathname.isShownIn_behind (p : Pathname) (before : String) :
    p.IsShownIn (before ++ p.display) := ⟨before, "", String.append_empty.symm⟩

theorem Pathname.IsShownIn.append {p : Pathname} {text : String} (h : p.IsShownIn text)
    (more : String) : p.IsShownIn (text ++ more) := by
  obtain ⟨before, after, rfl⟩ := h
  exact ⟨before, after ++ more, String.append_assoc ..⟩

/-! ## Failures that name a path -/

namespace StorageError

variable {paths paths' : IoError → Pathname → Prop} {e : StorageError}

/-- If this is a failure of the system, it comes with what was being done, and that shows one of
certain paths. -/
def NamesPath (paths : IoError → Pathname → Prop) (e : StorageError) : Prop :=
  ∀ source context, e = .io source context →
    ∃ doing p, context = some doing ∧ paths source p ∧ p.IsShownIn doing

theorem NamesPath.mono (h : e.NamesPath paths)
    (hpaths : ∀ source p, paths source p → paths' source p) : e.NamesPath paths' := by
  intro source context he
  obtain ⟨doing, p, hdoing, hp, hshown⟩ := h source context he
  exact ⟨doing, p, hdoing, hpaths source p hp, hshown⟩

theorem namesPath_of_source? (h : e.source? = none) : e.NamesPath paths := by
  rintro source context rfl
  cases h

theorem namesPath_during {doing : String} {source : IoError} {p : Pathname} (hp : paths source p)
    (hshown : p.IsShownIn doing) : (during doing source).NamesPath paths := by
  intro source' context he
  cases he
  exact ⟨doing, p, rfl, hp, hshown⟩

theorem namesPath_ofLookup {part doing : String} {source : IoError} {p : Pathname}
    (hp : paths source p) (hshown : p.IsShownIn doing) :
    (ofLookup p part doing source).NamesPath paths := by
  rw [ofLookup]
  split
  · exact namesPath_of_source? rfl
  · exact namesPath_during hp hshown

end StorageError

open StorageError

/-! ## Writes -/

section

variable {s : Store} {name src dst : String} {target : Pathname} {world : World} {e : StorageError}
  {paths : IoError → Pathname → Prop}

theorem namesPath_toError (fault : NameFault) (name : String) :
    (fault.toError name).NamesPath paths := by
  cases fault <;> exact namesPath_of_source? rfl

theorem namesPath_of_resolve (h : s.resolve name = .error e) : e.NamesPath paths := by
  rw [Store.resolve] at h
  split at h
  · cases h
  · cases h
    exact namesPath_toError _ name

theorem namesPath_of_resolveBeginning (h : s.resolveBeginning name = .error e) :
    e.NamesPath paths := by
  rw [Store.resolveBeginning] at h
  split at h
  · cases h
  · cases h
    exact namesPath_toError _ name

theorem parent?_stagingPath (h : s.resolve name = .ok target) :
    (stagingPath target).parent? = target.parent? := by
  obtain ⟨k, -, rfl, -⟩ := Store.resolve_eq_ok h
  obtain ⟨front, hpieces⟩ := Pathname.pieces_join_ofNames s.root k.names_ne_nil k.isName
  have hleaf : Pathname.IsName k.leaf := k.isName k.leaf (by simp)
  rw [Key.names, ← List.append_assoc] at hpieces
  exact Pathname.parent?_appended hpieces hleaf (Key.isName_append_suffix hleaf)

/-- The path that a failure of the system names when a write that starts in a world ends with it. -/
inductive WriteNames (world : World) (target : Pathname) (source : IoError) : Pathname → Prop
  /-- The directory of the object, if it cannot be made. -/
  | above {parent : Pathname} (hparent : target.parent? = some parent)
    (hfails : ((makeDirectories parent).run world).1 = .error source) :
    WriteNames world target source parent
  | staging (hmade : CanMakeAbove target world) :
    WriteNames world target source (stagingPath target)

theorem WriteFailure.namesPath (h : WriteFailure target world e)
    (hname : s.resolve name = .ok target) : e.NamesPath (WriteNames world target) := by
  cases h with
  | above hparent hfails =>
      rw [parent?_stagingPath hname] at hparent
      exact namesPath_during (.above hparent hfails) (Pathname.isShownIn_behind ..)
  | opening hmade e => exact namesPath_during (.staging hmade) (Pathname.isShownIn_between ..)
  | permitting hmade e => exact namesPath_during (.staging hmade) (Pathname.isShownIn_between ..)
  | copying hmade e => exact namesPath_during (.staging hmade) (Pathname.isShownIn_between ..)
  | syncing hmade e => exact namesPath_during (.staging hmade) (Pathname.isShownIn_between ..)
  | replacing hmade e =>
      exact namesPath_during (.staging hmade) (((Pathname.isShownIn_between ..).append _).append _)

/-- The path that a failure of the system names when a copy that starts in a world ends with it. -/
inductive CopyNames (s : Store) (src dst : String) (world : World) (source : IoError) :
    Pathname → Prop
  | opening {path : Pathname} (hsrc : s.resolve src = .ok path)
    (hopen : world.fs.openRead path = .error source) : CopyNames s src dst world source path
  | writing {path target p : Pathname} {handle : Handle} (hsrc : s.resolve src = .ok path)
    (hopen : world.fs.openRead path = .ok handle) (hdst : s.resolve dst = .ok target)
    (hp : WriteNames world target source p) : CopyNames s src dst world source p

theorem CopyFailure.namesPath (h : CopyFailure s src dst world e) :
    e.NamesPath (CopyNames s src dst world) := by
  cases h with
  | badSource hsrc => exact namesPath_of_resolve hsrc
  | badTarget hdst => exact namesPath_of_resolve hdst
  | missing hsrc hopen hkind => exact namesPath_of_source? rfl
  | opening hsrc hopen =>
      exact namesPath_during (.opening hsrc hopen) (Pathname.isShownIn_between ..)
  | writing hsrc hopen hdst hfails =>
      exact (hfails.namesPath hdst).mono fun source p hp => .writing hsrc hopen hdst hp

end

/-! ## Operations on what is there -/

namespace Store

variable {α : Type} {paths : IoError → Pathname → Prop}

theorem resolving_namesPath {s : Store} {name : String} {next : Pathname → Op StorageError α}
    {world : World}
    (h : ∀ path, s.resolve name = .ok path → (next path).FailsFrom world (NamesPath paths)) :
    (liftM (s.resolve name) >>= next : Op StorageError α).FailsFrom world (NamesPath paths) :=
  Op.FailsFrom.lift h fun _ he => namesPath_of_resolve he

theorem openReader_namesPath (s : Store) (name : String) (world : World) :
    (s.openReader name).FailsFrom world (NamesPath fun _ p => s.resolve name = .ok p) := by
  rw [Store.openReader]
  refine resolving_namesPath fun path hname => ?_
  refine Op.FailsFrom.bind (Op.FailsFrom.mapError (Op.FailsFrom.query fun e he => ?_))
    fun _ _ _ => Op.FailsAs.pure _ _
  exact namesPath_ofLookup hname (Pathname.isShownIn_between ..)

theorem stat_namesPath (s : Store) (name : String) (world : World) :
    (s.stat name).FailsFrom world (NamesPath fun _ p => s.resolve name = .ok p) := by
  rw [Store.stat]
  refine resolving_namesPath fun path hname => Op.FailsFrom.get ?_
  split
  · split
    · exact Op.FailsAs.throw (namesPath_of_source? rfl) _
    · exact Op.FailsAs.throw (namesPath_during hname (Pathname.isShownIn_behind ..)) _
  · split
    · exact Op.FailsAs.throw (namesPath_of_source? rfl) _
    · apply Op.FailsFrom.get
      split
      · exact Op.FailsAs.throw (namesPath_of_source? rfl) _
      · exact Op.FailsAs.pure _ _

theorem delete_namesPath (s : Store) (name : String) (world : World) :
    (s.delete name).FailsFrom world (NamesPath fun _ p => s.resolve name = .ok p) := by
  rw [Store.delete]
  refine resolving_namesPath fun path hname => ?_
  refine Op.FailsAs.bind (Op.FailsAs.mapError fun e => ?_) (fun entry => ?_) world
  · exact namesPath_ofLookup hname (Pathname.isShownIn_behind ..)
  · refine Op.FailsAs.bind (Op.FailsAs.mapError fun e => ?_) fun _ => Op.FailsAs.report _
    exact namesPath_ofLookup hname (Pathname.isShownIn_behind ..)

theorem removeStale_failsAs (entries : List (Pathname × Position)) (kind : StorageError → Prop) :
    (removeStale entries).FailsAs kind := by
  induction entries with
  | nil => exact Op.FailsAs.pure _
  | cons found rest ih =>
      obtain ⟨path, pos⟩ := found
      have hcounted (count : PurgeReport → PurgeReport) : (do
          let report ← removeStale rest
          return count report : Op StorageError PurgeReport).FailsAs kind :=
        ih.bind fun _ => Op.FailsAs.pure _
      rw [removeStale]
      split
      · refine Op.FailsAs.bind (Op.FailsAs.change_ ?_) fun _ => hcounted _
        intro fs e he
        cases he
      · exact Op.FailsAs.bind (Op.FailsAs.report _) fun _ => hcounted _

theorem purge_failsAs (s : Store) (maxAge : Nat) (kind : StorageError → Prop) :
    (s.purge maxAge).FailsAs kind := by
  rw [purge]
  refine Op.FailsAs.get fun world => Op.FailsAs.bind (removeStale_failsAs _ kind) fun report => ?_
  split
  · exact Op.FailsAs.bind (Op.FailsAs.report _) fun _ => Op.FailsAs.pure _
  · exact Op.FailsAs.pure _

/-! ## Listings -/

/-- The path that a failure of the system names when a listing of a file system ends with it. -/
inductive ListNames (s : Store) (beginning : String) (fs : FileSystem) : Pathname → Prop
  | base {base : Pathname} (hbase : s.resolveBeginning beginning = .ok base) :
    ListNames s beginning fs base
  /-- An entry that the walk comes to. -/
  | entry {base : Pathname} {found : Traversal} {names : Position} {entry : Entry}
    (hbase : s.resolveBeginning beginning = .ok base) (hfound : fs.traverse base = .ok found)
    (hentry : (names, entry) ∈ found.entries) : ListNames s beginning fs (entryPath base names)

theorem isShownIn_of_unreachable {fs : FileSystem} {base : Pathname} {ending doing : String}
    {names : Position} {entry : Entry}
    (h : listEntry fs base ending names entry = .unreachable doing) :
    (entryPath base names).IsShownIn doing ∨ base.IsShownIn doing := by
  cases entry with
  | file id =>
      rw [listEntry, listFile] at h
      split at h
      · cases h
      · split at h
        · cases h
        · split at h
          · cases h
          · cases h
            exact Or.inl (Pathname.isShownIn_behind ..)
  | directory mode =>
      rw [listEntry] at h
      split at h
      · cases h
      · cases h
        exact Or.inr (Pathname.isShownIn_behind ..)
  | _ => cases h

theorem list_namesPath (s : Store) (beginning ending : String) (world : World) :
    (s.list beginning ending).FailsFrom world
      (NamesPath fun _ => ListNames s beginning world.fs) := by
  rw [list]
  refine Op.FailsFrom.lift (fun base hbase => Op.FailsFrom.get ?_) fun e he =>
    namesPath_of_resolveBeginning he
  split
  · rename_i found hfound
    intro world' e hrun
    obtain ⟨-, ⟨names, entry⟩, hentry, doing, hdoing, rfl⟩ :=
      (collect_runs world.fs base ending found.entries).of_error rfl hrun
    rcases isShownIn_of_unreachable hdoing with hshown | hshown
    · exact namesPath_during (.entry hbase hfound hentry) hshown
    · exact namesPath_during (.base hbase) hshown
  · split
    · exact Op.FailsAs.pure _ _
    · exact Op.FailsAs.throw (namesPath_during (.base hbase) (Pathname.isShownIn_behind ..)) _

end Store

/-! ## Opening -/

/-- The path that a failure of the system names when a store is opened: the path that was given, or
what it leads to. -/
def OpenNames (fs : FileSystem) (path p : Pathname) : Prop := p = path ∨ fs.realPath path = .ok p

theorem makeAbsolute_namesPath (path : Pathname) (fs : FileSystem) :
    (makeAbsolute path).FailsAs (NamesPath fun _ => OpenNames fs path) :=
  Op.FailsAs.mapError fun _ => namesPath_during (Or.inl rfl) (Pathname.isShownIn_behind ..)

theorem makeRoot_namesPath (path : Pathname) (world : World) :
    (makeRoot path).FailsFrom world (NamesPath fun _ => OpenNames world.fs path) := by
  rw [makeRoot]
  refine Op.FailsAs.bind (Op.FailsAs.mapError fun e => ?_) (fun _ => ?_) world
  · exact namesPath_during (Or.inl rfl) (Pathname.isShownIn_behind ..)
  · exact Op.FailsAs.bind (Op.FailsAs.report _) fun _ => makeAbsolute_namesPath path world.fs

theorem existingRoot_namesPath (path : Pathname) (entry : Entry) (world : World) :
    (existingRoot path entry).FailsFrom world (NamesPath fun _ => OpenNames world.fs path) := by
  rw [existingRoot]
  split
  · refine Op.FailsFrom.bind (Op.FailsFrom.mapError (Op.FailsFrom.query fun e _ => ?_))
      fun target mid hran => ?_
    · exact namesPath_during (Or.inl rfl) (Pathname.isShownIn_behind ..)
    · obtain ⟨htarget, rfl⟩ := Op.run_query_eq_ok.1 (Op.run_mapError_eq_ok.1 hran)
      refine Op.FailsAs.bind (Op.FailsAs.mapError fun e => ?_) (fun _ => Op.FailsAs.pure _) mid
      exact namesPath_during (Or.inr htarget) (Pathname.isShownIn_behind ..)
  · exact Op.FailsAs.bind (makeAbsolute_namesPath path world.fs) (fun _ => Op.FailsAs.pure _) world

theorem resolveRoot_namesPath (path : Pathname) (create : Bool) (world : World) :
    (resolveRoot path create).FailsFrom world (NamesPath fun _ => OpenNames world.fs path) := by
  rw [resolveRoot]
  split
  · exact Op.FailsAs.throw (namesPath_of_source? rfl) _
  apply Op.FailsFrom.get
  split
  · split
    · split
      · exact makeRoot_namesPath path world
      · exact Op.FailsAs.throw (namesPath_of_source? rfl) _
    · exact Op.FailsAs.throw (namesPath_during (Or.inl rfl) (Pathname.isShownIn_behind ..)) _
  · refine Op.FailsFrom.bind (existingRoot_namesPath path _ world) fun found mid _ => ?_
    obtain ⟨root, entry⟩ := found
    dsimp only
    split
    · exact Op.FailsAs.pure _ _
    · exact Op.FailsAs.throw (namesPath_of_source? rfl) _

theorem Store.openAt_namesPath (path : Pathname) (create : Bool) (world : World) :
    (Store.openAt path create).FailsFrom world (NamesPath fun _ => OpenNames world.fs path) := by
  rw [Store.openAt]
  refine Op.FailsFrom.bind (resolveRoot_namesPath path create world) fun root mid _ => ?_
  exact Op.FailsAs.bind (Op.FailsAs.report _) (fun _ => Op.FailsAs.pure _) mid

theorem FsConfig.openStore_namesPath (config : FsConfig) (world : World) :
    config.openStore.FailsFrom world (NamesPath fun _ => OpenNames world.fs config.path) := by
  rw [FsConfig.openStore]
  refine Op.FailsFrom.lift (fun _ _ => Store.openAt_namesPath config.path true world) fun e he => ?_
  rw [FsConfig.validate] at he
  split at he
  · cases he
    exact namesPath_of_source? rfl
  · cases he

theorem StorageConfig.openStore_namesPath (config : StorageConfig) (world : World) :
    config.openStore.FailsFrom world
      (NamesPath fun _ p => ∃ path, config.filesystem.map FsConfig.path = some path ∧
        OpenNames world.fs path p) := by
  rw [StorageConfig.openStore]
  refine Op.FailsFrom.lift (fun files hfiles => ?_) fun e he => ?_
  · have hconfig : config.filesystem = some files := by
      rw [StorageConfig.section?] at hfiles
      split at hfiles
      · cases hfiles
      · split at hfiles
        · rename_i hsome
          cases hfiles
          exact hsome
        · cases hfiles
    refine (files.openStore_namesPath world).mono fun e he => he.mono fun source p hp => ?_
    exact ⟨files.path, by rw [hconfig]; rfl, hp⟩
  · rw [StorageConfig.section?] at he
    split at he
    · cases he
      exact namesPath_of_source? rfl
    · split at he
      · cases he
      · cases he
        exact namesPath_of_source? rfl

end Depot
