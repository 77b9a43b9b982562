import Depot.Proofs.FileSystem.Named
import Depot.Proofs.Store.Homes
import Depot.Proofs.Store.Reopening
import Depot.Proofs.Store.Staying
/-!
# Stores that were opened

Opening a store only adds directories.  The path of its root is absolute, has no dots, and leads to
a directory.  That path may end in a link; written with a slash behind it, it asks for the
directory, and every path of the store stays the same.

* `StorageConfig.openStore_runs` — what opening does, and the root it yields;
* `StorageConfig.openStore_grows` — when opening adds something;
* `slashed` — the store with the slash behind its root;
* `leadsTo_slashed` — a root whose names reach a directory.
-/

namespace Depot

open FileSystem

variable {fs : FileSystem}

namespace StorageError

def IsInvalidConfig (e : StorageError) : Prop := ∃ text context, e = .invalidConfig text context

def IsIo (e : StorageError) : Prop := ∃ source context, e = .io source context

theorem IsIo.during (doing : String) (e : IoError) : (StorageError.during doing e).IsIo :=
  ⟨e, some doing, rfl⟩

end StorageError

/-- A path that is absolute, has no dots and leads to a directory. -/
def FileSystem.IsRoot (fs : FileSystem) (root : Pathname) : Prop :=
  root.IsClean ∧ ∃ pos, (⟨root⟩ : Store).Reaches fs [] pos

/-- A path that is absolute, has no dots and leads to the directory that another path names. -/
def FileSystem.IsRootOf (fs : FileSystem) (p root : Pathname) : Prop :=
  root.IsClean ∧ ∃ pos, fs.NamesDirectoryAt p pos ∧ (⟨root⟩ : Store).Reaches fs [] pos

namespace FileSystem

theorem WellFormed.clean_ofRootNames (hwf : fs.WellFormed) {pos : Position} {entry : Entry}
    (he : fs.at? pos = some entry) : (Pathname.ofRootNames pos).IsClean := by
  refine ⟨rfl, ?_⟩
  rw [hwf.names_ofRootNames he]
  exact fun hdot => (hwf.isName he _ hdot).ne_dot rfl

theorem IsRootOf.isRoot {p root : Pathname} (h : fs.IsRootOf p root) : fs.IsRoot root := by
  obtain ⟨hclean, pos, -, hreach⟩ := h
  exact ⟨hclean, pos, hreach⟩

theorem NamesDirectoryAt.isRootOf (hwf : fs.WellFormed) {p : Pathname} {pos : Position}
    (h : fs.NamesDirectoryAt p pos) : fs.IsRootOf p (absolutePath fs p) := by
  obtain ⟨mode, hwalk⟩ := h.absolute hwf
  obtain ⟨mode', hstart⟩ := start_of_walk h.choose_spec
  refine ⟨Pathname.absolute_clean rfl fun hrelative => ?_, pos, h, mode, ?_⟩
  · rw [startOf, hrelative, if_neg (by simp)] at hstart
    exact (hwf.clean_ofRootNames hstart).2
  · rw [List.append_nil]
    exact hwalk

end FileSystem

/-- A root is made as its directories are, and is the path made absolute after that; the working
directory is not removed meanwhile. -/
theorem makeRoot_of_made {p : Pathname} (hne : p ≠ .empty) {passes done : FileSystem → Prop}
    {failed : StorageError → FileSystem → Prop}
    (h : (makeDirectories p).Runs fs passes (fun _ => done)
      fun source => failed (.during s!"mkdir {p.display}" source)) :
    (makeRoot p).Runs fs passes
      (fun root st => done st ∧ st.NamesDirectory p ∧ root = absolutePath st p) failed := by
  rw [makeRoot]
  refine Op.Runs.bind (fun _ st => done st ∧ st.NamesDirectory p) ?_ ?_
  · exact Op.Runs.mapError ((h.and (makeDirectories_names hne)).weaken (fun _ hst => hst.1)
      (fun _ _ hst => hst) fun _ _ hst => hst.1)
  intro _ st hst
  refine Op.Runs.bind (fun _ st' => st' = st) (Op.Runs.report rfl) ?_
  rintro _ _ rfl
  obtain ⟨hdone, hnamed⟩ := hst
  obtain ⟨pos, mode, hwalk⟩ := id hnamed
  obtain ⟨mode', hstart⟩ := start_of_walk hwalk
  refine (makeAbsolute_runs hstart).weaken (fun _ hst => hst.elim) ?_ fun _ _ hst => hst.elim
  rintro root _ ⟨rfl, hroot⟩
  exact ⟨hdone, hnamed, hroot⟩

/-- What making directories keeps, making a root does. -/
theorem makeRoot_keeps {inv : FileSystem → Prop} {p : Pathname} (hne : p ≠ .empty)
    (hkept : ∀ q ∈ p.ancestors (p.bytes.length + 1), KeptByMaking inv q) (h : inv fs) :
    (makeRoot p).Runs fs (fun _ => True) (fun root st => inv st ∧ root = absolutePath st p)
      (fun _ => inv) :=
  (makeRoot_of_made hne ((makeDirectories_keeps hkept h).passing fun _ _ => trivial)).weaken
    (fun _ hst => hst) (fun _ _ hst => ⟨hst.1, hst.2.2⟩) fun _ _ hst => hst

theorem makeRoot_runs (hwf : fs.WellFormed) {p : Pathname} (hne : p ≠ .empty) :
    (makeRoot p).Runs fs (fun _ => True) (fun root st => Grown fs st ∧ st.IsRootOf p root)
      (fun _ => Grown fs) := by
  have hmade := (makeDirectories_grown p (Grown.refl hwf)).passing fun _ _ => trivial
  refine (makeRoot_of_made hne hmade).weaken (fun _ hst => hst) ?_ fun _ _ hst => hst
  rintro _ st ⟨hgrown, ⟨pos, hpos⟩, rfl⟩
  exact ⟨hgrown, NamesDirectoryAt.isRootOf hgrown.wellFormed hpos⟩

/-- What an existing path stands for: that of the position which a link leads to, or the path itself
made absolute. -/
def StandsFor (fs : FileSystem) (p : Pathname) (entry : Entry) (root : Pathname) (entry' : Entry) :
    Prop :=
  if entry.isLink then ∃ pos entry₀, root = .ofRootNames pos ∧
    fs.locate true p = .ok (.occupied pos entry₀) ∧ fs.linkStat root = .ok entry'
  else root = absolutePath fs p ∧ entry' = entry

/-- An existing path is refused by the system if it is a link that leads nowhere, or to a place
whose path the system does not take. -/
theorem existingRoot_exact {p : Pathname} {entry : Entry} (hstat : fs.linkStat p = .ok entry) :
    (existingRoot p entry).Runs fs (fun _ => False)
      (fun found st => st = fs ∧ StandsFor fs p entry found.1 found.2)
      (fun e st => st = fs ∧ entry.isLink ∧ e.IsIo ∧ ∀ pos entry₀,
        fs.locateEntry true p = .ok (pos, entry₀) →
          ∃ e', fs.linkStat (.ofRootNames pos) = .error e') := by
  rw [existingRoot]
  split
  · rename_i hlink
    refine Op.Runs.bind (fun target st => st = fs ∧ ∃ pos entry₀, target = .ofRootNames pos ∧
        fs.locateEntry true p = .ok (pos, entry₀)) (Op.Runs.mapError (Op.Runs.query ?_ ?_)) ?_
    · intro target htarget
      obtain ⟨⟨pos, entry₀⟩, hlocate, htarget⟩ := bind_eq_ok.1 htarget
      cases htarget
      exact ⟨rfl, pos, entry₀, rfl, hlocate⟩
    · intro e he
      refine ⟨rfl, hlink, .during _ e, fun pos entry₀ hlocate => ?_⟩
      rw [realPath, hlocate] at he
      cases he
    · rintro target st ⟨rfl, pos, entry₀, rfl, hlocate⟩
      refine Op.Runs.bind (fun entry' st' => st' = st ∧
          st.linkStat (.ofRootNames pos) = .ok entry')
        (Op.Runs.mapError (Op.Runs.query (fun _ hok => ⟨rfl, hok⟩) ?_)) ?_
      · intro e he
        refine ⟨rfl, hlink, .during _ e, fun pos' entry' hlocate' => ?_⟩
        rw [hlocate] at hlocate'
        cases hlocate'
        exact ⟨e, he⟩
      · rintro entry' st' ⟨rfl, hstat⟩
        refine Op.Runs.pure ⟨rfl, ?_⟩
        rw [StandsFor, if_pos hlink]
        exact ⟨pos, entry₀, rfl, locateEntry_eq_ok.1 hlocate, hstat⟩
  · rename_i hlink
    obtain ⟨entry', hstart⟩ := start_of_linkStat hstat
    refine Op.Runs.bind _ ((makeAbsolute_runs hstart).weaken (fun _ hst => hst)
      (fun _ _ hst => hst) fun _ _ hst => hst.elim) ?_
    rintro _ st ⟨rfl, rfl⟩
    refine Op.Runs.pure ⟨rfl, ?_⟩
    rw [StandsFor, if_neg hlink]
    exact ⟨rfl, rfl⟩

theorem existingRoot_runs {p : Pathname} {entry : Entry} (hstat : fs.linkStat p = .ok entry) :
    (existingRoot p entry).Runs fs (fun _ => True)
      (fun found st => st = fs ∧ StandsFor fs p entry found.1 found.2) (fun _ st => st = fs) :=
  (existingRoot_exact hstat).weaken (fun _ hst => hst.elim) (fun _ _ hst => hst)
    fun _ _ hst => hst.1

theorem StandsFor.isRootOf (hwf : fs.WellFormed) {p root : Pathname}
    (hstart : ∃ mode, fs.at? (fs.startOf p) = some (.directory mode)) {entry entry' : Entry}
    (hstat : fs.linkStat p = .ok entry)
    (h : StandsFor fs p entry root entry') (hdirectory : entry'.isDirectory) :
    fs.IsRootOf p root := by
  obtain ⟨mode, rfl⟩ := Entry.isDirectory_iff.1 hdirectory
  rw [StandsFor] at h
  split at h
  · obtain ⟨pos, entry₀, rfl, hlocate, hstat'⟩ := h
    obtain ⟨start, hstart⟩ := hstart
    obtain ⟨pos', hlocate'⟩ := linkStat_eq_ok.1 hstat'
    have hwalk := (locate_eq_ok.1 hlocate).2
    have hentry₀ := walk_occupied hwalk
    have hkind := walk_not_isLink hwf hstart (by simp [Entry.isLink]) hwalk
    obtain ⟨mode', rfl⟩ := Entry.isDirectory_iff.1
      (NamesDirectoryAt.isDirectory hwf hentry₀ hkind (NamesDirectoryAt.of_locate hlocate'))
    obtain ⟨mode'', hreach⟩ := NamesDirectoryAt.of_at? hwf hentry₀
    refine ⟨hwf.clean_ofRootNames hentry₀, pos, .of_locate hlocate, mode'', ?_⟩
    rw [List.append_nil]
    exact hreach
  · obtain ⟨rfl, rfl⟩ := h
    obtain ⟨pos, hlocate⟩ := linkStat_eq_ok.1 hstat
    exact NamesDirectoryAt.isRootOf hwf (.of_locate hlocate)

theorem resolveRoot_runs (hwf : fs.WellFormed) {p : Pathname}
    (hstart : ∃ mode, fs.at? (fs.startOf p) = some (.directory mode)) (create : Bool) :
    (resolveRoot p create).Runs fs (fun _ => True) (fun root st => Grown fs st ∧ st.IsRootOf p root)
      (fun _ => Grown fs) := by
  have hgrown := Grown.refl hwf
  rw [resolveRoot]
  split
  · exact Op.Runs.throw hgrown
  rename_i hne
  apply Op.Runs.get
  rintro w rfl
  split
  · split
    · split
      · exact makeRoot_runs hwf hne
      · exact Op.Runs.throw hgrown
    · exact Op.Runs.throw hgrown
  · rename_i entry hstat
    refine Op.Runs.bind _ ((existingRoot_runs hstat).weaken (fun _ hst => hst)
      (fun _ _ hst => hst) fun _ _ hst => hst ▸ hgrown) ?_
    rintro ⟨root, entry'⟩ st ⟨rfl, hroot⟩
    dsimp only
    split
    · exact Op.Runs.pure ⟨hgrown, hroot.isRootOf hwf hstart hstat ‹_›⟩
    · exact Op.Runs.throw hgrown

theorem Store.openAt_of_resolveRoot {p : Pathname} {create : Bool} {passes : FileSystem → Prop}
    {done : Pathname → FileSystem → Prop} {failed : StorageError → FileSystem → Prop}
    (h : (resolveRoot p create).Runs fs passes done failed) :
    (Store.openAt p create).Runs fs passes (fun s => done s.root) failed := by
  rw [Store.openAt]
  refine Op.Runs.bind done h ?_
  intro root st hst
  refine Op.Runs.bind (fun _ => done root) (Op.Runs.report hst) ?_
  exact fun _ _ hst' => Op.Runs.pure hst'

theorem Store.openAt_root_runs (hwf : fs.WellFormed) {p : Pathname}
    (hstart : ∃ mode, fs.at? (fs.startOf p) = some (.directory mode)) (create : Bool) :
    (Store.openAt p create).Runs fs (fun _ => True)
      (fun s st => Grown fs st ∧ st.IsRootOf p s.root) (fun _ => Grown fs) :=
  Store.openAt_of_resolveRoot (resolveRoot_runs hwf hstart create)

theorem Store.openAt_existing_runs {p : Pathname} {entry : Entry}
    (hstat : fs.linkStat p = .ok entry) (create : Bool) :
    (Store.openAt p create).Runs fs (fun _ => True)
      (fun s st => st = fs ∧ ∃ entry', StandsFor fs p entry s.root entry' ∧ entry'.isDirectory)
      (fun _ st => st = fs) := by
  obtain ⟨pos, hlocate⟩ := linkStat_eq_ok.1 hstat
  have hne : p ≠ .empty := by
    rintro rfl
    exact (checkPath_eq_ok.1 (locate_eq_ok.1 hlocate).1).2.1 rfl
  have hroot : (resolveRoot p create).Runs fs (fun _ => True) (fun root st => st = fs ∧
      ∃ entry', StandsFor fs p entry root entry' ∧ entry'.isDirectory) fun _ st => st = fs := by
    rw [resolveRoot, if_neg hne]
    apply Op.Runs.get
    rintro w rfl
    rw [hstat]
    refine Op.Runs.bind _ (existingRoot_runs hstat) ?_
    rintro ⟨root, entry'⟩ st ⟨rfl, hroot⟩
    dsimp only
    split
    · exact Op.Runs.pure ⟨rfl, entry', hroot, ‹_›⟩
    · exact Op.Runs.throw rfl
  exact Store.openAt_of_resolveRoot hroot

theorem Store.openAt_missing_runs {inv : FileSystem → Prop} {p : Pathname} {e : IoError}
    (hstat : fs.linkStat p = .error e)
    (hkept : ∀ q ∈ p.ancestors (p.bytes.length + 1), KeptByMaking inv q) (h : inv fs)
    (create : Bool) :
    (Store.openAt p create).Runs fs (fun _ => True)
      (fun s st => inv st ∧ s.root = absolutePath st p) (fun _ => inv) := by
  have hroot : (resolveRoot p create).Runs fs (fun _ => True)
      (fun root st => inv st ∧ root = absolutePath st p) fun _ => inv := by
    rw [resolveRoot]
    split
    · exact Op.Runs.throw h
    rename_i hne
    apply Op.Runs.get
    rintro w rfl
    rw [hstat]
    dsimp only
    split
    · split
      · exact makeRoot_keeps hne hkept h
      · exact Op.Runs.throw h
    · exact Op.Runs.throw h
  exact Store.openAt_of_resolveRoot hroot

theorem StorageConfig.openStore_runs (hwf : fs.WellFormed)
    (hdir : ∃ mode, fs.at? fs.workingDir = some (.directory mode)) (config : StorageConfig) :
    config.openStore.Runs fs (fun _ => True) (fun s st => Grown fs st ∧ st.IsRoot s.root)
      (fun _ => Grown fs) := by
  rcases config.openStore_cases with ⟨e, hopen⟩ | ⟨c, -, hopen⟩
  · rw [hopen]
    exact Op.Runs.throw (Grown.refl hwf)
  · rw [hopen]
    exact (Store.openAt_root_runs hwf (startOf_directory hdir c.path) true).weaken
      (fun _ hst => hst) (fun _ _ hst => ⟨hst.1, hst.2.isRoot⟩) fun _ _ hst => hst

/-! ## Whether anything is added -/

theorem Store.locateEntry_of_grown {fs' : FileSystem} {p : Pathname} {q : Position} {id : Nat}
    (hgrown : Grown fs fs') (hdir : fs'.workingDir = fs.workingDir)
    (h : fs.locateEntry true p = .ok (q, .file id)) :
    fs'.locateEntry true p = .ok (q, .file id) :=
  locateEntry_file_of_keeps hgrown.keepsPaths hdir h (hgrown.kept (at?_of_locateEntry h))

/-- Nothing is found at a path, not even a link. -/
def FileSystem.Lacks (fs : FileSystem) (p : Pathname) : Prop :=
  ∃ e, fs.linkStat p = .error e ∧ e.kind = .notFound

/-- There is no root where a configuration wants it. -/
def StorageConfig.LacksRoot (config : StorageConfig) (fs : FileSystem) : Prop :=
  ∃ c, config.section? = .ok c ∧ fs.Lacks c.path

theorem resolveRoot_grows (hwf : fs.WellFormed) (p : Pathname) (create : Bool) :
    (resolveRoot p create).Runs fs (fun _ => True)
      (fun _ st => st = fs ∨ Grown fs st ∧ fs.Lacks p)
      (fun _ st => st = fs ∨ Grown fs st ∧ fs.Lacks p) := by
  rw [resolveRoot]
  split
  · exact Op.Runs.throw (Or.inl rfl)
  rename_i hne
  apply Op.Runs.get
  rintro w rfl
  split
  · rename_i e hstat
    split
    · rename_i hkind
      have hlacks : w.fs.Lacks p := ⟨e, hstat, hkind⟩
      split
      · have hkept : ∀ q ∈ p.ancestors (p.bytes.length + 1), KeptByMaking (Grown w.fs) q :=
          fun _ _ _ _ hst hmake => hst.trans (.of_makeDirectory hst.wellFormed hmake)
        exact (makeRoot_keeps hne hkept (Grown.refl hwf)).weaken (fun _ hst => hst)
          (fun _ _ hst => Or.inr ⟨hst.1, hlacks⟩) fun _ _ hst => Or.inr ⟨hst, hlacks⟩
      · exact Op.Runs.throw (Or.inl rfl)
    · exact Op.Runs.throw (Or.inl rfl)
  · rename_i entry hstat
    refine Op.Runs.bind _ ((existingRoot_runs hstat).weaken (fun _ hst => hst)
      (fun _ _ hst => hst) fun _ _ hst => Or.inl hst) ?_
    rintro ⟨root, entry'⟩ st ⟨rfl, -⟩
    dsimp only
    split
    · exact Op.Runs.pure (Or.inl rfl)
    · exact Op.Runs.throw (Or.inl rfl)

theorem StorageConfig.openStore_grows (hwf : fs.WellFormed) (config : StorageConfig) :
    config.openStore.Runs fs (fun _ => True)
      (fun _ st => st = fs ∨ Grown fs st ∧ config.LacksRoot fs)
      (fun _ st => st = fs ∨ Grown fs st ∧ config.LacksRoot fs) := by
  rcases config.openStore_cases with ⟨e, hopen⟩ | ⟨c, hsection, hopen⟩
  · rw [hopen]
    exact Op.Runs.throw (Or.inl rfl)
  · have hlacks {st : FileSystem} (h : st = fs ∨ Grown fs st ∧ fs.Lacks c.path) :
        st = fs ∨ Grown fs st ∧ config.LacksRoot fs :=
      h.imp_right fun h' => ⟨h'.1, c, hsection, h'.2⟩
    rw [hopen]
    exact Store.openAt_of_resolveRoot ((resolveRoot_grows hwf c.path true).weaken
      (fun _ hst => hst) (fun _ _ hst => hlacks hst) fun _ _ hst => hlacks hst)

namespace Store

variable {s : Store} {root : Position} {names : List Bytes}

/-- The store whose root is written with a slash at its end. -/
def slashed (s : Store) : Store := ⟨s.pathOf []⟩

theorem bytes_slashed (hroot : s.root.bytes ≠ []) :
    s.slashed.root.bytes = s.root.stem ++ [Pathname.slash] := by
  rw [slashed, pathOf, Pathname.join_ofNames hroot (by simp)]
  rfl

theorem pathOf_slashed (hroot : s.root.bytes ≠ []) (hnames : ∀ name ∈ names, Pathname.IsName name) :
    s.slashed.pathOf names = s.pathOf names := by
  have hbytes := bytes_slashed hroot
  have hstem : s.slashed.root.stem = s.root.stem := by
    rw [Pathname.stem, if_pos (by rw [Pathname.endsInSlash, hbytes]; simp), hbytes]
    simp
  rw [pathOf, pathOf, Pathname.join_ofNames (by rw [hbytes]; simp) hnames,
    Pathname.join_ofNames hroot hnames, hstem]

theorem names_slashed (hroot : s.root.bytes ≠ []) : s.slashed.root.names = s.root.names := by
  rw [slashed, pathOf, Pathname.names_join_ofNames hroot (by simp), List.append_nil]

theorem resolve_slashed (hroot : s.root.bytes ≠ []) (name : String) :
    s.slashed.resolve name = s.resolve name := by
  rw [resolve, resolve]
  cases hname : ObjectName.ofObject name with
  | error fault => rfl
  | ok names =>
      obtain ⟨k, rfl, -⟩ := ObjectName.ofObject_eq_ok hname
      exact congrArg Except.ok (pathOf_slashed hroot k.isName)

theorem leadsTo_slashed (hclean : s.root.IsClean) (hcheck : checkPath (s.pathOf []) = .ok ())
    (hreach : s.Reaches fs [] root) : s.slashed.LeadsTo fs root := by
  have hroot := hclean.bytes_ne_nil
  obtain ⟨mode, hwalk⟩ := hreach
  rw [List.append_nil] at hwalk
  have habs : s.slashed.root.isAbsolute = true := by
    rw [slashed, pathOf, Pathname.isAbsolute_join_ofNames hroot (by simp)]
    exact hclean.1
  refine ⟨habs, by rw [names_slashed hroot]; exact hclean.2, mode, ?_⟩
  rw [locateEntry_eq_ok, locate_eq_ok, startOf, if_pos habs]
  exact ⟨hcheck, walk_pathOf_nil hroot hwalk false⟩

end Store

end Depot
