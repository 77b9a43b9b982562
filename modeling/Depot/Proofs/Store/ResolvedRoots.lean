import Depot.Proofs.FileSystem.ClearPaths
import Depot.Proofs.Path.IdleTails
import Depot.Proofs.Store.Absence
import Depot.Proofs.Store.Opening
/-!
# What opening a store does

Whatever path a store is opened at, the root is that of a directory, or the store is refused, and
nothing changes but that directories were made along the path.  A path that is too long for the
system can be the root all the same: no failure tells of it before the first request.

* `PavedAlong` — how the file system may change;
* `RootLeads` — how far the root leads to the directory;
* `OpeningOutcome` — the root, the changes, and the refusals of one attempt;
* `Store.openAt_outcome` — every attempt is such.
-/

namespace Depot

open FileSystem

namespace FileSystem

variable {fs st : FileSystem} {p root : Pathname} {pos : Position}

/-! ## Walks -/

theorem WellFormed.walk_position (hwf : fs.WellFormed) {entry : Entry}
    (he : fs.at? pos = some entry) :
    fs.walk false linkLimit [] pos = .ok (.occupied pos entry) := by
  rcases List.eq_nil_or_concat' pos with rfl | ⟨dir, name, rfl⟩
  · rw [at?_root] at he
    cases he
    rfl
  · obtain ⟨mode, hdir⟩ := hwf.parent he
    have hname := hwf.name he
    exact (walk_concat_iff hname.toIsName).2
      ⟨dir, mode, walk_directory hwf hdir true, hname.length_le, rfl, he⟩

theorem zero_notMem_of_names (h : ∀ name ∈ p.names, (0 : UInt8) ∉ name) : 0 ∉ p.bytes := by
  intro hmem
  rcases Pathname.mem_names_of_mem_bytes hmem with hslash | ⟨name, hname, hzero⟩
  · cases hslash
  · exact h name hname hzero

theorem WellFormed.zero_notMem (hwf : fs.WellFormed) {entry : Entry}
    (he : fs.at? pos = some entry) : ∀ name ∈ pos, (0 : UInt8) ∉ name := by
  have he' : fs.at? ([] ++ pos) = some entry := he
  exact fun name hname => (hwf.names_of_append he' name hname).zero_notMem

theorem WellFormed.checkPath_ofRootNames (hwf : fs.WellFormed) {entry : Entry}
    (he : fs.at? pos = some entry) :
    checkPath (.ofRootNames pos) = .ok () ↔
      (Pathname.ofRootNames pos).bytes.length < pathLimit := by
  rw [checkPath_eq_ok]
  refine ⟨fun h => h.2.2, fun h => ⟨zero_notMem_of_names ?_, by simp [Pathname.ofRootNames], h⟩⟩
  rw [hwf.names_ofRootNames he]
  exact hwf.zero_notMem he

theorem WellFormed.linkStat_ofRootNames (hwf : fs.WellFormed) {entry : Entry}
    (he : fs.at? pos = some entry)
    (hlength : (Pathname.ofRootNames pos).bytes.length < pathLimit) :
    fs.linkStat (.ofRootNames pos) = .ok entry := by
  have habs : (Pathname.ofRootNames pos).isAbsolute = true := rfl
  rw [linkStat_eq_ok]
  refine ⟨pos, locate_eq_ok.2 ⟨(hwf.checkPath_ofRootNames he).2 hlength, ?_⟩⟩
  rw [startOf, if_pos habs, Pathname.steps_ofRootNames (hwf.isName he)]
  exact hwf.walk_position he

theorem linkStat_of_locateEntry {entry : Entry} (h : fs.locateEntry true p = .ok (pos, entry)) :
    ∃ found, fs.linkStat p = .ok found ∧ (found.isLink ∨ found = entry) := by
  rcases locateEntry_unfollowed fs p with heq | ⟨pos', target, heq⟩
  · refine ⟨entry, ?_, .inr rfl⟩
    rw [linkStat, heq, h]
    rfl
  · refine ⟨.link target, ?_, .inl rfl⟩
    rw [linkStat, heq]
    rfl

theorem locateEntry_ne_ok (h : ∀ entry, fs.linkStat p ≠ .ok entry) (pos : Position)
    (entry : Entry) : fs.locateEntry true p ≠ .ok (pos, entry) := by
  intro hlocate
  obtain ⟨found, hfound, -⟩ := linkStat_of_locateEntry hlocate
  exact h found hfound

theorem leads_iff (hclean : root.IsClean) (hzero : 0 ∉ root.bytes) {mode : Nat}
    (hwalk : fs.walk true linkLimit [] root.names = .ok (.occupied pos (.directory mode))) :
    (∃ mode, fs.locateEntry true root = .ok (pos, .directory mode)) ↔
      root.bytes.length < pathLimit := by
  constructor
  · rintro ⟨mode, h⟩
    exact (checkPath_eq_ok.1 (locate_eq_ok.1 (locateEntry_eq_ok.1 h)).1).2.2
  · intro hlength
    refine ⟨mode, locateEntry_eq_ok.2 (locate_eq_ok.2 ⟨?_, ?_⟩)⟩
    · exact checkPath_eq_ok.2 ⟨hzero, hclean.bytes_ne_nil, hlength⟩
    · rw [startOf, if_pos hclean.1]
      exact walk_steps_of_names hwalk

theorem start_of_locate {follow : Bool} {place : Place} (h : fs.locate follow p = .ok place) :
    ∃ mode, fs.at? (fs.startOf p) = some (.directory mode) := by
  obtain ⟨hcheck, hwalk⟩ := locate_eq_ok.1 h
  rw [startOf] at hwalk ⊢
  split
  · exact ⟨_, at?_root fs⟩
  · rename_i habs
    rw [if_neg habs] at hwalk
    have hsteps : p.steps ≠ [] := by
      intro hnil
      refine habs (Pathname.isAbsolute_of_names_eq_nil (checkPath_eq_ok.1 hcheck).2.1 ?_)
      rw [Pathname.steps] at hnil
      split at hnil
      · cases List.append_eq_nil_iff.1 hnil |>.2
      · exact hnil
    rw [← List.nil_append p.steps] at hwalk
    obtain ⟨pos', mode, -, hstart, -⟩ := walk_front hsteps hwalk
    exact start_of_walk hstart

theorem NamesDirectoryAt.locateEntry (h : fs.NamesDirectoryAt p pos)
    (hcheck : checkPath p = .ok ()) :
    ∃ mode, fs.locateEntry true p = .ok (pos, .directory mode) := by
  obtain ⟨mode, hwalk⟩ := h
  exact ⟨mode, locateEntry_eq_ok.2 (locate_eq_ok.2 ⟨hcheck, walk_steps_of_names hwalk⟩)⟩

theorem checkPath_of_linkStat {e : IoError} (hne : p ≠ .empty) (h : fs.linkStat p = .error e)
    (hkind : e.kind = .notFound) : checkPath p = .ok () := by
  cases hcheck : checkPath p with
  | ok _ => rfl
  | error e' =>
    rw [linkStat, FileSystem.locateEntry, locate, hcheck] at h
    cases h
    rw [checkPath] at hcheck
    split at hcheck
    · cases hcheck
      cases hkind
    · split at hcheck
      · exact absurd (congrArg Pathname.mk ‹p.bytes = []›) hne
      · split at hcheck
        · cases hcheck
          cases hkind
        · cases hcheck

theorem zero_notMem_absolutePath (hwf : fs.WellFormed) (hcheck : checkPath p = .ok ())
    (hstart : ∃ mode, fs.at? (fs.startOf p) = some (.directory mode)) :
    0 ∉ (absolutePath fs p).bytes := by
  refine zero_notMem_of_names fun name hname hzero => ?_
  rw [absolutePath, hwf.names_absolute hstart, List.mem_append] at hname
  rcases hname with hname | hname
  · obtain ⟨mode, hstart⟩ := hstart
    rw [startOf] at hstart
    split at hname
    · cases hname
    · rename_i habs
      rw [if_neg habs] at hstart
      exact hwf.zero_notMem hstart name hname hzero
  · obtain ⟨hmem, -⟩ := Pathname.mem_pieces_of_mem_names (List.mem_filter.1 hname).1
    exact (checkPath_eq_ok.1 hcheck).1 (Pathname.mem_bytes_of_mem_pieces hmem hzero)

/-- A root is absolute, has no dots, and is that of a directory; it leads there if it is short
enough. -/
def RootLeads (fs : FileSystem) (p root : Pathname) : Prop :=
  root.IsClean ∧ ∃ pos, fs.NamesDirectoryAt p pos ∧
    ((∃ mode, fs.locateEntry true root = .ok (pos, .directory mode)) ↔
      root.bytes.length < pathLimit)

theorem IsRootOf.rootLeads (h : fs.IsRootOf p root) (hzero : 0 ∉ root.bytes) :
    fs.RootLeads p root := by
  obtain ⟨hclean, pos, hnamed, mode, hreach⟩ := h
  rw [List.append_nil] at hreach
  exact ⟨hclean, pos, hnamed, leads_iff hclean hzero hreach⟩

/-- What a file system can be after directories were made along a path. -/
structure PavedAlong (fs : FileSystem) (p : Pathname) (st : FileSystem) : Prop where
  wellFormed : st.WellFormed
  kept : ∀ {pos entry}, fs.at? pos = some entry → st.at? pos = some entry
  /-- Nothing but entries is changed. -/
  same : fs.SameFiles st
  /-- What is new is a directory of the usual mode, under a beginning of the path. -/
  new : ∀ {pos entry}, fs.at? pos = none → st.at? pos = some entry →
    entry = .directory directoryMode ∧ ∃ q : Pathname, q.bytes <+: p.bytes ∧ q.names <+: p.names ∧
      ∃ dir name, st.locateLast q = .ok (.name dir name) ∧ pos = dir ++ [name]
  /-- What is new holds nothing that was there before. -/
  alone : ∀ {pos rest entry}, fs.at? pos = none → st.at? (pos ++ rest) = some entry →
    fs.at? (pos ++ rest) = none

theorem Paved.pavedAlong (hwf : fs.WellFormed)
    (h : fs.Paved (p.ancestors (p.bytes.length + 1)) st) : fs.PavedAlong p st where
  wellFormed := (h.grown hwf).wellFormed
  kept := (h.grown hwf).kept
  same := h.same
  new := by
    intro pos entry hnone he
    obtain ⟨hentry, q, hq, hlast⟩ := h.new hwf hnone he
    exact ⟨hentry, q, Pathname.bytes_isPrefix_of_mem_ancestors hq,
      (Pathname.names_isPrefix_of_mem_ancestors hq).1, hlast⟩
  alone := fun hnone _ => hwf.at?_below_none hnone _

theorem PavedAlong.refl (hwf : fs.WellFormed) (p : Pathname) : fs.PavedAlong p fs :=
  Paved.pavedAlong hwf .refl

end FileSystem

/-! ## Attempts -/

variable {fs st : FileSystem} {p : Pathname} {create : Bool} {result : Except StorageError Store}

def FailsBy (kind : StorageError → Prop) (result : Except StorageError Store) : Prop :=
  ∃ e, result = .error e ∧ kind e

/-- What comes of opening a store at a path. -/
structure OpeningOutcome (fs : FileSystem) (p : Pathname) (create : Bool)
    (result : Except StorageError Store) (st : FileSystem) : Prop where
  along : fs.PavedAlong p st
  unchanged : p = .empty ∨ create = false ∨ ¬ fs.Lacks p → st = fs
  root : ∀ {s}, result = .ok s → st.RootLeads p s.root
  empty : p = .empty → FailsBy StorageError.IsInvalidConfig result
  /-- With nothing at the path, the configuration is wrong if the system says just that. -/
  missing : ∀ {e}, p ≠ .empty → create = false → fs.linkStat p = .error e →
    if e.kind = .notFound then FailsBy StorageError.IsInvalidConfig result
    else FailsBy StorageError.IsIo result
  notDirectory : ∀ {pos entry}, fs.locateEntry true p = .ok (pos, entry) → ¬ entry.isDirectory →
    fs.linkStat p = .ok entry ∨ (Pathname.ofRootNames pos).bytes.length < pathLimit →
      FailsBy StorageError.IsInvalidConfig result
  /-- A link to what is no directory, and has a path that the system does not take. -/
  outOfReach : ∀ {pos entry}, fs.locateEntry true p = .ok (pos, entry) → ¬ entry.isDirectory →
    ¬ (fs.linkStat p = .ok entry ∨ (Pathname.ofRootNames pos).bytes.length < pathLimit) →
      FailsBy StorageError.IsIo result
  /-- A link that leads nowhere. -/
  broken : ∀ {target e}, fs.linkStat p = .ok (.link target) → fs.stat p = .error e →
    FailsBy StorageError.IsIo result

namespace OpeningOutcome

theorem of_missing {e : IoError} (hne : p ≠ .empty) (hstat : fs.linkStat p = .error e)
    (halong : fs.PavedAlong p st) (hfixed : create = false ∨ ¬ e.kind = .notFound → st = fs)
    (hroot : ∀ {s}, result = .ok s → st.RootLeads p s.root)
    (hmissing : create = false → if e.kind = .notFound
      then FailsBy StorageError.IsInvalidConfig result else FailsBy StorageError.IsIo result) :
    OpeningOutcome fs p create result st := by
  have hfound : ∀ entry, fs.linkStat p ≠ .ok entry := fun entry h => by
    rw [hstat] at h
    cases h
  have hleads := locateEntry_ne_ok hfound
  refine ⟨halong, ?_, hroot, fun h => absurd h hne, ?_, fun h => absurd h (hleads _ _),
    fun h => absurd h (hleads _ _), fun h => absurd h (hfound _)⟩
  · rintro (h | h | h)
    · exact absurd h hne
    · exact hfixed (.inl h)
    · exact hfixed (.inr fun hkind => h ⟨e, hstat, hkind⟩)
  · intro e' _ hcreate hstat'
    rw [hstat] at hstat'
    cases hstat'
    exact hmissing hcreate

theorem of_empty (hwf : fs.WellFormed) (h : FailsBy StorageError.IsInvalidConfig result) :
    OpeningOutcome fs .empty create result fs := by
  have hfound : ∀ entry, fs.linkStat .empty ≠ .ok entry := fun entry hstat => by
    obtain ⟨pos, hlocate⟩ := linkStat_eq_ok.1 hstat
    exact (checkPath_eq_ok.1 (locate_eq_ok.1 hlocate).1).2.1 rfl
  have hleads := locateEntry_ne_ok hfound
  obtain ⟨e, rfl, -⟩ := id h
  exact ⟨.refl hwf _, fun _ => rfl, by simp, fun _ => h,
    fun hne => absurd rfl hne, fun h => absurd h (hleads _ _), fun h => absurd h (hleads _ _),
    fun h => absurd h (hfound _)⟩

theorem of_directory (hwf : fs.WellFormed) {root : Pathname} {entry entry' : Entry}
    (hstat : fs.linkStat p = .ok entry) (hroot : StandsFor fs p entry root entry')
    (hdirectory : entry'.isDirectory) : OpeningOutcome fs p create (.ok ⟨root⟩) fs := by
  obtain ⟨spot, hlocate⟩ := linkStat_eq_ok.1 hstat
  have hstart := start_of_locate hlocate
  have hcheck := (locate_eq_ok.1 hlocate).1
  have hof := hroot.isRootOf hwf hstart hstat hdirectory
  have hzero : 0 ∉ root.bytes := by
    rw [StandsFor] at hroot
    split at hroot
    · obtain ⟨pos, entry₀, rfl, -, hstat'⟩ := hroot
      obtain ⟨_, hlocate'⟩ := linkStat_eq_ok.1 hstat'
      exact (checkPath_eq_ok.1 (locate_eq_ok.1 hlocate').1).1
    · obtain ⟨rfl, -⟩ := hroot
      exact zero_notMem_absolutePath hwf hcheck hstart
  -- links followed, the path leads to the directory
  obtain ⟨-, pos, hnamed, -⟩ := id hof
  obtain ⟨mode, hleads⟩ := hnamed.locateEntry hcheck
  have hnot {pos' : Position} {found : Entry} (h : fs.locateEntry true p = .ok (pos', found))
      (hkind : ¬ found.isDirectory) : False := by
    rw [hleads] at h
    cases h
    exact hkind rfl
  refine ⟨.refl hwf p, fun _ => rfl, ?_, ?_, ?_, fun h hkind => (hnot h hkind).elim,
    fun h hkind => (hnot h hkind).elim, ?_⟩
  · rintro s hs
    cases hs
    exact hof.rootLeads hzero
  · rintro rfl
    exact absurd rfl (checkPath_eq_ok.1 hcheck).2.1
  · intro e _ _ hstat'
    rw [hstat] at hstat'
    cases hstat'
  · intro target e _ hbroken
    rw [stat, hleads] at hbroken
    cases hbroken

theorem of_other (hwf : fs.WellFormed) {root : Pathname} {entry entry' : Entry}
    (hstat : fs.linkStat p = .ok entry) (hroot : StandsFor fs p entry root entry')
    (h : FailsBy StorageError.IsInvalidConfig result) : OpeningOutcome fs p create result fs := by
  obtain ⟨spot, hlocate⟩ := linkStat_eq_ok.1 hstat
  have hcheck := (locate_eq_ok.1 hlocate).1
  obtain ⟨e, rfl, -⟩ := id h
  refine ⟨.refl hwf p, fun _ => rfl, by simp, fun _ => h, ?_, fun _ _ _ => h,
    ?_, ?_⟩
  · intro e _ _ hstat'
    rw [hstat] at hstat'
    cases hstat'
  · intro pos found hleads _ hfar
    refine absurd ?_ hfar
    rw [StandsFor] at hroot
    split at hroot
    · obtain ⟨pos', entry₀, rfl, hlocate', hstat'⟩ := hroot
      rw [locateEntry_eq_ok.2 hlocate'] at hleads
      cases hleads
      obtain ⟨_, hlocate''⟩ := linkStat_eq_ok.1 hstat'
      exact .inr (checkPath_eq_ok.1 (locate_eq_ok.1 hlocate'').1).2.2
    · rename_i hlink
      obtain ⟨found', hfound, hkind⟩ := linkStat_of_locateEntry hleads
      rw [hstat] at hfound
      cases hfound
      rw [← hkind.resolve_left hlink]
      exact .inl hstat
  · intro target e hlink hbroken
    rw [hstat] at hlink
    cases hlink
    have hlink : (Entry.link target).isLink := rfl
    rw [StandsFor, if_pos hlink] at hroot
    obtain ⟨pos', entry₀, -, hlocate', -⟩ := hroot
    rw [stat, locateEntry_eq_ok.2 hlocate'] at hbroken
    cases hbroken

theorem of_link (hwf : fs.WellFormed) {entry : Entry} (hstat : fs.linkStat p = .ok entry)
    (hlink : entry.isLink) (hfar : ∀ pos found, fs.locateEntry true p = .ok (pos, found) →
      ∃ e, fs.linkStat (.ofRootNames pos) = .error e)
    (h : FailsBy StorageError.IsIo result) : OpeningOutcome fs p create result fs := by
  obtain ⟨spot, hlocate⟩ := linkStat_eq_ok.1 hstat
  obtain ⟨mode, hstart⟩ := start_of_locate hlocate
  have hcheck := (locate_eq_ok.1 hlocate).1
  obtain ⟨e, rfl, -⟩ := id h
  refine ⟨.refl hwf p, fun _ => rfl, by simp, ?_, ?_, ?_, fun _ _ _ => h,
    fun _ _ => h⟩
  · rintro rfl
    exact absurd rfl (checkPath_eq_ok.1 hcheck).2.1
  · intro e _ _ hstat'
    rw [hstat] at hstat'
    cases hstat'
  · intro pos found hleads _ hnear
    have hwalk := (locate_eq_ok.1 (locateEntry_eq_ok.1 hleads)).2
    rcases hnear with hnear | hnear
    · rw [hstat] at hnear
      cases hnear
      exact absurd hlink (walk_not_isLink hwf hstart (by simp [Entry.isLink]) hwalk)
    · obtain ⟨e', he'⟩ := hfar pos found hleads
      rw [hwf.linkStat_ofRootNames (walk_occupied hwalk) hnear] at he'
      cases he'

end OpeningOutcome

theorem makeRoot_leads (hwf : fs.WellFormed) (hne : p ≠ .empty) (hcheck : checkPath p = .ok ()) :
    (makeRoot p).Runs fs (fun st => fs.PavedAlong p st)
      (fun root st => fs.PavedAlong p st ∧ st.RootLeads p root)
      (fun e st => fs.PavedAlong p st ∧ e.IsIo) := by
  refine (makeRoot_of_made hne ((makeDirectories_paves fs p).weaken
    (fun _ hst => hst.pavedAlong hwf) (fun _ _ hst => hst)
    fun e _ hst => ⟨hst.pavedAlong hwf, .during _ e⟩)).weaken (fun _ hst => hst) ?_
    fun _ _ hst => hst
  rintro _ st ⟨hpaved, ⟨pos, hpos⟩, rfl⟩
  have hwf' := (hpaved.grown hwf).wellFormed
  exact ⟨hpaved.pavedAlong hwf, (NamesDirectoryAt.isRootOf hwf' hpos).rootLeads
    (zero_notMem_absolutePath hwf' hcheck (start_of_walk hpos.choose_spec))⟩

theorem resolveRoot_outcome (hwf : fs.WellFormed) (p : Pathname) (create : Bool) :
    (resolveRoot p create).Runs fs (fs.PavedAlong p)
      (fun root st => OpeningOutcome fs p create (.ok ⟨root⟩) st)
      (fun e st => OpeningOutcome fs p create (.error e) st) := by
  rw [resolveRoot]
  split
  · subst p
    exact Op.Runs.throw (.of_empty hwf ⟨_, rfl, _, _, rfl⟩)
  rename_i hne
  apply Op.Runs.get
  rintro w rfl
  split
  · rename_i e hstat
    split
    · rename_i hkind
      split
      · -- the directory is made
        rename_i hcreate
        refine (makeRoot_leads hwf hne (checkPath_of_linkStat hne hstat hkind)).weaken
          (fun _ hst => hst) (fun root st hst => ?_) fun e' st hst => ?_
        · refine .of_missing hne hstat hst.1 (by simp [hcreate, hkind]) ?_ (by simp [hcreate])
          rintro s hs
          cases hs
          exact hst.2
        · exact .of_missing hne hstat hst.1 (by simp [hcreate, hkind]) (by simp)
            (by simp [hcreate])
      · refine Op.Runs.throw (.of_missing hne hstat (.refl hwf p) (fun _ => rfl)
          (by simp) fun _ => ?_)
        rw [if_pos hkind]
        exact ⟨_, rfl, _, _, rfl⟩
    · rename_i hkind
      refine Op.Runs.throw (.of_missing hne hstat (.refl hwf p) (fun _ => rfl)
        (by simp) fun _ => ?_)
      rw [if_neg hkind]
      exact ⟨_, rfl, .during _ e⟩
  · rename_i entry hstat
    refine Op.Runs.bind _ ((existingRoot_exact hstat).weaken (fun _ hst => hst.elim)
      (fun _ _ hst => hst) ?_) ?_
    · rintro e st ⟨rfl, hlink, hio, hfar⟩
      exact .of_link hwf hstat hlink hfar ⟨e, rfl, hio⟩
    · rintro ⟨root, entry'⟩ st ⟨rfl, hroot⟩
      dsimp only
      split
      · exact Op.Runs.pure (.of_directory hwf hstat hroot ‹_›)
      · exact Op.Runs.throw (.of_other hwf hstat hroot ⟨_, rfl, _, _, rfl⟩)

namespace Store

/-- Every attempt to open a store ends as said, and passes only through file systems in which
directories were made along the path. -/
theorem openAt_outcome {w : World} (hwf : w.fs.WellFormed) (p : Pathname) (create : Bool) :
    OpeningOutcome w.fs p create ((openAt p create).run w).1 ((openAt p create).run w).2.fs ∧
      ∃ visited, ((openAt p create).run w).2.states = visited ++ w.states ∧
        ∀ st ∈ visited, w.fs.PavedAlong p st := by
  obtain ⟨visited, hstates, hvisited, hresult⟩ :=
    Store.openAt_of_resolveRoot (resolveRoot_outcome hwf p create) w rfl
  refine ⟨?_, visited, hstates, hvisited⟩
  cases h : ((openAt p create).run w).1 with
  | ok s =>
    rw [h] at hresult
    exact hresult
  | error e =>
    rw [h] at hresult
    exact hresult

/-- The path r/x/../y/ is made from the upper end, double dots and all. -/
theorem openAt_outcome_dotted :
    let w := World.ofFileSystem (newDirectory [114])
    let opened := (openAt (.ofString "r/x/../y/") true).run w
    w.fs.WellFormed ∧ OpeningOutcome w.fs (.ofString "r/x/../y/") true opened.1 opened.2.fs ∧
      opened.1 = .ok ⟨.ofString "/r/x/../y/"⟩ ∧
        opened.2.fs.at? [[114], [121]] = some (.directory directoryMode) := by
  have hwf := newDirectory_wellFormed isEntryName_r
  exact ⟨hwf, (openAt_outcome (w := .ofFileSystem (newDirectory [114])) hwf _ true).1,
    by decide +kernel, by decide +kernel⟩

/-- Nothing is at a path below a file, and the failure is one of the system. -/
theorem missing_root_is_not_reported :
    ¬ ∀ (w : World) (p : Pathname), w.fs.WellFormed → p ≠ .empty →
      (∀ entry, w.fs.linkStat p ≠ .ok entry) →
        FailsBy StorageError.IsInvalidConfig ((openAt p false).run w).1 := by
  intro hall
  have hstat : furnished.linkStat (.ofString "r/n/x") = .error .notDirectory := by decide +kernel
  obtain ⟨e, hrun, text, context, rfl⟩ := hall (.ofFileSystem furnished) (.ofString "r/n/x")
    furnished_wellFormed (by decide) fun entry h => by
      rw [show (World.ofFileSystem furnished).fs = furnished from rfl, hstat] at h
      cases h
  have hopen : ((openAt (.ofString "r/n/x") false).run (.ofFileSystem furnished)).1 =
      .error (.during "stat r/n/x" .notDirectory) := by decide +kernel
  rw [hopen] at hrun
  cases hrun

end Store

end Depot
