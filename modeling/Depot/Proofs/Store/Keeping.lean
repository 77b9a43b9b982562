import Depot.Proofs.Store.Grounded
import Depot.Proofs.Store.Purging
import Depot.Proofs.Store.WriteCall
/-!
# What the operations of a store leave alone

Every operation of a store, whatever comes of it, keeps the store grounded.  It writes into no file
but the one that is bound at the staging path of an object that it writes, and it binds files only
at the two paths of such an object.  So whoever holds a file that is bound nowhere else keeps it as
it is.

* `Kept` — what is left alone, and that this adds up;
* `openReader_still`, `stat_still`, `list_still` — operations that change nothing at all;
* `delete_keeps`, `purge_keeps`, `save_keeps`, `copy_keeps` — those that change something.
-/

namespace Depot

open FileSystem

/-- A file that is bound at one position at most. -/
structure FileSystem.Guarded (pos : Position) (id : Nat) (f : File) (fs : FileSystem) : Prop where
  file : fs.file? id = some f
  bound : ∀ pos', fs.at? pos' = some (.file id) → pos' = pos

namespace Store

variable {s : Store} {root : Position} {writes : Position → Prop} {k : Key}
  {fs fs' fs'' : FileSystem}

/-- What is left alone while only certain objects are written. -/
structure Kept (s : Store) (root : Position) (writes : Position → Prop) (fs fs' : FileSystem) :
    Prop where
  grounded : s.Grounded root fs'
  guarded : ∀ {pos id f}, (∀ k : Key, writes k.names → root ++ k.staging ≠ pos) →
    Guarded pos id f fs → Guarded pos id f fs'
  bound : ∀ {pos id},
    (∀ k : Key, writes k.names → root ++ k.staging ≠ pos ∧ root ++ k.names ≠ pos) →
      fs'.at? pos = some (.file id) → fs.at? pos = some (.file id)

namespace Kept

theorem refl (h : s.Grounded root fs) : s.Kept root writes fs fs := ⟨h, fun _ => id, fun _ => id⟩

theorem trans (h : s.Kept root writes fs fs') (h' : s.Kept root writes fs' fs'') :
    s.Kept root writes fs fs'' :=
  ⟨h'.grounded, fun hpos hg => h'.guarded hpos (h.guarded hpos hg),
    fun hpos he => h.bound hpos (h'.bound hpos he)⟩

theorem of_grown (h : s.Grounded root fs) (hgrown : Grown fs fs') :
    s.Kept root writes fs fs' := by
  have hfile {pos : Position} {id : Nat} :
      fs'.at? pos = some (.file id) ↔ fs.at? pos = some (.file id) :=
    hgrown.at?_eq_some_iff (by simp [Entry.isDirectory])
  refine ⟨h.of_grown hgrown, fun _ hg => ⟨?_, fun pos' he => ?_⟩, fun _ => hfile.1⟩
  · rw [hgrown.file?_eq, hg.file]
  · exact hg.bound pos' (hfile.1 he)

theorem of_at?_le (h : s.Grounded root fs')
    (hle : ∀ {pos entry}, fs'.at? pos = some entry → fs.at? pos = some entry)
    (hfile : ∀ id, fs'.file? id = fs.file? id) : s.Kept root writes fs fs' := by
  refine ⟨h, fun _ hg => ⟨?_, fun pos' he => hg.bound pos' (hle he)⟩, fun _ => hle⟩
  rw [hfile, hg.file]

theorem atTime (h : s.Grounded root fs) (time : Int) :
    s.Kept root writes fs { fs with clock := time } :=
  ⟨h.atTime time, fun _ hg => ⟨hg.file, hg.bound⟩, fun _ he => he⟩

theorem of_staged (hk : writes k.names) (h : s.Staged root k fs fs') :
    s.Kept root writes fs fs' where
  grounded := h.tidy.grounded
  guarded := by
    intro pos id f hpos hg
    have howned : ¬ fs.Owns [root ++ k.staging] id := by
      rintro (hnone | ⟨pos', hmem, he⟩)
      · rw [hg.file] at hnone
        cases hnone
      · rw [List.mem_singleton.1 hmem] at he
        exact hpos k hk (hg.bound _ he)
    refine ⟨by rw [h.footprint.file howned, hg.file], fun pos' he => ?_⟩
    by_cases hspot : pos' ∈ [root ++ k.staging]
    · exact absurd (h.footprint.owner hspot he) howned
    · exact hg.bound pos' ((h.footprint.at?_eq_file_iff hspot).1 he)
  bound := by
    intro pos id hpos he
    refine (h.footprint.at?_eq_file_iff ?_).1 he
    rw [List.mem_singleton]
    exact fun heq => (hpos k hk).1 heq.symm

theorem of_published {bytes : Bytes} (hk : writes k.names) (h : s.Published root k fs bytes fs') :
    s.Kept root writes fs fs' where
  grounded := h.tidy.grounded
  guarded := by
    intro pos id f hpos hg
    have hstaging : fs.at? (root ++ k.staging) ≠ some (.file id) :=
      fun he => hpos k hk (hg.bound _ he)
    have howned : ¬ fs.Owns [root ++ k.staging] id := by
      rintro (hnone | ⟨pos', hmem, he⟩)
      · rw [hg.file] at hnone
        cases hnone
      · rw [List.mem_singleton.1 hmem] at he
        exact hstaging he
    refine ⟨by rw [h.file?_eq howned, hg.file], fun pos' he => ?_⟩
    by_cases hspot : pos' ∈ [root ++ k.names, root ++ k.staging]
    · rcases h.footprint.owner hspot he with hnone | ⟨pos'', hmem, hbound⟩
      · rw [hg.file] at hnone
        cases hnone
      rcases List.mem_pair.1 hmem with rfl | rfl
      · rcases List.mem_pair.1 hspot with rfl | rfl
        · exact hg.bound _ hbound
        · rw [h.vacant] at he
          cases he
      · exact absurd hbound hstaging
    · exact hg.bound pos' ((h.footprint.at?_eq_file_iff hspot).1 he)
  bound := by
    intro pos id hpos he
    refine (h.footprint.at?_eq_file_iff ?_).1 he
    rw [List.mem_pair]
    rintro (rfl | rfl)
    · exact (hpos k hk).2 rfl
    · exact (hpos k hk).1 rfl

end Kept

/-- An operation that, wherever it is run, changes nothing. -/
def IsStill {ε α : Type} (op : Op ε α) : Prop :=
  ∀ fs, op.Runs fs (fun _ => False) (fun _ st => st = fs) (fun _ st => st = fs)

/-- An operation that leaves alone what it should in every grounded store. -/
def Keeps {ε α : Type} (s : Store) (root : Position) (writes : Position → Prop) (op : Op ε α) :
    Prop :=
  ∀ fs, s.Grounded root fs →
    op.Runs fs (fun _ => True) (fun _ => s.Kept root writes fs) (fun _ => s.Kept root writes fs)

theorem IsStill.keeps {ε α : Type} {op : Op ε α} (h : IsStill op) : s.Keeps root writes op := by
  intro fs hfs
  refine (h fs).weaken (fun _ _ => trivial) ?_ ?_
  · rintro _ st rfl
    exact Kept.refl hfs
  · rintro _ st rfl
    exact Kept.refl hfs

theorem IsStill.run_fs {ε α : Type} {op : Op ε α} (h : IsStill op) (w : World) :
    (op.run w).2.fs = w.fs := by
  rcases hrun : op.run w with ⟨result, w'⟩
  cases result with
  | ok a => exact (h w.fs).of_ok rfl hrun
  | error e => exact (h w.fs).of_error rfl hrun

/-! ## Operations that only look -/

theorem openObject_still (path : Pathname) (doing : String) : IsStill (openObject path doing) := by
  intro fs
  apply Op.Runs.mapError
  exact Op.Runs.query (fun _ _ => rfl) fun _ _ => rfl

theorem openReader_still (s : Store) (name : String) : IsStill (s.openReader name) := by
  intro fs
  rw [openReader]
  cases s.resolve name with
  | error fault => exact Op.Runs.lift_error rfl
  | ok path =>
      apply Op.Runs.lift_ok
      refine Op.Runs.bind _ (openObject_still path "open reader" fs) ?_
      rintro handle st rfl
      exact Op.Runs.pure rfl

theorem stat_still (s : Store) (name : String) : IsStill (s.stat name) := by
  intro fs
  rw [Store.stat]
  cases s.resolve name with
  | error fault => exact Op.Runs.lift_error rfl
  | ok path =>
      apply Op.Runs.lift_ok
      apply Op.Runs.get
      intro w _
      split
      · split
        · exact Op.Runs.throw rfl
        · exact Op.Runs.throw rfl
      · split
        · exact Op.Runs.throw rfl
        · apply Op.Runs.get
          intro w' _
          split
          · exact Op.Runs.throw rfl
          · exact Op.Runs.pure rfl

theorem collect_still (base : Pathname) (ending : String) (found : List (Position × Entry)) :
    IsStill (collect base ending found) := by
  induction found with
  | nil => exact fun fs => Op.Runs.pure rfl
  | cons first rest ih =>
      intro fs
      obtain ⟨names, entry⟩ := first
      rw [collect]
      apply Op.Runs.get
      intro w _
      split
      · refine Op.Runs.bind _ (ih fs) ?_
        rintro infos st rfl
        exact Op.Runs.pure rfl
      · exact ih fs
      · exact Op.Runs.throw rfl
      · refine Op.Runs.bind (fun _ st => st = fs) (Op.Runs.report rfl) ?_
        rintro _ st rfl
        exact ih st

theorem list_still (s : Store) (beginning ending : String) : IsStill (s.list beginning ending) := by
  intro fs
  rw [Store.list]
  cases s.resolveBeginning beginning with
  | error fault => exact Op.Runs.lift_error rfl
  | ok base =>
      apply Op.Runs.lift_ok
      apply Op.Runs.get
      intro w _
      split
      · exact collect_still base ending _ fs
      · split
        · exact Op.Runs.pure rfl
        · exact Op.Runs.throw rfl

/-! ## Operations that remove -/

theorem delete_keeps (s : Store) (root : Position) (writes : Position → Prop) (name : String) :
    s.Keeps root writes (s.delete name) := by
  intro fs h
  cases hname : s.resolve name with
  | error fault =>
      refine (delete_refused_runs hname).refused ?_
      rintro _ st rfl
      exact Kept.refl h
  | ok path =>
      obtain ⟨k, -, rfl, -⟩ := resolve_eq_ok hname
      by_cases hroot : s.LeadsTo fs root
      · refine (delete_runs (h.tidy hroot) hname).weaken (fun _ _ => trivial) ?_ ?_
        · intro _ st hpruned
          exact Kept.of_at?_le (h.of_pruned k.names_ne_nil hpruned) hpruned.at?_le hpruned.file?_eq
        · rintro _ st rfl
          exact Kept.refl h
      · rw [delete, hname]
        apply Op.Runs.lift_ok
        refine Op.Runs.bind (fun _ _ => False) ?_ fun _ _ hst => hst.elim
        apply Op.Runs.mapError
        apply Op.Runs.query
        · intro entry hstat
          obtain ⟨pos, hlocate⟩ := linkStat_eq_ok.1 hstat
          exact hroot (h.leadsTo_of_locate k.isName hlocate)
        · exact fun _ _ => Kept.refl h

theorem Grounded.leadsTo_of_traverse (h : s.Grounded root fs) {found : Traversal}
    (htraverse : fs.traverse s.root = .ok found) : s.LeadsTo fs root := by
  obtain ⟨⟨pos, entry⟩, hlocate, -⟩ := bind_eq_ok.1 htraverse
  obtain ⟨fs₀, habs, -⟩ := h.rooted
  rw [locateEntry_eq_ok, locate_eq_ok, startOf, if_pos habs.isAbsolute] at hlocate
  exact h.leadsTo_of_walk hlocate.2

theorem purge_keeps (s : Store) (root : Position) (writes : Position → Prop) (maxAge : Nat) :
    s.Keeps root writes (s.purge maxAge) := by
  intro fs h
  by_cases hroot : s.LeadsTo fs root
  · refine (purge_removed (h.tidy hroot) maxAge).weaken (fun _ _ => trivial) ?_
      fun _ _ hst => hst.elim
    rintro _ st ⟨-, hremoved⟩
    refine Kept.of_at?_le hremoved.tidy.grounded ?_ hremoved.file
    intro pos entry he
    rcases hremoved.kept pos with hsame | ⟨-, hnone⟩
    · rwa [hsame] at he
    · rw [hnone] at he
      cases he
  · -- Where the root cannot be found, there is nothing to walk through.
    have hlost : ∃ e, fs.traverse s.root = .error e := by
      cases htraverse : fs.traverse s.root with
      | error e => exact ⟨e, rfl⟩
      | ok found => exact absurd (h.leadsTo_of_traverse htraverse) hroot
    obtain ⟨e, he⟩ := hlost
    rw [Store.purge]
    apply Op.Runs.get
    rintro w rfl
    dsimp only
    rw [he]
    exact Op.Runs.pure (Kept.refl h)

/-! ## Operations that write -/

/-- All that a write has done before its staging file is open: it has made directories, and staged
what it could if they led to the root. -/
def Prepared (s : Store) (root : Position) (k : Key) (fs fs' : FileSystem) : Prop :=
  ∃ st, Grown fs st ∧ (s.Tidy st root ∧ s.Staged root k st fs' ∨ ¬ s.LeadsTo st root ∧ fs' = st)

/-- A write into a store that is tidy since its directories were made. -/
def Opened (s : Store) (root : Position) (k : Key) (fs : FileSystem) (w : Writing)
    (fs' : FileSystem) : Prop :=
  ∃ st, Grown fs st ∧ s.Tidy st root ∧ s.Live root k st w [] fs'

theorem Prepared.kept (hk : writes k.names) (h : s.Grounded root fs)
    (hprepared : s.Prepared root k fs fs') : s.Kept root writes fs fs' := by
  obtain ⟨st, hgrown, ⟨-, hstaged⟩ | ⟨-, rfl⟩⟩ := hprepared
  · exact (Kept.of_grown h hgrown).trans (Kept.of_staged hk hstaged)
  · exact Kept.of_grown h hgrown

theorem Grounded.prepared (h : s.Grounded root fs) (hgrown : Grown fs fs') :
    s.Prepared root k fs fs' := by
  by_cases hroot : s.LeadsTo fs' root
  · have htidy := (h.of_grown hgrown).tidy hroot
    exact ⟨fs', hgrown, Or.inl ⟨htidy, Staged.refl htidy⟩⟩
  · exact ⟨fs', hgrown, Or.inr ⟨hroot, rfl⟩⟩

theorem openStaging_prepared (h : s.Grounded root fs) :
    (openStaging (s.pathOf k.names)).Runs fs (fun _ => True) (s.Opened root k fs)
      (fun _ => s.Prepared root k fs) := by
  obtain ⟨fs₀, habs, -⟩ := h.rooted
  obtain ⟨parent, hparent, -⟩ := habs.parent?_staging k
  rw [openStaging_of_parent (habs.stagingPath_eq k) hparent]
  refine Op.Runs.bind (fun _ => Grown fs) ?_ ?_
  · apply Op.Runs.mapError
    exact (makeDirectories_grown parent (Grown.refl h.wellFormed)).weaken (fun _ _ => trivial)
      (fun _ _ hst => hst) fun _ _ hst => h.prepared hst
  intro _ st hgrown
  by_cases hroot : s.LeadsTo st root
  · have htidy := (h.of_grown hgrown).tidy hroot
    exact (createStaging_runs (Staged.refl htidy)).weaken (fun _ _ => trivial)
      (fun _ _ hst => ⟨st, hgrown, htidy, hst⟩) fun _ _ hst => ⟨st, hgrown, Or.inl ⟨htidy, hst⟩⟩
  · refine runs_createStaging (habs.stagingPath_eq k) (fun st' handle hcreate => ?_)
      fun _ _ => h.prepared hgrown
    rw [FileSystem.create, Key.staging, s.not_endsInSlash_pathOf k.isName_staging,
      if_neg (by simp), bind_eq_ok] at hcreate
    obtain ⟨place, hplace, -⟩ := hcreate
    exact absurd ((h.of_grown hgrown).leadsTo_of_locate k.isName_staging hplace) hroot

theorem discard_prepared (h : s.Grounded root fs) (hprepared : s.Prepared root k fs fs') :
    (discard (s.pathOf k.staging)).Runs fs' (fun _ => True) (fun _ => s.Prepared root k fs)
      (fun _ _ => False) := by
  obtain ⟨st, hgrown, ⟨htidy, hstaged⟩ | ⟨hroot, rfl⟩⟩ := hprepared
  · exact (discard_runs hstaged).weaken (fun _ _ => trivial)
      (fun _ _ hst => ⟨st, hgrown, Or.inl ⟨htidy, hst.1⟩⟩) fun _ _ hst => hst
  · refine runs_discard (fun fs'' hunlink => ?_) fun _ _ => h.prepared hgrown
    obtain ⟨last, hlast, -⟩ := bind_eq_ok.1 hunlink
    exact absurd ((h.of_grown hgrown).leadsTo_of_locateLast k.isName_staging hlast) hroot

theorem beginWriting_prepared (h : s.Grounded root fs) :
    (beginWriting (s.pathOf k.names)).Runs fs (fun _ => True) (s.Opened root k fs)
      (fun _ => s.Prepared root k fs) := by
  obtain ⟨fs₀, habs, -⟩ := h.rooted
  exact runs_discarding (habs.stagingPath_eq k) (openStaging_prepared h)
    fun _ hst => discard_prepared h hst

theorem save_keeps (s : Store) (root : Position) {writes : Position → Prop} {name : String}
    (hwrites : ∀ names, ObjectName.ofObject name = .ok names → writes names)
    (source : List Delivery) (expected : Nat) :
    s.Keeps root writes (s.save name source expected) := by
  intro fs h
  cases hname : s.resolve name with
  | error fault =>
      refine (save_refused_runs hname source expected).refused ?_
      rintro _ st rfl
      exact Kept.refl h
  | ok path =>
      obtain ⟨k, hnames, rfl, -⟩ := resolve_eq_ok hname
      have hk := hwrites _ hnames
      rw [save, saveFrom, beginSave, hname]
      refine Op.Runs.bind (s.Opened root k fs) ?_ ?_
      · apply Op.Runs.lift_ok
        exact (beginWriting_prepared h).weaken (fun _ hst => hst) (fun _ _ hst => hst)
          fun _ _ hst => hst.kept hk h
      rintro w fs' ⟨st, hgrown, htidy, hlive⟩
      have hbefore : s.Kept root writes fs st := Kept.of_grown h hgrown
      refine (hlive.fill_runs (fun _ => source) htidy rfl (fun _ _ => trivial) ?_).weaken
        (fun _ hst => hst) (fun _ _ hst => hst)
        fun _ _ hst => hbefore.trans (Kept.of_staged hk hst.1)
      intro w' bytes st' _ hlive'
      exact (hlive'.endSave_runs htidy name expected).weaken (fun _ _ => trivial)
        (fun _ _ hst => hbefore.trans (Kept.of_published hk hst)) fun _ _ hst => hst

theorem copy_keeps (s : Store) (root : Position) {writes : Position → Prop} (src : String)
    {dst : String} (hwrites : ∀ names, ObjectName.ofObject dst = .ok names → writes names) :
    s.Keeps root writes (s.copy src dst) := by
  intro fs h
  have hsame : ∀ st, st = fs → s.Kept root writes fs st := by
    rintro st rfl
    exact Kept.refl h
  cases hdst : s.resolve dst with
  | error fault => exact (copy_refused_runs (Or.inr ⟨fault, hdst⟩)).refused fun _ => hsame
  | ok path =>
      obtain ⟨k, hnames, rfl, -⟩ := resolve_eq_ok hdst
      have hk := hwrites _ hnames
      cases hsrc : s.resolve src with
      | error fault => exact (copy_refused_runs (Or.inl ⟨fault, hsrc⟩)).refused fun _ => hsame
      | ok path' =>
          obtain ⟨k', -, rfl, -⟩ := resolve_eq_ok hsrc
          by_cases hroot : s.LeadsTo fs root
          · refine (copy_runs (h.tidy hroot) hsrc hdst).weaken (fun _ _ => trivial) ?_ ?_
            · rintro _ st ⟨bytes, -, hpublished⟩
              exact Kept.of_published hk hpublished
            · rintro _ st (⟨rfl, -⟩ | ⟨-, hstaged, -⟩)
              · exact Kept.refl h
              · exact Kept.of_staged hk hstaged
          · rw [copy, hsrc, hdst]
            apply Op.Runs.lift_ok
            apply Op.Runs.lift_ok
            refine Op.Runs.bind (fun _ _ => False) ?_ fun _ _ hst => hst.elim
            apply Op.Runs.mapError
            apply Op.Runs.query
            · intro handle hopen
              obtain ⟨entry, hstat, -⟩ := map_eq_ok.1 hopen
              exact hroot (h.leadsTo_of_stat k'.isName hstat)
            · exact fun _ _ => Kept.refl h

end Store

end Depot
